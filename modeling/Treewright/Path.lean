import Treewright.Text.Quoted
set_option autoImplicit false

namespace Treewright

structure Path where
  root : String := ""
  parts : List String := []
  deriving DecidableEq, Repr, Inhabited

def splitSlashes : List Char → List (List Char)
  | [] => [[]]
  | c :: cs =>
    if c = '/' then [] :: splitSlashes cs
    else
      match splitSlashes cs with
      | [] => [[c]]
      | piece :: pieces => (c :: piece) :: pieces

namespace Path

/-- The root that so many slashes at the start stand for: two are a root of their own. -/
def rootOf : (slashes : Nat) → String
  | 0 => ""
  | 2 => "//"
  | _ => "/"

def ofText (s : String) : Path :=
  let cs := s.toList
  { root := rootOf (cs.takeWhile (· = '/')).length
    parts := ((splitSlashes cs).map String.ofList).filter fun p => p ≠ "" && p ≠ "." }

def text (p : Path) : String :=
  if p.root = "" && p.parts.isEmpty then "." else p.root ++ "/".intercalate p.parts

def isAbsolute (p : Path) : Bool := p.root ≠ ""

def name (p : Path) : String := p.parts.getLastD ""

/-- The name without its ending. A point at either end of the name begins no ending. -/
def stem (p : Path) : String :=
  let cs := p.name.toList
  let ending := (cs.reverse.takeWhile (· ≠ '.')).length
  let front := cs.take (cs.length - ending - 1)
  if ending = 0 || cs.length ≤ ending || front.isEmpty then p.name else String.ofList front

def parent (p : Path) : Path := { p with parts := p.parts.dropLast }

def join (p q : Path) : Path := if q.isAbsolute then q else { p with parts := p.parts ++ q.parts }

def quoted (p : Path) : String := Text.quote p.text

end Path
end Treewright
