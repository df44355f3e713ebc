set_option autoImplicit false

namespace Treewright

def endsLine (c : Char) : Bool :=
  ['\n', '\r', '\x0b', '\x0c', '\x1c', '\x1d', '\x1e', '\x85', '\u2028', '\u2029'].contains c

structure Sheet where
  lines : List (List Char) := [[]]
  lineEnd : List Char := ['\n']
  deriving DecidableEq, Repr, Inhabited

namespace Sheet

/-- The lines of a text, without what ends them. At the end of the text another line begins only
after a line feed or a return. -/
def linesOf : List Char → List (List Char)
  | [] => [[]]
  | '\r' :: '\n' :: cs => [] :: linesOf cs
  | c :: cs =>
    if endsLine c then
      if cs.isEmpty && c ≠ '\n' && c ≠ '\r' then [[]] else [] :: linesOf cs
    else
      match linesOf cs with
      | [] => [[c]]
      | line :: lines => (c :: line) :: lines

def hasPair : List Char → Bool
  | [] => false
  | '\r' :: '\n' :: _ => true
  | _ :: cs => hasPair cs

/-- The line end for a text: a pair if there is one, else a line feed, unless there are only
returns. -/
def lineEndOf (cs : List Char) : List Char :=
  if hasPair cs then ['\r', '\n']
  else if !cs.contains '\n' && cs.contains '\r' then ['\r']
  else ['\n']

def ofText (s : String) : Sheet := ⟨linesOf s.toList, lineEndOf s.toList⟩

def text (s : Sheet) : String := String.ofList (s.lineEnd.intercalate s.lines)

/-- The row and the column of an index, from the row `row` on, where `gap` characters end a line. -/
def placeFrom? (gap row index : Nat) : List (List Char) → Option (Nat × Nat)
  | [] => none
  | line :: lines =>
    let next := line.length + gap
    if index < next then some (row, index)
    else if index = next then some (row + 1, 0)
    else placeFrom? gap (row + 1) (index - next) lines

def clamp (s : Sheet) (row column : Nat) : Nat × Nat :=
  (min row (s.lines.length - 1), min column (s.lines[row]?.getD []).length)

/-- The row and the column of an index in the text, both from zero; none beyond its end. -/
def place? (s : Sheet) (index : Nat) : Option (Nat × Nat) :=
  if s.text.length < index then none
  else (placeFrom? s.lineEnd.length 0 index s.lines).map fun p => s.clamp p.1 p.2

end Sheet
end Treewright
