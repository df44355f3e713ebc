import Treewright.Disk
import Treewright.Document.Json
set_option autoImplicit false

namespace Treewright

structure Program where
  name : String
  actions : List Value
  /-- Half of a surrogate pair stood alone in the file, where a replacement stands now. -/
  loneHalf : Bool := false
  deriving Inhabited

inductive LoadFault where
  | file (fault : FileFault)
  | encoding (flaw : Text.ByteFlaw)
  | notJson (source : String) (flaw : Json.Flaw) (line : Nat)
  | longNumber (digits : Nat)
  | shape (source : String)
  deriving DecidableEq, Repr, Inhabited

def LoadFault.message : LoadFault → String
  | .file fault => fault.message
  | .encoding flaw => flaw.message
  | .notJson source flaw line => source ++ s!": not valid JSON ({flaw.message} at line {line})"
  | .longNumber digits => Json.Fault.message (.longNumber digits)
  | .shape source => source ++ ": expected a list of actions or an object with a 'program' list"

/-- Faults that a user of the file is told of: the file cannot be had, or holds no program. -/
def LoadFault.told : LoadFault → Bool
  | .file (.refused _ _) | .notJson _ _ _ | .shape _ => true
  | .file .nullInPath | .encoding _ | .longNumber _ => false

namespace Program

def textOf (bytes : List UInt8) : Except Text.ByteFlaw String :=
  (Text.decode bytes).map fun s => String.ofList (Text.feedLines s.toList)

/-- The program that a document holds. It is named in the document, or else like its file. -/
def ofValue (path : Path) (loneHalf : Bool) : Value → Except LoadFault Program
  | .list actions => .ok ⟨path.stem, actions, loneHalf⟩
  | v =>
    match v.get? "program", v.get? "name" with
    | some (.list actions), some name =>
      .ok ⟨if name.truthy then name.text else path.stem, actions, loneHalf⟩
    | some (.list actions), none => .ok ⟨path.stem, actions, loneHalf⟩
    | _, _ => .error (.shape path.name)

def ofBytes (path : Path) (bytes : List UInt8) : Except LoadFault Program := do
  let text ← (textOf bytes).mapError .encoding
  match Json.read text with
  | .ok v => ofValue path (Json.loneHalf false text.toList) v
  | .error (.flaw flaw line _ _) => throw (.notJson path.name flaw line)
  | .error (.longNumber digits) => throw (.longNumber digits)

def load (d : Disk) (path : Path) : Except LoadFault Program := do
  ofBytes path (← (d.read path).mapError .file)

end Program
end Treewright
