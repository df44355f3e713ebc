import Treewright.Document.Value
set_option autoImplicit false

namespace Treewright

open Decimal

inductive Name where
  | nothing : Name
  | flag : Bool → Name
  | whole : Int → Name
  | real : Binary64 → Name
  | text : String → Name
  deriving DecidableEq, Repr, Inhabited

namespace Name

def ofValue? : Value → Option Name
  | .null => some .nothing
  | .bool b => some (.flag b)
  | .int n => some (.whole n)
  | .float x => some (.real x)
  | .string s => some (.text s)
  | .list _ | .object _ => none

def toValue : Name → Value
  | .nothing => .null
  | .flag b => .bool b
  | .whole n => .int n
  | .real x => .float x
  | .text s => .string s

@[simp] theorem ofValue?_toValue (n : Name) : ofValue? n.toValue = some n := by cases n <;> rfl

theorem ofValue?_eq_none_iff (v : Value) :
    ofValue? v = none ↔ (∃ items, v = .list items) ∨ ∃ fields, v = .object fields := by
  cases v <;> simp [ofValue?]

def key : Name → Name
  | .flag b => .whole (if b then 1 else 0)
  | .real x =>
    match x.whole? with
    | some n => .whole n
    | none => .real x
  | n => n

@[simp] theorem key_text (s : String) : (Name.text s).key = .text s := rfl

def same (a b : Name) : Bool := a.key = b.key

@[simp] theorem same_self (a : Name) : a.same a = true := by simp [same]

theorem same_comm (a b : Name) : a.same b = b.same a := by simp [same, eq_comm]

theorem same_text_iff (s t : String) : (Name.text s).same (.text t) = true ↔ s = t := by
  simp [same]

def written (n : Name) : String := n.toValue.text

def quoted (n : Name) : String := n.toValue.quoted

@[simp] theorem written_text (s : String) : (Name.text s).written = s := rfl

end Name
end Treewright
