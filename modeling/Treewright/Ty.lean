import Treewright.Document.Value
import Treewright.Text.Blank
import Treewright.Text.Case
set_option autoImplicit false

namespace Treewright

/-- `any` is the type of what failed to get one. The size of an array is what was written for it. A
`foreign` type is known only by a value and is shown by its text. -/
inductive Ty where
  | int : Ty
  | float : Ty
  | bool : Ty
  | void : Ty
  | any : Ty
  | array (element : Ty) (size : Value) : Ty
  | pointer (target : Ty) : Ty
  | reference (target : Ty) : Ty
  | foreign (value : Value) : Ty
  deriving DecidableEq, Repr, Inhabited

namespace Ty

def spelling : Ty → String
  | .int => "int"
  | .float => "float"
  | .bool => "bool"
  | .void => "void"
  | .any => "any"
  | .array element size => element.spelling ++ "[" ++ size.text ++ "]"
  | .pointer target => target.spelling ++ "*"
  | .reference target => target.spelling ++ "&"
  | .foreign value => value.text

def phrase : Ty → String
  | .int => "integer"
  | .float => "float"
  | .bool => "boolean"
  | .void => "void"
  | .any => "value"
  | .array element _ => "array of " ++ element.phrase
  | .pointer target => "pointer to " ++ target.phrase
  | .reference target => "reference to " ++ target.phrase
  | .foreign value => value.text

def shown : Ty → String
  | .int => "<Type.INT: 'int'>"
  | .float => "<Type.FLOAT: 'float'>"
  | .bool => "<Type.BOOL: 'bool'>"
  | .void => "<Type.VOID: 'void'>"
  | .any => "<Type.ANY: 'any'>"
  | .array element size =>
    "ArrayType(element=" ++ element.shown ++ ", size=" ++ size.quoted ++ ")"
  | .pointer target => "PointerType(target=" ++ target.shown ++ ")"
  | .reference target => "ReferenceType(target=" ++ target.shown ++ ")"
  | .foreign value => value.quoted

def titled : Ty → String
  | .int => "Type.INT"
  | .float => "Type.FLOAT"
  | .bool => "Type.BOOL"
  | .void => "Type.VOID"
  | .any => "Type.ANY"
  | .foreign value => value.text
  | t => t.shown

def present : Ty → Bool
  | .foreign value => value.truthy
  | _ => true

def given? : Ty → Option Ty
  | .foreign .null => none
  | t => some t

/-- No part of the type is foreign, and every size is a text. -/
def native : Ty → Bool
  | .array element (.string _) => element.native
  | .array _ _ => false
  | .pointer target => target.native
  | .reference target => target.native
  | .foreign _ => false
  | _ => true

def alike : Ty → Ty → Bool
  | .array a m, .array b n => a.alike b && m.alike n
  | .pointer a, .pointer b => a.alike b
  | .reference a, .reference b => a.alike b
  | .foreign a, .foreign b => a.alike b
  | a, b => a = b

/-- A foreign type that is no number agrees with no type, not even with itself. -/
def isNaN : Ty → Bool
  | .foreign (.float x) => x.isNaN
  | _ => false

/-- Whether a value of the source type is one of the target type as it is. -/
def agrees (target source : Ty) : Bool := target.alike source && !target.isNaN

def isError (t : Ty) : Bool := t = .any

def canCoerce (target source : Ty) : Bool := target = .float && source = .int

def isAssignable (target source : Ty) : Bool := target.agrees source || canCoerce target source

@[simp] theorem isError_iff (t : Ty) : t.isError = true ↔ t = .any := by simp [isError]

@[simp] theorem canCoerce_iff (target source : Ty) :
    canCoerce target source = true ↔ target = .float ∧ source = .int := by simp [canCoerce]

theorem alike_iff {target : Ty} (h : target.native) (source : Ty) :
    target.alike source = true ↔ target = source := by
  induction target generalizing source with
  | array element size ih =>
    cases size with
    | string s =>
      cases source with
      | array b n => simp [alike, Value.alike_string, ih h]
      | _ => simp [alike]
    | _ => cases h
  | pointer target ih =>
    cases source with
    | pointer b => simp [alike, ih h]
    | _ => simp [alike]
  | reference target ih =>
    cases source with
    | reference b => simp [alike, ih h]
    | _ => simp [alike]
  | foreign value => cases h
  | _ => cases source <;> simp [alike]

theorem isNaN_eq_false {t : Ty} (h : t.native) : t.isNaN = false := by
  cases t <;> simp_all [isNaN, native]

theorem agrees_iff {target : Ty} (h : target.native) (source : Ty) :
    target.agrees source = true ↔ target = source := by
  simp [agrees, alike_iff h, isNaN_eq_false h]

theorem isAssignable_iff {target : Ty} (h : target.native) (source : Ty) :
    isAssignable target source = true ↔ target = source ∨ (target = .float ∧ source = .int) := by
  simp [isAssignable, agrees_iff h]

def names : List (String × Ty) :=
  [("int", .int), ("float", .float), ("bool", .bool), ("void", .void)]

def ofName? (name : String) : Option Ty := names.lookup (Text.lower (Text.stripped name))

end Ty
end Treewright
