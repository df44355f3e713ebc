import Treewright.Decimal.Shortest
import Treewright.Text.Digits
import Treewright.Text.Quoted
set_option autoImplicit false

namespace Treewright

open Decimal

inductive Value where
  | null : Value
  | bool : Bool → Value
  | int : Int → Value
  | float : Binary64 → Value
  | string : String → Value
  | list : List Value → Value
  | object : List (String × Value) → Value
  deriving Inhabited, Repr

namespace Value

mutual
def decEq : (a b : Value) → Decidable (a = b)
  | .null, .null => isTrue rfl
  | .bool a, .bool b => decidable_of_iff (a = b) (by simp)
  | .int a, .int b => decidable_of_iff (a = b) (by simp)
  | .float a, .float b => decidable_of_iff (a = b) (by simp)
  | .string a, .string b => decidable_of_iff (a = b) (by simp)
  | .list as, .list bs =>
    match decEqList as bs with
    | isTrue h => isTrue (by rw [h])
    | isFalse h => isFalse (by simpa using h)
  | .object as, .object bs =>
    match decEqFields as bs with
    | isTrue h => isTrue (by rw [h])
    | isFalse h => isFalse (by simpa using h)
  | .null, .bool _ | .null, .int _ | .null, .float _ | .null, .string _ | .null, .list _
  | .null, .object _ | .bool _, .null | .bool _, .int _ | .bool _, .float _ | .bool _, .string _
  | .bool _, .list _ | .bool _, .object _ | .int _, .null | .int _, .bool _ | .int _, .float _
  | .int _, .string _ | .int _, .list _ | .int _, .object _ | .float _, .null | .float _, .bool _
  | .float _, .int _ | .float _, .string _ | .float _, .list _ | .float _, .object _
  | .string _, .null | .string _, .bool _ | .string _, .int _ | .string _, .float _
  | .string _, .list _ | .string _, .object _ | .list _, .null | .list _, .bool _ | .list _, .int _
  | .list _, .float _ | .list _, .string _ | .list _, .object _ | .object _, .null
  | .object _, .bool _ | .object _, .int _ | .object _, .float _ | .object _, .string _
  | .object _, .list _ => isFalse (by simp)

def decEqList : (as bs : List Value) → Decidable (as = bs)
  | [], [] => isTrue rfl
  | [], _ :: _ | _ :: _, [] => isFalse (by simp)
  | a :: as, b :: bs =>
    match decEq a b, decEqList as bs with
    | isTrue h, isTrue hs => isTrue (by rw [h, hs])
    | isFalse h, _ => isFalse (by simp [h])
    | _, isFalse hs => isFalse (by simp [hs])

def decEqFields : (as bs : List (String × Value)) → Decidable (as = bs)
  | [], [] => isTrue rfl
  | [], _ :: _ | _ :: _, [] => isFalse (by simp)
  | (k, a) :: as, (l, b) :: bs =>
    match decEq a b, decEqFields as bs with
    | isTrue h, isTrue hs => decidable_of_iff (k = l) (by simp [h, hs])
    | isFalse h, _ => isFalse (by simp [h])
    | _, isFalse hs => isFalse (by simp [hs])
end

instance : DecidableEq Value := decEq

def kindName : Value → String
  | .null => "NoneType"
  | .bool _ => "bool"
  | .int _ => "int"
  | .float _ => "float"
  | .string _ => "str"
  | .list _ => "list"
  | .object _ => "dict"

def truthy : Value → Bool
  | .null => false
  | .bool b => b
  | .int n => n ≠ 0
  | .float x => !x.isZero
  | .string s => s ≠ ""
  | .list items => !items.isEmpty
  | .object fields => !fields.isEmpty

mutual
/-- Whether the value has a text: a whole number of more than `Text.digitLimit` digits has none, and
neither has what holds one. -/
def writable : Value → Bool
  | .int n => Text.withinLimit n.natAbs
  | .list items => writableList items
  | .object fields => writableFields fields
  | .null | .bool _ | .float _ | .string _ => true

def writableList : List Value → Bool
  | [] => true
  | v :: vs => v.writable && writableList vs

def writableFields : List (String × Value) → Bool
  | [] => true
  | (_, v) :: fs => v.writable && writableFields fs
end

mutual
/-- The value with texts in quotes. Only that of a `writable` value is ever asked for. -/
def quoted : Value → String
  | .null => "None"
  | .bool b => if b then "True" else "False"
  | .int n => toString n
  | .float x => x.text
  | .string s => Text.quote s
  | .list items => "[" ++ ", ".intercalate (quotedList items) ++ "]"
  | .object fields => "\x7b" ++ ", ".intercalate (quotedFields fields) ++ "\x7d"

def quotedList : List Value → List String
  | [] => []
  | v :: vs => v.quoted :: quotedList vs

def quotedFields : List (String × Value) → List String
  | [] => []
  | (k, v) :: fs => (Text.quote k ++ ": " ++ v.quoted) :: quotedFields fs
end

/-- The value as a text: a text is itself, all else is shown as inside quotes. -/
def text : Value → String
  | .string s => s
  | v => v.quoted

end Value

def fieldOf? {α : Type} (key : String) : List (String × α) → Option α
  | [] => none
  | (k, v) :: fs => if k = key then some v else fieldOf? key fs

def setField {α : Type} (key : String) (value : α) : List (String × α) → List (String × α)
  | [] => [(key, value)]
  | (k, v) :: fs => if k = key then (k, value) :: fs else (k, v) :: setField key value fs

@[simp] theorem fieldOf?_nil {α : Type} (key : String) :
    fieldOf? key ([] : List (String × α)) = none := rfl

theorem fieldOf?_setField_self {α : Type} (key : String) (value : α) (fs : List (String × α)) :
    fieldOf? key (setField key value fs) = some value := by
  induction fs with
  | nil => simp [setField, fieldOf?]
  | cons f fs ih => by_cases h : f.1 = key <;> simp [setField, fieldOf?, h, ih]

theorem fieldOf?_setField_of_ne {α : Type} {key other : String} (h : other ≠ key) (value : α)
    (fs : List (String × α)) : fieldOf? other (setField key value fs) = fieldOf? other fs := by
  induction fs with
  | nil => simp [setField, fieldOf?, Ne.symm h]
  | cons f fs ih =>
    by_cases hk : f.1 = key
    · subst hk; simp [setField, fieldOf?, Ne.symm h]
    · by_cases ho : f.1 = other <;> simp [setField, fieldOf?, hk, ho, h, ih]

def Value.get? (key : String) : Value → Option Value
  | .object fields => fieldOf? key fields
  | _ => none

namespace Value

/-- The whole number that a value counts as: a truth value is zero or one. -/
def whole? : Value → Option Int
  | .bool b => some (if b then 1 else 0)
  | .int n => some n
  | .float x => x.whole?
  | _ => none

mutual
/-- Whether two values have the same contents: numbers count by their value and objects by their
fields in any order. -/
def alike : Value → Value → Bool
  | .list as, .list bs => alikeList as bs
  | .object as, .object bs => as.length = bs.length && alikeFields as bs
  | a, b =>
    match a.whole?, b.whole? with
    | some m, some n => m = n
    | _, _ => a = b

def alikeList : List Value → List Value → Bool
  | [], [] => true
  | a :: as, b :: bs => a.alike b && alikeList as bs
  | _, _ => false

def alikeFields : List (String × Value) → List (String × Value) → Bool
  | [], _ => true
  | (k, a) :: as, bs =>
    match fieldOf? k bs with
    | some b => a.alike b && alikeFields as bs
    | none => false
end

theorem alike_string (s : String) (v : Value) :
    (Value.string s).alike v = decide (Value.string s = v) := by
  cases v <;> rfl

end Value
end Treewright
