import Treewright.Action.Basic
set_option autoImplicit false

namespace Treewright

inductive Kind where
  | flawed
  | declaration
  | arrayDecl
  | variable
  | constant
  | operation
  | paren
  | cast
  | assign
  | block
  | conditional
  | loop
  | function
  | ret
  | call
  | access
  | address
  | reference
  | nop
  deriving DecidableEq, Repr, Inhabited

/-- Where an action stands: at the top of a program, among the lines of a scope, in the header of a
loop, where a value is needed, or as the size of an array. -/
inductive Position where
  | item
  | statement
  | header
  | expression
  | size
  deriving DecidableEq, Repr, Inhabited

abbrev Policy := Position → Kind → Prop

def Ty.isWritten : Ty → Bool
  | .int | .float | .bool | .void => true
  | _ => false

theorem Ty.isWritten_of_ofName? {name : String} {type : Ty} (h : Ty.ofName? name = some type) :
    type.isWritten = true := by
  unfold Ty.ofName? at h
  generalize Text.lower (Text.stripped name) = word at h
  obtain ⟨before, after, heq, -⟩ := List.lookup_eq_some_iff.mp h
  have hm : (word, type) ∈ Ty.names := by simp [heq]
  simp only [Ty.names, List.mem_cons, Prod.mk.injEq, List.not_mem_nil, or_false] at hm
  rcases hm with ⟨-, rfl⟩ | ⟨-, rfl⟩ | ⟨-, rfl⟩ | ⟨-, rfl⟩ <;> rfl

theorem Ty.native_of_isWritten {t : Ty} (h : t.isWritten = true) : t.native = true := by
  cases t <;> simp_all [isWritten, native]

theorem Ty.ne_any_of_isWritten {t : Ty} (h : t.isWritten = true) : t ≠ .any := by
  rintro rfl
  simp [isWritten] at h

namespace Action

/-- A line before an action leaves it of its kind. -/
def kind : Action → Kind
  | .faulty _ _ => .flawed
  | .lined _ action => action.kind
  | .declaration _ _ _ _ => .declaration
  | .arrayDecl _ _ _ | .sizedArray _ _ _ => .arrayDecl
  | .variable _ => .variable
  | .constant _ _ => .constant
  | .operation _ _ => .operation
  | .paren _ => .paren
  | .cast _ _ => .cast
  | .assign _ _ => .assign
  | .block _ => .block
  | .conditional _ _ _ => .conditional
  | .loop _ _ _ _ => .loop
  | .function _ _ _ _ => .function
  | .ret _ => .ret
  | .call _ _ => .call
  | .access _ _ => .access
  | .address _ => .address
  | .reference _ => .reference
  | .nop => .nop

/-- The actions right inside an action, each with its position. -/
def parts : Action → List (Position × Action)
  | .faulty before _ => before.map fun a => (.item, a)
  | .lined _ action => [(.item, action)]
  | .declaration _ _ _ bindings =>
    bindings.flatMap fun b => b.2.toList.map fun a => (.expression, a)
  | .sizedArray _ _ size => [(.size, size)]
  | .operation _ items | .call _ items => items.map fun a => (.expression, a)
  | .paren a | .cast _ a | .access _ a | .address a | .reference a => [(.expression, a)]
  | .assign target value => [(.expression, target), (.expression, value)]
  | .block lines => lines.map fun a => (.statement, a)
  | .conditional condition accepted rejected =>
    (.expression, condition) :: (accepted ++ rejected.getD []).map fun a => (.statement, a)
  | .loop init test update body =>
    (.expression, test) :: (init.toList ++ update.toList).map (fun a => (.header, a)) ++
      body.map fun a => (.statement, a)
  | .function _ _ _ body => (body.getD []).map fun a => (.statement, a)
  | .ret operand => operand.toList.map fun a => (.expression, a)
  | .arrayDecl _ _ _ | .variable _ | .constant _ _ | .nop => []

/-- What an action promises of itself, whatever it holds: its types are written ones, and an
operation has operands and an operator that stands between them. -/
def Proper : Action → Prop
  | .declaration type _ _ _ | .arrayDecl type _ _ | .sizedArray type _ _ | .constant type _
  | .cast type _ => type.isWritten = true
  | .operation op items => op.isReserved = false ∧ items ≠ []
  | .function returns _ params _ =>
    returns.isWritten = true ∧ ∀ p ∈ params, p.1.isWritten = true
  | _ => True

/-- Whether only the line is said before another action. -/
def isLined : Action → Bool
  | .lined _ _ => true
  | _ => false

/-- The action is proper and of an allowed kind, and so is every action within it. A line in front
of it makes no difference. -/
inductive Fits (allowed : Policy) : Position → Action → Prop where
  | lined {position : Position} {action : Action} (line : Int) (h : Fits allowed position action) :
      Fits allowed position (.lined line action)
  | intro {position : Position} {action : Action} (unlined : action.isLined = false)
      (here : allowed position action.kind) (proper : action.Proper)
      (inside : ∀ part ∈ action.parts, Fits allowed part.1 part.2) : Fits allowed position action

inductive Says (line : Int) : Action → Prop where
  | here (action : Action) : Says line (.lined line action)
  | inside {action : Action} {part : Position × Action} (hp : part ∈ action.parts)
      (h : Says line part.2) : Says line action

theorem Says.lined {line : Int} {action : Action} (h : action.Says line) (line' : Int) :
    (Action.lined line' action).Says line := by
  have hp : (Position.item, action) ∈ (Action.lined line' action).parts := by simp [parts]
  exact .inside hp h

def WellFormed (action : Action) : Prop := action.Fits (fun _ _ => True) .item

theorem Fits.allowed {allowed : Policy} {position : Position} {action : Action}
    (h : action.Fits allowed position) : allowed position action.kind := by
  induction h with
  | lined _ _ ih => exact ih
  | intro _ here _ _ => exact here

theorem Fits.imp {allowed allowed' : Policy} {position position' : Position} {action : Action}
    (h : action.Fits allowed position)
    (hkind : allowed position action.kind → allowed' position' action.kind)
    (himp : ∀ p k, allowed p k → allowed' p k) : action.Fits allowed' position' := by
  induction h generalizing position' with
  | lined line _ ih => exact .lined line (ih hkind)
  | intro unlined here proper inside ih =>
    exact .intro unlined (hkind here) proper fun part hp => ih part hp (himp _ _)

theorem Fits.wellFormed {allowed : Policy} {position : Position} {action : Action}
    (h : action.Fits allowed position) : action.WellFormed :=
  h.imp (fun _ => trivial) fun _ _ _ => trivial

theorem WellFormed.intro {action : Action} (unlined : action.isLined = false)
    (proper : action.Proper) (inside : ∀ part ∈ action.parts, part.2.WellFormed) :
    action.WellFormed :=
  Fits.intro unlined trivial proper fun part hp =>
    (inside part hp).imp (fun _ => trivial) fun _ _ _ => trivial

def opensScope : Action → Bool
  | .block _ | .loop _ _ _ _ => true
  | _ => false

/-- The actions that are built first, in the same scope, where one check does all the rest. -/
def operands? : Action → Option (List Action)
  | .arrayDecl _ _ _ | .variable _ | .constant _ _ | .nop => some []
  | .operation _ [] => none
  | .operation _ (item :: items) => some (item :: items)
  | .call _ items => some items
  | .paren a | .cast _ a | .access _ a | .address a | .reference a => some [a]
  | .assign target value => some [target, value]
  | .ret operand => some operand.toList
  | _ => none

theorem parts_of_operands? {action : Action} {items : List Action}
    (h : action.operands? = some items) : action.parts = items.map fun a => (.expression, a) := by
  unfold operands? at h
  split at h <;> simp_all [parts]
  all_goals subst h; rfl

theorem mem_parts_of_operands? {action : Action} {items : List Action}
    (h : action.operands? = some items) {a : Action} (ha : a ∈ items) :
    (Position.expression, a) ∈ action.parts := by
  rw [parts_of_operands? h]
  exact List.mem_map.mpr ⟨a, ha, rfl⟩

theorem operands?_operation {op : Op} {items : List Action} (h : (operation op items).Proper) :
    (operation op items).operands? = some items := by
  obtain ⟨-, hne⟩ := h
  cases items with
  | nil => contradiction
  | cons a as => rfl

theorem mem_parts_binding {type : Ty} {kind symbolType : String}
    {bindings : List (Name × Option Action)} {b : Name × Option Action} {a : Action}
    (hb : b ∈ bindings) (ha : a ∈ b.2.toList) :
    (Position.expression, a) ∈ (declaration type kind symbolType bindings).parts :=
  List.mem_flatMap.mpr ⟨b, hb, List.mem_map_of_mem ha⟩

theorem mem_parts_header {init update : Option Action} {test a : Action} {body : List Action}
    (ha : a ∈ init.toList ++ update.toList) :
    (Position.header, a) ∈ (loop init test update body).parts :=
  List.mem_append_left _ (List.mem_cons_of_mem _ (List.mem_map_of_mem ha))

/-- The names, values and sizes that an action itself spells out. -/
def spellings : Action → List String
  | .declaration _ _ _ bindings => bindings.map (·.1.written)
  | .arrayDecl _ name size => [name.written, size]
  | .sizedArray _ name _ | .variable name | .call name _ | .access name _ => [name.written]
  | .constant _ value => [value]
  | .function _ name params _ => name.written :: params.map (·.2.written)
  | _ => []

/-- Whatever the action and the actions within it spell out is good. -/
inductive Spells (good : String → Bool) : Action → Prop where
  | intro {action : Action} (own : ∀ s ∈ action.spellings, good s = true)
      (inside : ∀ part ∈ action.parts, Spells good part.2) : Spells good action

namespace Spells

variable {good : String → Bool} {action : Action}

theorem own (h : action.Spells good) : ∀ s ∈ action.spellings, good s = true := by
  cases h with
  | intro own _ => exact own

theorem inside (h : action.Spells good) : ∀ part ∈ action.parts, part.2.Spells good := by
  cases h with
  | intro _ inside => exact inside

end Spells

def spells (good : String → Bool) : Nat → Action → Bool
  | 0, _ => false
  | depth + 1, action =>
    action.spellings.all good && action.parts.all fun part => part.2.spells good depth

theorem Spells.of_check {good : String → Bool} {depth : Nat} {action : Action}
    (h : action.spells good depth = true) : action.Spells good := by
  induction depth generalizing action with
  | zero => cases h
  | succ depth ih =>
    rw [spells, Bool.and_eq_true, List.all_eq_true, List.all_eq_true] at h
    exact .intro h.1 fun part hp => ih (h.2 part hp)

end Action
end Treewright
