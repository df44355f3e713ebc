import Treewright.Table
set_option autoImplicit false

namespace Treewright

structure Operand where
  type : Ty
  failed : Bool
  deriving DecidableEq, Repr, Inhabited

/-- The child is beyond checking: it failed, or its type stands for a failure. -/
def Operand.spoiled (o : Operand) : Bool := o.failed || o.type.isError

/-- Whether a node fails, and the problems found. -/
structure Verdict where
  failed : Bool
  problems : List Problem := []
  deriving DecidableEq, Repr, Inhabited

/-- The running state over the operands of an operation: the type expected of the next one, the
positions to be widened to float, and the mismatch that ended the check. -/
structure Fold where
  expected : Ty
  coerced : List Nat := []
  failed : Bool := false
  mismatch : Option (Ty × Ty) := none
  deriving DecidableEq, Repr, Inhabited

namespace Fold

def reject (f : Fold) (expected actual : Ty) : Fold :=
  { f with failed := true, mismatch := some (expected, actual) }

/-- One more operand at position `index`. With `fixed` the expected type was given from outside and
is not widened. -/
def step (fixed : Bool) (f : Fold) (index : Nat) (o : Operand) : Fold :=
  if f.failed || o.failed then { f with failed := true }
  else if f.expected.isError || o.type.isError then f
  else if o.type = .void then f.reject (if f.expected = .void then .any else f.expected) .void
  else if f.expected.agrees o.type then f
  else if f.expected.canCoerce o.type then { f with coerced := f.coerced ++ [index] }
  else if !fixed && o.type.canCoerce f.expected then
    { f with coerced := List.range index, expected := o.type }
  else f.reject f.expected o.type

def run (fixed : Bool) (f : Fold) (index : Nat) : List Operand → Fold
  | [] => f
  | o :: os => run fixed (f.step fixed index o) (index + 1) os

def problems (f : Fold) (op : Op) : List Problem :=
  match f.mismatch with
  | some (expected, actual) => [.operands op expected actual]
  | none => []

end Fold

/-- The check of all operands, against a given type or against the first operand's. -/
def checkOperands (given : Option Ty) (operands : List Operand) : Fold :=
  let first := (operands.head?.map (·.type)).getD .any
  Fold.run given.isSome { expected := given.getD first } 0 operands

def checkCast (operand : Operand) : Fold := { expected := operand.type, failed := operand.failed }

def checkInitial (declared : Ty) (value : Operand) : Verdict :=
  if value.spoiled then ⟨true, []⟩
  else if declared.agrees value.type then ⟨false, []⟩
  else ⟨true, [.assignment declared value.type]⟩

def checkAssignment (target value : Operand) : Bool × Verdict :=
  if target.failed || value.failed then (false, ⟨true, []⟩)
  else if target.type.isAssignable value.type then
    (target.type.canCoerce value.type, ⟨false, []⟩)
  else (false, ⟨true, [.assignment target.type value.type]⟩)

def checkTest (condition : Operand) : Verdict :=
  if condition.spoiled then ⟨true, []⟩
  else if condition.type = .bool then ⟨false, []⟩
  else ⟨true, [.test condition.type]⟩

/-- What becomes of the arguments of a call: the positions to be widened, and the verdict. -/
structure Arguments where
  coerced : List Nat := []
  failed : Bool := false
  problems : List Problem := []
  deriving DecidableEq, Repr, Inhabited

/-- The arguments from position `index` on. Without `all` nothing is looked at after the first
mismatch. -/
def checkArguments (all : Bool) (name : Name) (index : Nat) : List Ty → List Operand → Arguments
  | param :: params, arg :: args =>
    let rest := checkArguments all name (index + 1) params args
    if arg.spoiled then { rest with failed := true }
    else if param.agrees arg.type then rest
    else if param.canCoerce arg.type then { rest with coerced := index :: rest.coerced }
    else
      let problem := Problem.param name param arg.type
      if all then { rest with failed := true, problems := problem :: rest.problems }
      else { failed := true, problems := [problem] }
  | _, _ => {}

/-- A call of an unknown function, or with a wrong number of arguments, has no type; any other has
the type that the function returns. -/
def checkCall (all : Bool) (table : Table) (name : Name) (args : List Operand) : Ty × Arguments :=
  match table.functionNamed name with
  | none => (.any, { failed := true, problems := [.undeclared name] })
  | some symbol =>
    let params := symbol.paramTypes
    if params.length ≠ args.length then
      (.any, { failed := true, problems := [.paramCount name params.length args.length] })
    else (symbol.returns?.getD .void, checkArguments all name 0 params args)

def checkVariable (table : Table) (name : Name) : Ty × Verdict :=
  match table.lookup name with
  | some type => (type, ⟨false, []⟩)
  | none => (.any, ⟨true, [.undeclared name]⟩)

/-- The name before an index must be that of an array; the access has the element type. -/
def checkArray (table : Table) (name : Name) : Ty × Verdict :=
  match table.lookup name with
  | none => (.any, ⟨true, [.undeclared name]⟩)
  | some (.array element _) => (element, ⟨false, []⟩)
  | some _ => (.any, ⟨true, [.notArray]⟩)

def checkIndex (index : Operand) : Verdict :=
  if index.spoiled then ⟨true, []⟩
  else if index.type = .int then ⟨false, []⟩
  else ⟨true, [.index .int index.type]⟩

def alikeAll : List Ty → List Ty → Bool
  | [], [] => true
  | a :: as, b :: bs => a.alike b && alikeAll as bs
  | _, _ => false

theorem alikeAll_iff {as : List Ty} (h : ∀ a ∈ as, a.native) (bs : List Ty) :
    alikeAll as bs = true ↔ as = bs := by
  induction as generalizing bs with
  | nil => cases bs <;> simp [alikeAll]
  | cons a as ih =>
    cases bs with
    | nil => simp [alikeAll]
    | cons b bs =>
      simp [alikeAll, Ty.alike_iff (h a (by simp)), ih fun x hx => h x (by simp [hx])]

/-- A function whose name is taken in the innermost scope may only repeat a declaration that has no
body yet and the same signature. -/
def repeatsDeclaration (table : Table) (name : Name) (params : List Ty) (returns : Option Ty) :
    Bool :=
  match table.functionNamed name with
  | none => false
  | some symbol =>
    !table.isDefined symbol && alikeAll symbol.paramTypes params &&
      match symbol.returns?, returns with
      | some old, some new => old.agrees new
      | old, new => old = new

end Treewright
