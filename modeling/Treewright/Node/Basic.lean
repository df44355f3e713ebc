import Treewright.Check
set_option autoImplicit false

/-!
Syntax tree nodes. `Form` is the shape of a node over its children and holds what the node settled
when it was built; `Node` closes it under itself. A node that failed keeps its place in the tree.
-/

namespace Treewright

/-- What every node carries: the line it was built on, an order to be shown as the last child or
not, and the number under which a tree shows it. -/
structure Mark where
  line : Int := 0
  last : Option Bool := none
  id : Option Int := none
  deriving DecidableEq, Repr, Inhabited

/-- Nodes without a form of their own: they have a place and no code. -/
inductive Bare where
  | node
  | expression
  | statement
  | assignable
  deriving DecidableEq, Repr, Inhabited

inductive Style where
  | plain
  | comparison
  | connective
  | paren
  | negation
  | cast (target : Ty)
  deriving DecidableEq, Repr, Inhabited

/-- What stands before a place to make an address or a reference of it. -/
inductive Wrap where
  | plain
  | address
  | reference
  deriving DecidableEq, Repr, Inhabited

inductive Form (ν : Type) where
  | bare (kind : Bare)
  | nop
  | constant (type : Ty) (value : String)
  | variable (name : Name) (type : Ty) (failed : Bool)
  | binding (type : Ty) (name : Name) (value : Option ν) (failed : Bool)
  | declaration (type : Ty) (kind symbolType : String) (bindings : List ν)
  | arrayDecl (type : Ty) (name : Name) (size : String) (failed : Bool)
  | operation (style : Style) (op : Op) (operands : List ν) (expected : Ty) (result : Option Ty)
      (coerced : List Nat) (failed : Bool)
  | assignment (target value : ν) (coerced failed : Bool)
  | block (title : String) (lines : List ν)
  | conditional (condition accepted : ν) (rejected : Option ν) (failed : Bool)
  | loop (init : Option ν) (test : ν) (update : Option ν) (body : ν) (failed : Bool)
  | signature (params : List (Ty × Value))
  | function (returns : Ty) (name : Value) (params body : Option ν) (failed : Bool)
  | ret (operand : Option ν)
  | arguments (items : List ν)
  | call (name : Name) (args : ν) (type : Ty) (coerced : List Nat) (failed : Bool)
  | access (name : Name) (index : ν) (type : Ty) (failed : Bool)
  | wrapper (wrap : Wrap) (target : ν) (type : Ty) (failed : Bool)
  deriving Inhabited, Repr

inductive Node where
  | mk (mark : Mark) (form : Form Node)
  deriving Inhabited, Repr

namespace Form

variable {ν μ : Type}

/-- The children of a node in the order in which a tree shows them. -/
def edges : Form ν → List ν
  | .binding _ _ value _ => value.toList
  | .declaration _ _ _ bindings => bindings
  | .operation _ _ operands _ _ _ _ => operands
  | .assignment target value _ _ => [target, value]
  | .block _ lines => lines
  | .conditional condition accepted rejected _ => condition :: accepted :: rejected.toList
  | .loop init test update body _ => init.toList ++ test :: (update.toList ++ [body])
  | .function _ _ params body _ => params.toList ++ body.toList
  | .ret operand => operand.toList
  | .arguments items => items
  | .call _ args _ _ _ => [args]
  | .access _ index _ _ => [index]
  | .wrapper _ target _ _ => [target]
  | .bare _ | .nop | .constant _ _ | .variable _ _ _ | .arrayDecl _ _ _ _ | .signature _ => []

def map (f : ν → μ) : Form ν → Form μ
  | .bare kind => .bare kind
  | .nop => .nop
  | .constant type value => .constant type value
  | .variable name type failed => .variable name type failed
  | .binding type name value failed => .binding type name (value.map f) failed
  | .declaration type kind symbolType bindings =>
    .declaration type kind symbolType (bindings.map f)
  | .arrayDecl type name size failed => .arrayDecl type name size failed
  | .operation style op operands expected result coerced failed =>
    .operation style op (operands.map f) expected result coerced failed
  | .assignment target value coerced failed => .assignment (f target) (f value) coerced failed
  | .block title lines => .block title (lines.map f)
  | .conditional condition accepted rejected failed =>
    .conditional (f condition) (f accepted) (rejected.map f) failed
  | .loop init test update body failed =>
    .loop (init.map f) (f test) (update.map f) (f body) failed
  | .signature params => .signature params
  | .function returns name params body failed =>
    .function returns name (params.map f) (body.map f) failed
  | .ret operand => .ret (operand.map f)
  | .arguments items => .arguments (items.map f)
  | .call name args type coerced failed => .call name (f args) type coerced failed
  | .access name index type failed => .access name (f index) type failed
  | .wrapper wrap target type failed => .wrapper wrap (f target) type failed

theorem edges_map (f : ν → μ) (form : Form ν) : (form.map f).edges = form.edges.map f := by
  cases form with
  | binding _ _ value _ => cases value <;> rfl
  | conditional _ _ rejected _ => cases rejected <;> rfl
  | loop init _ update _ _ => cases init <;> cases update <;> rfl
  | function _ _ params body _ => cases params <;> cases body <;> rfl
  | ret operand => cases operand <;> rfl
  | _ => rfl

end Form

/-- The type of an operation: none after a failure, a cast's target, the type set from outside, or
the type of the operands. -/
def operationType (style : Style) (expected : Ty) (result : Option Ty) (failed : Bool) : Ty :=
  match style with
  | .cast target => target
  | _ => if failed then .any else result.getD expected

namespace Node

def mark : Node → Mark
  | .mk mark _ => mark

def form : Node → Form Node
  | .mk _ form => form

def line (n : Node) : Int := n.mark.line

def edges (n : Node) : List Node := n.form.edges

def type : Node → Ty
  | .mk _ (.bare .statement) => .void
  | .mk _ (.bare _) => .any
  | .mk _ (.constant type _) => type
  | .mk _ (.variable _ type _) => type
  | .mk _ (.binding type _ _ _) => type
  | .mk _ (.declaration type _ _ _) => type
  | .mk _ (.arrayDecl type _ _ _) => type
  | .mk _ (.operation style _ _ expected result _ failed) =>
    operationType style expected result failed
  | .mk _ (.function returns _ _ _ _) => returns
  | .mk _ (.ret (some operand)) => operand.type
  | .mk _ (.call _ _ type _ _) => type
  | .mk _ (.access _ _ type _) => type
  | .mk _ (.wrapper _ _ type _) => type
  | .mk _ _ => .void

def untyped : Node → Bool
  | .mk _ (.bare kind) => kind ≠ .statement
  | .mk _ (.ret (some operand)) => operand.untyped
  | .mk _ _ => false

mutual
def error : Node → Bool
  | .mk _ (.variable _ _ failed) => failed
  | .mk _ (.binding _ _ _ failed) => failed
  | .mk _ (.declaration _ _ _ bindings) => anyError bindings
  | .mk _ (.arrayDecl _ _ _ failed) => failed
  | .mk _ (.operation _ _ _ _ _ _ failed) => failed
  | .mk _ (.assignment _ _ _ failed) => failed
  | .mk _ (.block _ lines) => anyError lines
  | .mk _ (.conditional _ accepted rejected failed) =>
    failed || accepted.error || optionError rejected
  | .mk _ (.loop init test update body failed) =>
    failed || optionError init || test.error || optionError update || body.error
  | .mk _ (.function _ _ _ body failed) => failed || optionError body
  | .mk _ (.ret operand) => optionError operand
  | .mk _ (.arguments items) => anyError items
  | .mk _ (.call _ _ _ _ failed) => failed
  | .mk _ (.access _ _ _ failed) => failed
  | .mk _ (.wrapper _ _ _ failed) => failed
  | .mk _ (.bare _) | .mk _ .nop | .mk _ (.constant _ _) | .mk _ (.signature _) => false

def anyError : List Node → Bool
  | [] => false
  | n :: ns => n.error || anyError ns

def optionError : Option Node → Bool
  | none => false
  | some n => n.error
end

theorem anyError_eq_any (ns : List Node) : anyError ns = ns.any (·.error) := by
  induction ns with
  | nil => rfl
  | cons n ns ih => simp [anyError, ih]

def operand (n : Node) : Operand := ⟨n.type, n.error⟩

mutual
/-- Whether the node renders nothing at all: a no-op, or a block of such nodes. -/
def isEmpty : Node → Bool
  | .mk _ .nop => true
  | .mk _ (.block _ lines) => allEmpty lines
  | .mk _ _ => false

def allEmpty : List Node → Bool
  | [] => true
  | n :: ns => n.isEmpty && allEmpty ns
end

theorem allEmpty_eq_all (ns : List Node) : allEmpty ns = ns.all (·.isEmpty) := by
  induction ns with
  | nil => rfl
  | cons n ns ih => simp [allEmpty, ih]

def labelled : Node → Bool
  | .mk _ (.bare _) => false
  | _ => true

end Node

def errorSuffix (failed : Bool) : String := if failed then " (error)" else ""

def paramsText (params : List (Ty × Value)) : String :=
  ", ".intercalate (params.map fun p => p.1.spelling ++ " " ++ p.2.text)

def Wrap.label : Wrap → String
  | .plain => ""
  | .address => "Address"
  | .reference => "Reference"

def Wrap.glyph : Wrap → String
  | .plain => ""
  | .address => "&"
  | .reference => "*"

def Node.label (n : Node) : String :=
  match n.form with
  | .bare _ => ""
  | .nop => "No-op"
  | .constant type value => "LITERAL : " ++ value ++ " : " ++ type.spelling
  | .variable name type failed =>
    "Identifier: " ++ name.written ++ " : " ++ type.spelling ++ errorSuffix failed
  | .binding type name _ failed =>
    "Variable Declaration: " ++ name.written ++ " : " ++ type.spelling ++ errorSuffix failed
  | .declaration type kind _ bindings =>
    let count := if 1 < bindings.length then s!" x{bindings.length}" else ""
    "Declaration (" ++ kind ++ ") : " ++ type.spelling ++ count ++ errorSuffix n.error
  | .arrayDecl type name size failed =>
    "Array Declaration: " ++ name.written ++ " : " ++ (Ty.array type (.string size)).spelling ++
      errorSuffix failed
  | .operation _ op _ _ _ _ failed =>
    "Operation: " ++ op.tag ++ " : " ++ n.type.spelling ++ errorSuffix failed
  | .assignment _ _ _ failed => "Assignment" ++ errorSuffix failed
  | .block title _ => title
  | .conditional _ _ _ failed => "If Statement" ++ errorSuffix failed
  | .loop _ _ _ _ failed => "For Loop" ++ errorSuffix failed
  | .signature params => "Parameters: (" ++ paramsText params ++ ")"
  | .function returns name _ body failed =>
    let kind := if body.isSome then "Function Definition" else "Function Declaration"
    kind ++ ": " ++ name.text ++ " : " ++ returns.spelling ++ errorSuffix failed
  | .ret _ => "Return Statement"
  | .arguments items => if items.length = 1 then "Argument" else "Arguments"
  | .call name _ type _ failed =>
    "Function Call: " ++ name.written ++ " : " ++ type.spelling ++ errorSuffix failed
  | .access name _ type failed =>
    "Array Access: " ++ name.written ++ " : " ++ type.spelling ++ errorSuffix failed
  | .wrapper wrap _ type failed => wrap.label ++ " : " ++ type.phrase ++ errorSuffix failed

end Treewright
