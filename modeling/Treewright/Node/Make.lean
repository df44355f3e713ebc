import Treewright.Context
import Treewright.Node.Basic
set_option autoImplicit false

namespace Treewright

namespace Form

variable {ν : Type}

def ofVariable (name : Name) (c : Context) : Form ν × Context :=
  let (type, verdict) := checkVariable c.table name
  (.variable name type verdict.failed, c.report verdict.problems)

/-- The declaration comes first, and counts even when the initial value does not fit. -/
def ofBinding (type : Ty) (name : Name) (value : Option (ν × Operand)) (c : Context) :
    Form ν × Context :=
  let (declared, c) := c.declare name type c.line
  let verdict : Verdict := (value.map fun v => checkInitial type v.2).getD ⟨false, []⟩
  (.binding type name (value.map (·.1)) (!declared || verdict.failed), c.report verdict.problems)

def ofArrayDecl (type : Ty) (name : Name) (size : String) (c : Context) : Form ν × Context :=
  let (declared, c) := c.declare name (.array type (.string size)) c.line
  (.arrayDecl type name size (!declared), c)

/-- An operation over checked operands; a comparison is boolean whatever its operands are. -/
def ofFold (style : Style) (op : Op) (operands : List ν) (fold : Fold) (c : Context) :
    Form ν × Context :=
  let result : Option Ty :=
    match style with
    | .comparison => some .bool
    | .cast target => some target
    | .plain | .connective | .paren | .negation => none
  (.operation style op operands fold.expected result fold.coerced fold.failed,
    c.report (fold.problems op))

/-- The type that a style asks of its operands, unless one is given. -/
def operandType (style : Style) (given : Option Ty) : Option Ty :=
  match style with
  | .connective => some .bool
  | _ => given

def ofOperation (style : Style) (op : Op) (given : Option Ty) (operands : List (ν × Operand))
    (c : Context) : Form ν × Context :=
  let fold :=
    match style, operands with
    | .cast _, [operand] => checkCast operand.2
    | _, _ => checkOperands (operandType style given) (operands.map (·.2))
  ofFold style op (operands.map (·.1)) fold c

def ofAssignment (target value : ν × Operand) (c : Context) : Form ν × Context :=
  let (coerced, verdict) := checkAssignment target.2 value.2
  (.assignment target.1 value.1 coerced verdict.failed, c.report verdict.problems)

def ofConditional (condition : ν × Operand) (accepted : ν) (rejected : Option ν) (c : Context) :
    Form ν × Context :=
  let verdict := checkTest condition.2
  (.conditional condition.1 accepted rejected verdict.failed, c.report verdict.problems)

def ofLoop (init : Option ν) (test : ν × Operand) (update : Option ν) (body : ν) (c : Context) :
    Form ν × Context :=
  let verdict := checkTest test.2
  (.loop init test.1 update body verdict.failed, c.report verdict.problems)

def ofCall (name : Name) (args : ν) (operands : List Operand) (c : Context) : Form ν × Context :=
  let (type, verdict) := checkCall c.reportAll c.table name operands
  (.call name args type verdict.coerced verdict.failed, c.report verdict.problems)

def ofAccess (name : Name) (index : ν × Operand) (c : Context) : Form ν × Context :=
  let (type, array) := checkArray c.table name
  let verdict := checkIndex index.2
  (.access name index.1 type (array.failed || verdict.failed),
    c.report (array.problems ++ verdict.problems))

def wrapType (wrap : Wrap) (type : Ty) : Ty :=
  if type.isError then .any
  else
    match wrap with
    | .plain => type
    | .address => .pointer type
    | .reference => .reference type

def ofWrapper (wrap : Wrap) (target : ν × Operand) : Form ν :=
  .wrapper wrap target.1 (wrapType wrap target.2.type) target.2.failed

end Form

def styleOf (op : Op) (count : Nat) : Style × Op :=
  if count = 1 && (op = .minus || op = .unaryMinus) then (.negation, .unaryMinus)
  else if op.isComparison then (.comparison, op)
  else if op.isConnective then (.connective, op)
  else (.plain, op)

def Node.seen (n : Node) : Node × Operand := (n, n.operand)

end Treewright
