import Treewright.Name
import Treewright.Op
import Treewright.Ty
set_option autoImplicit false

namespace Treewright

/-- What is wrong with a document that should be an action. -/
inductive Flaw where
  | notAction (found : String)
  | unknownKind (kind : Value)
  | badLine (line : Value)
  | infiniteLine
  | notObject (key found : String)
  | missing (node key : String)
  | unknownType (name : String)
  | unknownOperator (name : String)
  | reservedOperator (op : Op)
  | noOperands (op : Op)
  | notStatements
  | badParameter (function : String)
  | notIterable (found : String)
  | notName (found : String)
  /-- A number that is too long to be written stands for a type, an operator or a parameter. -/
  | longWord
  /-- A number that is too long to be written stands elsewhere. -/
  | longNumber
  deriving DecidableEq, Repr, Inhabited

namespace Flaw

def message : Flaw → String
  | .notAction found => "Expected an action object, got " ++ found
  | .unknownKind kind => "Unknown node kind: " ++ kind.quoted
  | .badLine line => "Invalid line number: " ++ line.quoted
  | .infiniteLine => "cannot convert float infinity to integer"
  | .notObject key found => "Expected an object with '" ++ key ++ "', got " ++ found
  | .missing node key => "'" ++ node ++ "' action is missing '" ++ key ++ "'"
  | .unknownType name => "Unknown type name: " ++ Text.quote name
  | .unknownOperator name => "Unknown operator: " ++ Text.quote name
  | .reservedOperator op =>
    "Operator " ++ op.tag ++
      " is not an expression operator; use the 'assign', 'paren' or 'cast' node"
  | .noOperands op => "Operation " ++ op.tag ++ " needs at least one operand"
  | .notStatements => "Expected a list of statements"
  | .badParameter function => "Parameter of '" ++ function ++ "' must be a [type, name] pair"
  | .notIterable found => "'" ++ found ++ "' object is not iterable"
  | .notName found => "unhashable type: '" ++ found ++ "'"
  | .longWord | .longNumber =>
    s!"Exceeds the limit ({Text.digitLimit} digits) for integer string conversion; " ++
      "use sys.set_int_max_str_digits() to increase the limit"

/-- The families of flaws: most are reported as a malformed program, a value of a wrong kind, a line
out of range and a number with too many digits are not. -/
inductive Family where
  | build
  | kind
  | range
  | digits
  deriving DecidableEq, Repr, Inhabited

def family : Flaw → Family
  | .notIterable _ | .notName _ => .kind
  | .infiniteLine => .range
  | .longNumber => .digits
  | _ => .build

end Flaw

inductive Action where
  /-- Builds the actions before the flaw, drops their nodes, and stops. -/
  | faulty (before : List Action) (flaw : Flaw)
  | lined (line : Int) (action : Action)
  | declaration (type : Ty) (kind symbolType : String) (bindings : List (Name × Option Action))
  | arrayDecl (type : Ty) (name : Name) (size : String)
  /-- An array whose size is the code of another node. -/
  | sizedArray (type : Ty) (name : Name) (size : Action)
  | variable (name : Name)
  | constant (type : Ty) (value : String)
  | operation (op : Op) (operands : List Action)
  | paren (operand : Action)
  | cast (target : Ty) (operand : Action)
  | assign (target value : Action)
  | block (lines : List Action)
  | conditional (condition : Action) (accepted : List Action) (rejected : Option (List Action))
  | loop (init : Option Action) (test : Action) (update : Option Action) (body : List Action)
  | function (returns : Ty) (name : Name) (params : List (Ty × Name))
      (body : Option (List Action))
  | ret (operand : Option Action)
  | call (name : Name) (args : List Action)
  | access (name : Name) (index : Action)
  | address (operand : Action)
  | reference (operand : Action)
  | nop
  deriving Inhabited, Repr

end Treewright
