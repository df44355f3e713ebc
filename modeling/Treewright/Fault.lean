import Treewright.Action.Basic
import Treewright.Node.Render
import Treewright.Table
set_option autoImplicit false

namespace Treewright

inductive Fault where
  | flaw (flaw : Flaw)
  | misuse (misuse : Misuse)
  | noOperands (op : Op)
  /-- The code of a node was needed and cannot be had. -/
  | render (fault : RenderFault)
  /-- The type of a node was needed and there is none. -/
  | untyped
  /-- A wrapper of no kind was asked for its type. -/
  | unwrapped
  deriving DecidableEq, Repr, Inhabited

def Fault.message : Fault → String
  | .flaw f => f.message
  | .misuse m => m.message
  | .noOperands op => "Operation " ++ op.tag ++ " needs at least one operand."
  | .render f => f.message
  | .untyped => "Subclasses must implement the type property"
  | .unwrapped => ""

end Treewright
