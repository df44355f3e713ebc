import Treewright.Name
import Treewright.Op
import Treewright.Ty
set_option autoImplicit false

namespace Treewright

inductive Topic where
  | value (value : Value)
  | type (type : Ty)
  | op (op : Op)
  deriving DecidableEq, Repr, Inhabited

def Op.titled (op : Op) : String := "Operator." ++ op.tag

def Op.shown (op : Op) : String := s!"<{op.titled}: {op.number}>"

namespace Topic

def written : Topic → String
  | .value v => v.text
  | .type t => t.titled
  | .op o => o.titled

def phrase : Topic → String
  | .value v => v.text
  | .type t => t.phrase
  | .op o => o.titled

def shown : Topic → String
  | .value v => v.quoted
  | .type t => t.shown
  | .op o => o.shown

end Topic

def Value.unkeyed? (v : Value) : Option Value := if (Name.ofValue? v).isSome then none else some v

def Ty.unkeyed? : Ty → Option Value
  | .array element size => element.unkeyed?.or size.unkeyed?
  | .pointer target => target.unkeyed?
  | .reference target => target.unkeyed?
  | .foreign value => value.unkeyed?
  | _ => none

def Topic.unkeyed? : Topic → Option Value
  | .value v => v.unkeyed?
  | .type t => t.unkeyed?
  | .op _ => none

end Treewright
