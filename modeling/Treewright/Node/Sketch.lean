import Treewright.Node.Basic
set_option autoImplicit false

namespace Treewright

def bracketed (items : List String) : String := "[" ++ ", ".intercalate items ++ "]"

namespace Node

mutual
def sketch : Node → String
  | .mk _ (.bare _) => ""
  | .mk _ .nop => "NopNode()"
  | .mk _ (.constant type value) => "ConstantNode(" ++ type.spelling ++ ", " ++ value ++ ")"
  | .mk _ (.variable name _ _) => "VariableNode(" ++ name.written ++ ")"
  | .mk _ (.binding type name value _) =>
    "VarDeclNode(" ++ type.spelling ++ ", " ++ name.written ++ ", " ++ sketchOption value ++ ")"
  | .mk _ (.declaration type _ _ bindings) =>
    "DeclarationNode(" ++ type.spelling ++ ", " ++ bracketed (sketchAll bindings) ++ ")"
  | .mk _ (.arrayDecl type name size _) =>
    "ArrayDeclNode(" ++ type.spelling ++ ", " ++ name.written ++ ", " ++ size ++ ")"
  | .mk _ (.operation _ op operands _ _ _ _) =>
    "OperationNode(" ++ op.tag ++ ", " ++ bracketed (sketchAll operands) ++ ")"
  | .mk _ (.assignment target value _ _) =>
    "AssignmentNode(" ++ sketch target ++ ", " ++ sketch value ++ ")"
  | .mk _ (.block _ lines) => "BlockNode(" ++ bracketed (sketchAll lines) ++ ")"
  | .mk _ (.conditional condition accepted rejected _) =>
    "ConditionalNode(" ++ sketch condition ++ ", " ++ sketch accepted ++ ", else=" ++
      sketchOption rejected ++ ")"
  | .mk _ (.loop init test update body _) =>
    "LoopNode(" ++ sketchOption init ++ ", " ++ sketch test ++ ", " ++ sketchOption update ++
      ", " ++ sketch body ++ ")"
  | .mk _ (.signature params) =>
    let pair := fun (p : Ty × Value) => "(" ++ p.1.shown ++ ", " ++ p.2.quoted ++ ")"
    "ParamListNode(" ++ bracketed (params.map pair) ++ ")"
  | .mk _ (.function returns name params body _) =>
    "FunNode(" ++ returns.spelling ++ ", " ++ name.text ++ ", " ++ sketchOption params ++
      ", " ++ sketchOption body ++ ")"
  | .mk _ (.ret operand) => "ReturnNode(" ++ sketchOption operand ++ ")"
  | .mk _ (.arguments items) => "ExpressionListNode(" ++ bracketed (sketchAll items) ++ ")"
  | .mk _ (.call name args _ _ _) =>
    "FunCallNode(" ++ name.written ++ ", " ++ sketch args ++ ")"
  | .mk _ (.access name index _ _) =>
    "ArrayIndexNode(" ++ name.written ++ ", " ++ sketch index ++ ")"
  | .mk _ (.wrapper .address target _ _) => "AddressNode(" ++ sketch target ++ ")"
  | .mk _ (.wrapper .reference target _ _) => "ReferenceNode(" ++ sketch target ++ ")"
  | .mk _ (.wrapper .plain _ _ _) => ""

def sketchAll : List Node → List String
  | [] => []
  | n :: ns => sketch n :: sketchAll ns

def sketchOption : Option Node → String
  | none => "None"
  | some n => sketch n
end

end Node
end Treewright
