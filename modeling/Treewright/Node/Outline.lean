import Treewright.Node.Basic
set_option autoImplicit false

namespace Treewright

inductive Outline where
  | mk (label : String) (failed : Bool) (last : Option Bool) (children : List Outline)
  deriving Inhabited, Repr

namespace Outline

def label : Outline → String
  | .mk label _ _ _ => label

def failed : Outline → Bool
  | .mk _ failed _ _ => failed

def children : Outline → List Outline
  | .mk _ _ _ children => children

def corner (last : Bool) : String := if last then "└── " else "├── "

def margin (last : Bool) : String := if last then "    " else "│   "

mutual
/-- One line for each labelled node, under what stands before the whole listing. -/
def listing : (before : String) → (last : Bool) → Outline → String
  | before, last, .mk label _ override children =>
    let last := override.getD last
    let own := if label = "" then "" else before ++ corner last ++ label
    let gap := if children.isEmpty || label = "" then "" else "\n"
    own ++ gap ++ listingAll (before ++ margin last) children

def listingAll : (before : String) → List Outline → String
  | _, [] => ""
  | before, [o] => listing before true o
  | before, o :: os => listing before false o ++ "\n" ++ listingAll before os
end

mutual
def preorder : Outline → List Outline
  | .mk label failed last children => .mk label failed last children :: preorderAll children

def preorderAll : List Outline → List Outline
  | [] => []
  | o :: os => preorder o ++ preorderAll os
end

end Outline

namespace Node

mutual
def outline : Node → Outline
  | .mk m form =>
    let children : List Outline :=
      match form with
      | .binding _ _ value _ => outlineOption value
      | .declaration _ _ _ bindings => outlineAll bindings
      | .operation _ _ operands _ _ _ _ => outlineAll operands
      | .assignment target value _ _ => [outline target, outline value]
      | .block _ lines => outlineAll lines
      | .conditional condition accepted rejected _ =>
        outline condition :: outline accepted :: outlineOption rejected
      | .loop init test update body _ =>
        outlineOption init ++ outline test :: (outlineOption update ++ [outline body])
      | .function _ _ params body _ => outlineOption params ++ outlineOption body
      | .ret operand => outlineOption operand
      | .arguments items => outlineAll items
      | .call _ args _ _ _ => [outline args]
      | .access _ index _ _ => [outline index]
      | .wrapper _ target _ _ => [outline target]
      | .bare _ | .nop | .constant _ _ | .variable _ _ _ | .arrayDecl _ _ _ _ | .signature _ => []
    .mk (label (.mk m form)) (error (.mk m form)) m.last children

def outlineAll : List Node → List Outline
  | [] => []
  | n :: ns => outline n :: outlineAll ns

def outlineOption : Option Node → List Outline
  | none => []
  | some n => [outline n]
end

theorem outlineAll_eq_map (ns : List Node) : outlineAll ns = ns.map outline := by
  induction ns with
  | nil => rfl
  | cons n ns ih => simp [outlineAll, ih]

theorem outlineOption_eq_map (n : Option Node) : outlineOption n = n.toList.map outline := by
  cases n <;> rfl

theorem children_outline (n : Node) : n.outline.children = n.edges.map outline := by
  obtain ⟨m, form⟩ := n
  cases form <;>
    simp [outline, Outline.children, edges, Node.form, Form.edges, outlineAll_eq_map,
      outlineOption_eq_map]

mutual
def allLabelled : Node → Bool
  | .mk m form =>
    labelled (.mk m form) &&
      match form with
      | .binding _ _ value _ => optionLabelled value
      | .declaration _ _ _ bindings => listLabelled bindings
      | .operation _ _ operands _ _ _ _ => listLabelled operands
      | .assignment target value _ _ => allLabelled target && allLabelled value
      | .block _ lines => listLabelled lines
      | .conditional condition accepted rejected _ =>
        allLabelled condition && allLabelled accepted && optionLabelled rejected
      | .loop init test update body _ =>
        optionLabelled init && allLabelled test && optionLabelled update && allLabelled body
      | .function _ _ params body _ => optionLabelled params && optionLabelled body
      | .ret operand => optionLabelled operand
      | .arguments items => listLabelled items
      | .call _ args _ _ _ => allLabelled args
      | .access _ index _ _ => allLabelled index
      | .wrapper _ target _ _ => allLabelled target
      | .bare _ | .nop | .constant _ _ | .variable _ _ _ | .arrayDecl _ _ _ _ | .signature _ => true

def listLabelled : List Node → Bool
  | [] => true
  | n :: ns => allLabelled n && listLabelled ns

def optionLabelled : Option Node → Bool
  | none => true
  | some n => allLabelled n
end

def listing (n : Node) (before : String) (last : Bool) : String :=
  n.outline.listing before last

mutual
/-- Gives the nodes of the tree the ids of a supply, in preorder from the one in place `next` on,
and says which place follows. -/
def numbered (ids : Nat → Int) : (next : Nat) → Node → Node × Nat
  | next, .mk m form =>
    let (form, after) : Form Node × Nat :=
      match form with
      | .binding type name value failed =>
        let (value, k) := numberedOption ids (next + 1) value
        (.binding type name value failed, k)
      | .declaration type kind symbolType bindings =>
        let (bindings, k) := numberedAll ids (next + 1) bindings
        (.declaration type kind symbolType bindings, k)
      | .operation style op operands expected result coerced failed =>
        let (operands, k) := numberedAll ids (next + 1) operands
        (.operation style op operands expected result coerced failed, k)
      | .assignment target value coerced failed =>
        let (target, k) := numbered ids (next + 1) target
        let (value, k) := numbered ids k value
        (.assignment target value coerced failed, k)
      | .block title lines =>
        let (lines, k) := numberedAll ids (next + 1) lines
        (.block title lines, k)
      | .conditional condition accepted rejected failed =>
        let (condition, k) := numbered ids (next + 1) condition
        let (accepted, k) := numbered ids k accepted
        let (rejected, k) := numberedOption ids k rejected
        (.conditional condition accepted rejected failed, k)
      | .loop init test update body failed =>
        let (init, k) := numberedOption ids (next + 1) init
        let (test, k) := numbered ids k test
        let (update, k) := numberedOption ids k update
        let (body, k) := numbered ids k body
        (.loop init test update body failed, k)
      | .function returns name params body failed =>
        let (params, k) := numberedOption ids (next + 1) params
        let (body, k) := numberedOption ids k body
        (.function returns name params body failed, k)
      | .ret operand =>
        let (operand, k) := numberedOption ids (next + 1) operand
        (.ret operand, k)
      | .arguments items =>
        let (items, k) := numberedAll ids (next + 1) items
        (.arguments items, k)
      | .call name args type coerced failed =>
        let (args, k) := numbered ids (next + 1) args
        (.call name args type coerced failed, k)
      | .access name index type failed =>
        let (index, k) := numbered ids (next + 1) index
        (.access name index type failed, k)
      | .wrapper wrap target type failed =>
        let (target, k) := numbered ids (next + 1) target
        (.wrapper wrap target type failed, k)
      | .bare kind => (.bare kind, next + 1)
      | .nop => (.nop, next + 1)
      | .constant type value => (.constant type value, next + 1)
      | .variable name type failed => (.variable name type failed, next + 1)
      | .arrayDecl type name size failed => (.arrayDecl type name size failed, next + 1)
      | .signature params => (.signature params, next + 1)
    (.mk { m with id := some (ids next) } form, after)

def numberedAll (ids : Nat → Int) : (next : Nat) → List Node → List Node × Nat
  | next, [] => ([], next)
  | next, n :: ns =>
    let (n, k) := numbered ids next n
    let (ns, k) := numberedAll ids k ns
    (n :: ns, k)

def numberedOption (ids : Nat → Int) : (next : Nat) → Option Node → Option Node × Nat
  | next, none => (none, next)
  | next, some n =>
    let (n, k) := numbered ids next n
    (some n, k)
end

end Node
end Treewright
