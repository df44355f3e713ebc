import Treewright.Fault
import Treewright.Node.Make
set_option autoImplicit false

/-!
The builder turns actions into nodes. Children are built before their parent, block-like actions
open a scope around their contents, and a node settles its type and its failure once, when it is
made. What was done before a fault stays done; a scope is closed again even then.
-/

namespace Treewright

/-- A step of a build: it may stop with a fault, and keeps its effects then. -/
abbrev Build := ExceptT Fault (StateM Context)

namespace Build

def fail {α : Type} (fault : Fault) : Build α := throw fault

def make (form : Context → Form Node × Context) : Build Node := do
  let c ← get
  let (form, after) := form c
  set after
  return .mk { line := c.line } form

def plain (form : Form Node) : Build Node := do return .mk { line := (← get).line } form

def block (title : String) (lines : List Node) : Node := .mk {} (.block title lines)

/-- Runs a step in a scope of its own, which is closed however the step ends. -/
def inScope {α : Type} (name : Name) (step : Build α) : Build α := fun c =>
  let (result, c) := step { c with table := c.table.enter name }
  match c.table.leave? with
  | some table => (result, { c with table })
  | none => (.error (.misuse .leaveGlobal), c)

def define (name : Name) (rejected : Bool) : Build Unit := do
  if rejected then return ()
  let c ← get
  match c.table.define? name with
  | some table => set { c with table }
  | none => fail (.misuse (.defineUndeclared name))

/-- Declares the parameters of a function; a repeated name is a problem of its own. -/
def declareParams : List (Ty × Name) → Build Unit
  | [] => return ()
  | (type, name) :: params => do
    modify fun c => (c.declare name type c.line).2
    declareParams params

/-- The code of a node that stands for the size of an array. -/
def sizeText (size : Node) : Build String :=
  match size.render 0 with
  | .ok text => return text
  | .error fault => fail (.render fault)

def operation (style : Style) (op : Op) (operands : List Node) : Build Node :=
  if operands.isEmpty then fail (.noOperands op)
  else make (Form.ofOperation style op none (operands.map Node.seen))

end Build

open Build

mutual
def build : Action → Build Node
  | .faulty before flaw => do
    let _ ← buildAll before
    fail (.flaw flaw)
  | .lined line action => do
    modify (·.advanceTo line)
    build action
  | .declaration type kind symbolType bindings => do
    let line := (← get).line
    let bindings ← buildBindings type bindings
    return .mk { line } (.declaration type kind symbolType bindings)
  | .arrayDecl type name size => make (Form.ofArrayDecl type name size)
  | .sizedArray type name size => do
    let size ← build size
    make (Form.ofArrayDecl type name (← sizeText size))
  | .variable name => make (Form.ofVariable name)
  | .constant type value => plain (.constant type value)
  | .operation op operands => do
    let operands ← buildAll operands
    let (style, op) := styleOf op operands.length
    operation style op operands
  | .paren operand => do operation .paren .par [← build operand]
  | .cast target operand => do operation (.cast target) .cast [← build operand]
  | .assign target value => do
    let target ← build target
    let value ← build value
    make (Form.ofAssignment target.seen value.seen)
  | .block lines => do return block "Block" (← inScope .nothing (buildAll lines))
  | .conditional condition accepted rejected => do
    let condition ← build condition
    let accepted := block "Then Branch" (← inScope .nothing (buildAll accepted))
    let rejected ← buildBranch rejected
    make (Form.ofConditional condition.seen accepted rejected)
  | .loop init test update body => do
    let (init, test, update, body) ← inScope .nothing do
      let init ← buildOption init
      let test ← build test
      let update ← buildOption update
      let body ← inScope .nothing (buildAll body)
      return (init, test, update, block "Body" body)
    make (Form.ofLoop init test.seen update body)
  | .function returns name params body => do
    let c ← get
    let signature := params.map fun p => (p.1, p.2.toValue)
    let (rejected, after) := c.declareFunction name signature returns c.line
    set after
    let body ← buildBody name params rejected body
    return .mk { line := c.line }
      (.function returns name.toValue (some (.mk {} (.signature signature))) body rejected)
  | .ret operand => do plain (.ret (← buildOption operand))
  | .call name args => do
    let args ← buildAll args
    make (Form.ofCall name (.mk {} (.arguments args)) (args.map Node.operand))
  | .access name index => do
    let index ← build index
    make (Form.ofAccess name index.seen)
  | .address operand => do
    let operand ← build operand
    return .mk { line := operand.line } (.ofWrapper .address operand.seen)
  | .reference operand => do
    let operand ← build operand
    return .mk { line := operand.line } (.ofWrapper .reference operand.seen)
  | .nop => plain .nop

def buildAll : List Action → Build (List Node)
  | [] => return []
  | a :: as => do
    let n ← build a
    return n :: (← buildAll as)

def buildOption : Option Action → Build (Option Node)
  | none => return none
  | some a => do return some (← build a)

def buildBranch : Option (List Action) → Build (Option Node)
  | none => return none
  | some lines => do return some (block "Else Branch" (← inScope .nothing (buildAll lines)))

def buildBindings (type : Ty) : List (Name × Option Action) → Build (List Node)
  | [] => return []
  | (name, none) :: rest => do
    let n ← make (Form.ofBinding type name none)
    return n :: (← buildBindings type rest)
  | (name, some value) :: rest => do
    let value ← build value
    let n ← make (Form.ofBinding type name (some value.seen))
    return n :: (← buildBindings type rest)

/-- The body of a function, in a scope that has the function's name and holds its parameters. An
empty body defines the function as well. -/
def buildBody (name : Name) (params : List (Ty × Name)) (rejected : Bool) :
    Option (List Action) → Build (Option Node)
  | none => return none
  | some lines => do
    let lines ← inScope name do
      declareParams params
      let lines ← buildLines name rejected lines
      if lines.isEmpty then
        define name rejected
        return [.mk {} .nop]
      return lines
    return some (block "Body" lines)

/-- The lines of a function body; the function counts as defined after each of them. -/
def buildLines (name : Name) (rejected : Bool) : List Action → Build (List Node)
  | [] => return []
  | a :: as => do
    let n ← build a
    define name rejected
    return n :: (← buildLines name rejected as)
end

end Treewright
