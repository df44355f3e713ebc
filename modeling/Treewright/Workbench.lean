import Treewright.Fault
import Treewright.Node.Make
import Treewright.Node.Outline
set_option autoImplicit false

namespace Treewright

structure Piece where
  mark : Mark
  form : Form Nat
  /-- The children that a tree shows of the node, where a change of it was not carried through. -/
  stale : Option (List Nat) := none
  deriving Inhabited, Repr

def Piece.shown (p : Piece) : List Nat := p.stale.getD p.form.edges

structure Workbench where
  context : Context := {}
  pieces : List Piece := []
  deriving Inhabited

namespace Workbench

def unfold (pieces : List Piece) : (levels : Nat) → (place : Nat) → Node
  | 0, _ => .mk {} .nop
  | levels + 1, place =>
    match pieces[place]? with
    | none => .mk {} .nop
    | some p => .mk p.mark (p.form.map (unfold pieces levels))

/-- The node in a place. No way down a tree is longer than there are places. -/
def node (b : Workbench) (place : Nat) : Node := unfold b.pieces b.pieces.length place

/-- The children that a tree shows of the node `n` in a place, each with its place. -/
def shown (b : Workbench) (p : Piece) (n : Node) : List (Nat × Node) :=
  match p.stale with
  | none => p.form.edges.zip n.edges
  | some places => places.map fun place => (place, b.node place)

/-- The outline of the node `n` in a place, followed down so many levels; none if a node in it has
no label. -/
def outlineFrom? (b : Workbench) : (levels : Nat) → (place : Nat) → (n : Node) → Option Outline
  | 0, _, _ => none
  | levels + 1, place, n => do
    let p ← b.pieces[place]?
    if n.labelled then
      let children ← (b.shown p n).mapM fun c => b.outlineFrom? levels c.1 c.2
      return .mk n.label n.error p.mark.last children
    else none

def outline? (b : Workbench) (place : Nat) : Option Outline :=
  b.outlineFrom? b.pieces.length place (b.node place)

def seen (b : Workbench) (place : Nat) : Nat × Operand := (place, (b.node place).operand)

def untyped (b : Workbench) (place : Nat) : Bool := (b.node place).untyped

def items (b : Workbench) (place : Nat) : List Nat :=
  match b.pieces[place]? with
  | some ⟨_, .block _ lines, _⟩ => lines
  | some ⟨_, .arguments items, _⟩ => items
  | _ => []

def item? (b : Workbench) (place : Nat) (index : Int) : Option Nat :=
  let items := b.items place
  let index := if index < 0 then index + items.length else index
  if index < 0 then none else items[index.toNat]?

def params (b : Workbench) (place : Nat) : List (Ty × Value) :=
  match b.pieces[place]? with
  | some ⟨_, .signature params, _⟩ => params
  | _ => []

def alter (b : Workbench) (place : Nat) (f : Form Nat → Form Nat) : Workbench :=
  { b with pieces := b.pieces.modify place fun p => { p with form := f p.form } }

def alterMark (b : Workbench) (place : Nat) (f : Mark → Mark) : Workbench :=
  { b with pieces := b.pieces.modify place fun p => { p with mark := f p.mark } }

/-- A block that another node takes as a part gets a title from it. -/
def retitle (b : Workbench) (place : Nat) (title : String) : Workbench :=
  b.alter place fun
    | .block _ lines => .block title lines
    | form => form

def append (b : Workbench) (place item : Nat) : Workbench :=
  b.alter place fun
    | .block title lines => .block title (lines ++ [item])
    | .arguments items => .arguments (items ++ [item])
    | form => form

def appendParam (b : Workbench) (place : Nat) (type : Ty) (name : Value) : Workbench :=
  b.alter place fun
    | .signature params => .signature (params ++ [(type, name)])
    | form => form

/-- Sets the type of an operation from outside, or takes such a type back. -/
def setType (b : Workbench) (place : Nat) (type : Option Ty) : Workbench :=
  b.alter place fun
    | .operation style op operands expected _ coerced failed =>
      .operation style op operands expected type coerced failed
    | form => form

def setSymbolType (b : Workbench) (place : Nat) (symbolType : String) : Workbench :=
  b.alter place fun
    | .declaration type kind _ bindings => .declaration type kind symbolType bindings
    | form => form

end Workbench

/-- A step at the workbench: it may stop with a fault, and keeps its effects then. -/
abbrev Craft := ExceptT Fault (StateM Workbench)

namespace Craft

def fail {α : Type} (fault : Fault) : Craft α := throw fault

def put (mark : Mark) (form : Form Nat) : Craft Nat := do
  let place := (← get).pieces.length
  modify fun b => { b with pieces := b.pieces ++ [{ mark, form }] }
  return place

def setContext (context : Context) : Craft Unit := modify fun b => { b with context }

def make (form : Context → Form Nat × Context) : Craft Nat := do
  let c := (← get).context
  let (form, after) := form c
  setContext after
  put { line := c.line } form

def needType (place : Nat) : Craft Unit := do
  if (← get).untyped place then fail .untyped

def nameOf (value : Value) : Craft Name :=
  match Name.ofValue? value with
  | some name => return name
  | none => fail (.flaw (.notName value.kindName))

def identifier (name : Name) : Craft Nat := make (Form.ofVariable name)

def operation (style : Style) (op : Op) (given : Option Ty) (operands : List Nat) : Craft Nat := do
  if operands.isEmpty then fail (.noOperands op)
  let b ← get
  let before := operands.takeWhile fun o => !b.untyped o
  let fold := checkOperands (Form.operandType style given) (before.map fun o => (b.seen o).2)
  if before.length < operands.length && !fold.failed then fail .untyped
  make (Form.ofOperation style op given (operands.map b.seen))

/-- The arguments are looked at one after the other, up to the first that has no type. -/
def call (name : Name) (args : Option Nat) : Craft Nat := do
  let args ← match args with
    | some args => pure args
    | none => put {} (.arguments [])
  let b ← get
  let c := b.context
  let items := b.items args
  let before := items.takeWhile fun o => !b.untyped o
  if let some symbol := c.table.functionNamed name then
    let params := symbol.paramTypes
    if params.length = items.length && before.length < items.length then
      let operands := before.map fun o => (b.seen o).2
      let verdict := checkArguments c.reportAll name 0 (params.take before.length) operands
      if c.reportAll || verdict.problems.isEmpty then
        setContext (c.report verdict.problems)
        fail .untyped
  make (Form.ofCall name args (items.map fun o => (b.seen o).2))

def access (name : Name) (index : Nat) : Craft Nat := do
  let b ← get
  if b.untyped index then
    setContext (b.context.report (checkArray b.context.table name).2.problems)
    fail .untyped
  make (Form.ofAccess name (b.seen index))

/-- A wrapper of no kind has a type only when what it wraps failed. -/
def wrapper (wrap : Wrap) (target : Nat) : Craft Nat := do
  needType target
  let b ← get
  let seen := b.seen target
  if wrap = .plain && !seen.2.type.isError then fail .unwrapped
  put { line := (b.node target).line } (Form.ofWrapper wrap seen)

def binding (type : Ty) (name : Name) (value : Option Nat) : Craft Nat := do
  let b ← get
  if (value.map b.untyped).getD false then
    setContext (b.context.declare name type b.context.line).2
    fail .untyped
  make (Form.ofBinding type name (value.map b.seen))

def addBinding (declaration : Nat) (name : Name) (value : Option Nat) : Craft Nat := do
  let type := match (← get).pieces[declaration]? with
    | some ⟨_, .declaration type _ _ _, _⟩ => type
    | _ => .any
  let place ← binding type name value
  modify fun b => b.alter declaration fun
    | .declaration type kind symbolType bindings =>
      .declaration type kind symbolType (bindings ++ [place])
    | form => form
  return place

def sizedArray (type : Ty) (name : Value) (size : Nat) : Craft Nat := do
  match ((← get).node size).render 0 with
  | .ok text => make (Form.ofArrayDecl type (← nameOf name) text)
  | .error fault => fail (.render fault)

def assignment (target value : Nat) : Craft Nat := do
  let b ← get
  let failed := (b.node target).error || (b.node value).error
  if !failed && (b.untyped target || b.untyped value) then fail .untyped
  make (Form.ofAssignment (b.seen target) (b.seen value))

def conditional (condition accepted : Nat) (rejected : Option Nat) : Craft Nat := do
  modify (·.retitle accepted "Then Branch")
  if let some rejected := rejected then modify (·.retitle rejected "Else Branch")
  needType condition
  make (Form.ofConditional ((← get).seen condition) accepted rejected)

def loop (init : Option Nat) (test : Nat) (update : Option Nat) (body : Nat) : Craft Nat := do
  modify (·.retitle body "Body")
  needType test
  make (Form.ofLoop init ((← get).seen test) update body)

/-- Changes the parts of a function. The tree goes on to show the old parts until the change is
carried through. -/
def alterFunction (place : Nat)
    (f : Option Nat → Option Nat → Bool → Option Nat × Option Nat × Bool) : Craft Unit :=
  modify fun b =>
    { b with pieces := b.pieces.modify place fun p =>
      match p.form with
      | .function returns name params body failed =>
        let (params, body, failed) := f params body failed
        { p with form := .function returns name params body failed, stale := some p.shown }
      | _ => p }

/-- Marks the function as defined if it has all parts and was not rejected; then the tree shows
its parts as they are. -/
def settle (place : Nat) : Craft Unit := do
  let b ← get
  if let some ⟨_, .function _ name (some _) (some _) false, _⟩ := b.pieces[place]? then
    let name ← nameOf name
    match b.context.table.define? name with
    | some table => setContext { b.context with table }
    | none => fail (.misuse (.defineUndeclared name))
  modify fun b => { b with pieces := b.pieces.modify place fun p => { p with stale := none } }

def bind (place params : Nat) (body : Option Nat) : Craft Unit := do
  let b ← get
  if let some ⟨mark, .function returns name _ _ _, _⟩ := b.pieces[place]? then
    alterFunction place fun _ body failed => (some params, body, failed)
    let name ← nameOf name
    let (rejected, c) := b.context.declareFunction name (b.params params) returns mark.line
    setContext c
    alterFunction place fun params old failed => (params, body.or old, failed || rejected)
    settle place

/-- Adds a statement to the body of a function; a body that is no block becomes the first line of
one. -/
def inject (place statement : Nat) : Craft Unit := do
  let b ← get
  if let some ⟨_, .function _ _ _ body _, _⟩ := b.pieces[place]? then
    let block ← match body with
      | none => put {} (.block "Body" [])
      | some old =>
        match (b.node old).form with
        | .block _ _ => pure old
        | _ => put {} (.block "Body" [old])
    modify (·.append block statement)
    alterFunction place fun params _ failed => (params, some block, failed)
    settle place

end Craft
end Treewright
