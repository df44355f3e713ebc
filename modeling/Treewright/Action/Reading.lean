import Treewright.Action.Basic
import Treewright.Text.Digits
set_option autoImplicit false

namespace Treewright

/-- A binding of a declaration, or the actions before its flaw with the flaw. -/
inductive BindingReading where
  | flawed (before : List Action) (flaw : Flaw)
  | bound (name : Name) (value : Option Action)
  deriving Inhabited, Repr

structure Reading where
  value : Value
  action : Action
  /-- The actions that the value holds one after the other. -/
  sequence : Except Flaw (List Action)
  statements : Except Flaw (List Action)
  binding : BindingReading
  bindings : Except Flaw (List BindingReading)
  deriving Inhabited

namespace Reading

abbrev Fields := List (String × Reading)

def valueOf (fields : Fields) (key : String) : Value :=
  ((fieldOf? key fields).map (·.value)).getD .null

def told (value : Value) (flaw : Flaw) : Flaw := if value.writable then flaw else .longNumber

def require (fields : Fields) (key : String) : Except Flaw Reading :=
  match fieldOf? key fields with
  | some r => .ok r
  | none =>
    let node := valueOf fields "node"
    .error (told node (.missing node.text key))

def optional (fields : Fields) (key : String) : Option Reading :=
  match fieldOf? key fields with
  | some r => if r.value = .null then none else some r
  | none => none

def textOf (flaw : Flaw) (value : Value) : Except Flaw String :=
  if value.writable then .ok value.text else .error flaw

/-- A name has a text, since whatever it names is written under it. -/
def nameOf (value : Value) : Except Flaw Name :=
  match Name.ofValue? value with
  | some name => if value.writable then .ok name else .error .longNumber
  | none => .error (.notName value.kindName)

def typeNamed (value : Value) : Except Flaw Ty := do
  let word ← textOf .longWord value
  match Ty.ofName? word with
  | some type => .ok type
  | none => .error (.unknownType word)

def typeField (fields : Fields) (key : String) : Except Flaw Ty := do
  typeNamed (← require fields key).value

def nameField (fields : Fields) : Except Flaw Name := do nameOf (← require fields "name").value

def textField (fields : Fields) (key default : String) : Except Flaw String :=
  match fieldOf? key fields with
  | some r => textOf .longNumber r.value
  | none => .ok default

def orFaulty (before : List Action) : Except Flaw Action → Action
  | .ok action => action
  | .error flaw => .faulty before flaw

def lineOf (value : Value) : Except Flaw Int :=
  match value with
  | .int n => .ok n
  | .bool b => .ok (if b then 1 else 0)
  | .float x =>
    if x.isFinite then .ok x.truncate
    else if x.isNaN then .error (.badLine value)
    else .error .infiniteLine
  | .string s =>
    match Text.integer? s with
    | some n => .ok n
    | none => .error (.badLine value)
  | .null | .list _ | .object _ => .error (told value (.badLine value))

def splitBindings : List BindingReading → List (Name × Option Action) × Option (List Action × Flaw)
  | [] => ([], none)
  | .flawed before flaw :: _ => ([], some (before, flaw))
  | .bound name value :: rest =>
    let (bindings, flaw) := splitBindings rest
    ((name, value) :: bindings, flaw)

def declaration (fields : Fields) : Action :=
  orFaulty [] do
    let type ← typeField fields "type"
    let kind ← textField fields "kind" "var"
    let symbolType ← textField fields "symbol_type" ""
    let (bindings, flaw) := splitBindings (← (← require fields "bindings").bindings)
    let whole := Action.declaration type kind symbolType bindings
    match flaw with
    | none => return whole
    | some (before, flaw) => return .faulty (whole :: before) flaw

/-- A size that is an object is built before the rest is looked at. -/
def arrayDecl (fields : Fields) : Action :=
  orFaulty [] do
    let size ← require fields "size"
    let header : Except Flaw (Ty × Name) := do
      let type ← typeField fields "type"
      return (type, ← nameField fields)
    match size.value, header with
    | .object _, .ok (type, name) => return .sizedArray type name size.action
    | .object _, .error flaw => return .faulty [size.action] flaw
    | value, header => do
      let text ← textOf .longNumber value
      let (type, name) ← header
      return .arrayDecl type name text

def constant (fields : Fields) : Action :=
  orFaulty [] do
    let type ← typeField fields "type"
    return .constant type (← textOf .longNumber (← require fields "value").value)

def operation (fields : Fields) : Action :=
  orFaulty [] do
    let text ← textOf .longWord (← require fields "op").value
    match Op.ofText? text with
    | none => throw (.unknownOperator text)
    | some op =>
      if op.isReserved then throw (.reservedOperator op)
      let operands ← (← require fields "operands").sequence
      if operands.isEmpty then throw (.noOperands op)
      return .operation op operands

def unary (make : Action → Action) (fields : Fields) : Action :=
  orFaulty [] do return make (← require fields "operand").action

def cast (fields : Fields) : Action :=
  orFaulty [] do
    let type ← typeField fields "type"
    return .cast type (← require fields "operand").action

def call (fields : Fields) : Action :=
  orFaulty [] do
    let args ← ((fieldOf? "args" fields).map (·.sequence)).getD (.ok [])
    return orFaulty args do return .call (← nameField fields) args

def access (fields : Fields) : Action :=
  orFaulty [] do
    let name ← require fields "name"
    let index := (← require fields "index").action
    return orFaulty [index] do return .access (← nameOf name.value) index

def assign (fields : Fields) : Action :=
  orFaulty [] do
    let target := (← require fields "target").action
    return orFaulty [target] do return .assign target (← require fields "value").action

def block (fields : Fields) : Action :=
  orFaulty [] do return .block (← (← require fields "lines").statements)

def conditional (fields : Fields) : Action :=
  orFaulty [] do
    let condition := (← require fields "condition").action
    return orFaulty [condition] do
      let accepted ← (← require fields "then").statements
      match optional fields "else" with
      | none => return .conditional condition accepted none
      | some rejected =>
        return orFaulty [condition, .block accepted] do
          return .conditional condition accepted (some (← rejected.statements))

/-- A flaw inside the header or the body is met in the scope of the loop. -/
def loop (fields : Fields) : Action :=
  let init := (optional fields "init").map (·.action)
  let update := (optional fields "update").map (·.action)
  let stopped (before : List Action) (flaw : Flaw) : Action :=
    .faulty [.block (init.toList ++ before ++ [.faulty [] flaw])] flaw
  match require fields "test" with
  | .error flaw => stopped [] flaw
  | .ok test =>
    match require fields "body" >>= (·.statements) with
    | .error flaw => stopped (test.action :: update.toList) flaw
    | .ok body => .loop init test.action update body

def paramOf (function : Value) : Value → Except Flaw (Ty × Name)
  | .list [type, name] => do return (← typeNamed type, .text (← textOf .longWord name))
  | _ => .error (told function (.badParameter function.text))

def itemsOf : Value → Except Flaw (List Value)
  | .list items => .ok items
  | .string s => .ok (s.toList.map fun c => .string c.toString)
  | .object fields => .ok (fields.map fun f => .string f.1)
  | value => .error (.notIterable value.kindName)

/-- A body that is neither given nor a list still defines its function before it is found out. -/
def bodyOf (body : Reading) : List Action :=
  match body.sequence with
  | .ok lines => lines
  | .error flaw => if body.value.truthy then [.faulty [] flaw] else [.nop, .faulty [] flaw]

def function (fields : Fields) : Action :=
  orFaulty [] do
    let name := (← require fields "name").value
    let items ← ((fieldOf? "params" fields).map fun r => itemsOf r.value).getD (.ok [])
    let params ← items.mapM (paramOf name)
    let returns ← typeField fields "returns"
    return .function returns (← nameOf name) params ((optional fields "body").map bodyOf)

def ruleFor? : String → Option (Fields → Action)
  | "declaration" => some declaration
  | "array_decl" => some arrayDecl
  | "var" => some fun fields => orFaulty [] do return .variable (← nameField fields)
  | "const" => some constant
  | "op" => some operation
  | "paren" => some (unary .paren)
  | "cast" => some cast
  | "assign" => some assign
  | "block" => some block
  | "if" => some conditional
  | "for" => some loop
  | "function" => some function
  | "return" => some fun fields => .ret ((optional fields "operand").map (·.action))
  | "call" => some call
  | "index" => some access
  | "address" => some (unary .address)
  | "reference" => some (unary .reference)
  | "nop" => some fun _ => .nop
  | _ => none

/-- The action that an object says: first its kind counts, then its line, then the rest. -/
def actionOf (fields : Fields) : Action :=
  let kind := valueOf fields "node"
  let rule : Except Flaw (Fields → Action) :=
    match kind with
    | .string s =>
      match ruleFor? s with
      | some rule => .ok rule
      | none => .error (.unknownKind kind)
    | .list _ | .object _ => .error (.notName kind.kindName)
    | _ => .error (told kind (.unknownKind kind))
  orFaulty [] do
    let rule ← rule
    match fieldOf? "line" fields with
    | none => return rule fields
    | some line => return .lined (← lineOf line.value) (rule fields)

/-- A field of a literal; when it is missing, the message has the text of another field in it. -/
def literalField (flaw : Flaw) (inner : List (String × Value)) (key : String) :
    Except Flaw Value :=
  match fieldOf? key inner with
  | some v => .ok v
  | none => do throw (.missing (← textOf flaw ((fieldOf? "node" inner).getD .null)) key)

def literalOf : Value → Except Flaw Action
  | .object inner => do
    let value ← textOf .longNumber (← literalField .longNumber inner "value")
    return .constant (← typeNamed (← literalField .longWord inner "type")) value
  | v => .error (.notObject "value" v.kindName)

/-- A literal beside the name gives the initial value, otherwise an action does. -/
def initialOf (fields : Fields) : Except Flaw (Option Action) :=
  match fieldOf? "literal" fields with
  | some r => do return some (← literalOf r.value)
  | none => .ok ((optional fields "init").map (·.action))

def bindingOf (fields : Fields) : BindingReading :=
  match require fields "name" with
  | .error flaw => .flawed [] flaw
  | .ok name =>
    match initialOf fields, nameOf name.value with
    | .error flaw, _ => .flawed [] flaw
    | .ok value, .error flaw => .flawed value.toList flaw
    | .ok value, .ok name => .bound name value

def plain (value : Value) (sequence : Except Flaw (List Action))
    (bindings : Except Flaw (List BindingReading)) : Reading where
  value := value
  action := .faulty [] (.notAction value.kindName)
  sequence := sequence
  statements := .error .notStatements
  binding := .flawed [] (.notObject "name" value.kindName)
  bindings := bindings

def ofAtom (value : Value) : Reading :=
  plain value (.error (.notIterable value.kindName)) (.error (.notIterable value.kindName))

def ofTexts (value : Value) (count : Nat) : Reading :=
  plain value (.ok (List.replicate count (.faulty [] (.notAction "str"))))
    (.ok (List.replicate count (.flawed [] (.notObject "name" "str"))))

def ofList (value : Value) (items : List Reading) : Reading :=
  { plain value (.ok (items.map (·.action))) (.ok (items.map (·.binding))) with
    statements := .ok (items.map (·.action)) }

/-- A block gives its own statements, any other action is the only one. -/
def ofObject (value : Value) (fields : Fields) : Reading :=
  let action := actionOf fields
  let statements : Except Flaw (List Action) :=
    if valueOf fields "node" = .string "block" then do
      let lines ← require fields "lines"
      match lines.value with
      | .list _ => lines.sequence
      | _ => throw .notStatements
    else .ok [action]
  { ofTexts value fields.length with action, statements, binding := bindingOf fields }

end Reading

mutual
def Value.read : Value → Reading
  | .list items => Reading.ofList (.list items) (readAll items)
  | .object fields => Reading.ofObject (.object fields) (readFields fields)
  | .string s => Reading.ofTexts (.string s) s.length
  | .null => Reading.ofAtom .null
  | .bool b => Reading.ofAtom (.bool b)
  | .int n => Reading.ofAtom (.int n)
  | .float x => Reading.ofAtom (.float x)

def readAll : List Value → List Reading
  | [] => []
  | v :: vs => v.read :: readAll vs

def readFields : List (String × Value) → List (String × Reading)
  | [] => []
  | (key, v) :: fs => (key, v.read) :: readFields fs
end

def Action.ofValue (value : Value) : Action := value.read.action

/-- The actions of a program, from a value that is gone through item by item. -/
def Action.sequence (value : Value) : Except Flaw (List Action) := value.read.sequence

end Treewright
