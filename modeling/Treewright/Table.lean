import Treewright.Diagnostic
set_option autoImplicit false

namespace Treewright

/-- What a declaration introduces. A parameter is listed under any value; that it is a name matters
only where it is declared. -/
inductive Shape where
  | variable (type : Ty)
  | function (params : List (Value × Ty)) (returns : Option Ty)
  deriving DecidableEq, Repr, Inhabited

structure Symbol where
  id : Nat
  name : Name
  line : Int
  scope : Name
  shape : Shape
  deriving DecidableEq, Repr, Inhabited

namespace Symbol

def isFunction (s : Symbol) : Bool :=
  match s.shape with
  | .variable _ => false
  | .function _ _ => true

def type? (s : Symbol) : Option Ty :=
  match s.shape with
  | .variable type => type.given?
  | .function _ returns => returns

def params? (s : Symbol) : Option (List (Value × Ty)) :=
  match s.shape with
  | .variable _ => none
  | .function params _ => some params

def paramTypes (s : Symbol) : List Ty := (s.params?.getD []).map (·.2)

def returns? (s : Symbol) : Option Ty :=
  match s.shape with
  | .variable _ => none
  | .function _ returns => returns

end Symbol

structure Scope where
  name : Name
  values : List Symbol := []
  functions : List Symbol := []
  deriving DecidableEq, Repr, Inhabited

namespace Scope

def variableNamed (scope : Scope) (name : Name) : Option Symbol :=
  scope.values.find? (·.name.same name)

def functionNamed (scope : Scope) (name : Name) : Option Symbol :=
  scope.functions.find? (·.name.same name)

end Scope

/-- Misuse of a table, as opposed to a problem of the program. -/
inductive Misuse where
  | leaveGlobal
  | defineUndeclared (name : Name)
  deriving DecidableEq, Repr, Inhabited

def Misuse.message : Misuse → String
  | .leaveGlobal => "Cannot leave the global scope."
  | .defineUndeclared name =>
    "Function '" ++ name.written ++ "' must be declared before it is defined."

/-- The innermost scope, the scopes around it from the inside out, and what was recorded. -/
structure Table where
  inner : Scope := { name := .text "global" }
  outer : List Scope := []
  symbols : List Symbol := []
  defined : List Nat := []
  parents : List (Name × Name) := []
  serial : Nat := 0
  deriving DecidableEq, Repr, Inhabited

namespace Table

def scopes (t : Table) : List Scope := t.inner :: t.outer

def current (t : Table) : Name := t.inner.name

def depth (t : Table) : Nat := t.outer.length

/-- A repeated scope name keeps its first spelling and takes the new parent. -/
def setParent (scope parent : Name) : List (Name × Name) → List (Name × Name)
  | [] => [(scope, parent)]
  | (s, p) :: rest =>
    if s.same scope then (s, parent) :: rest else (s, p) :: setParent scope parent rest

def parent? (t : Table) (scope : Name) : Option Name :=
  (t.parents.find? (·.1.same scope)).map (·.2)

/-- Opens a scope of a given name; `nothing` asks for the next numbered block. -/
def enter (t : Table) (name : Name) : Table :=
  let serial := if name = .nothing then t.serial + 1 else t.serial
  let name := if name = .nothing then .text s!"block{serial}" else name
  { t with
    inner := { name }
    outer := t.inner :: t.outer
    parents := setParent name t.current t.parents
    serial }

def leave? (t : Table) : Option Table :=
  match t.outer with
  | [] => none
  | scope :: outer => some { t with inner := scope, outer }

def variableNamed (t : Table) (name : Name) : Option Symbol :=
  t.scopes.findSome? (·.variableNamed name)

def functionNamed (t : Table) (name : Name) : Option Symbol :=
  t.scopes.findSome? (·.functionNamed name)

def lookup (t : Table) (name : Name) : Option Ty := (t.variableNamed name).bind (·.type?)

/-- Declares a variable in the innermost scope, unless that scope has one of the name. -/
def declare? (t : Table) (name : Name) (type : Ty) (line : Int) : Option Table :=
  match t.inner.variableNamed name with
  | some _ => none
  | none =>
    let symbol : Symbol := ⟨t.symbols.length, name, line, t.current, .variable type⟩
    some { t with
      inner := { t.inner with values := t.inner.values ++ [symbol] }
      symbols := t.symbols ++ [symbol] }

/-- Declares a function in the innermost scope, unless that scope has one of the name. -/
def declareFunction? (t : Table) (name : Name) (params : List (Value × Ty)) (returns : Option Ty)
    (line : Int) : Option Table :=
  match t.inner.functionNamed name with
  | some _ => none
  | none =>
    let symbol : Symbol := ⟨t.symbols.length, name, line, t.current, .function params returns⟩
    some { t with
      inner := { t.inner with functions := t.inner.functions ++ [symbol] }
      symbols := t.symbols ++ [symbol] }

def isDefined (t : Table) (symbol : Symbol) : Bool := t.defined.contains symbol.id

def define? (t : Table) (name : Name) : Option Table :=
  (t.functionNamed name).map fun symbol =>
    if t.isDefined symbol then t else { t with defined := t.defined ++ [symbol.id] }

def undefined (t : Table) : List Symbol :=
  t.symbols.filter fun s => s.isFunction && !t.isDefined s

end Table

namespace Symbol

def row (s : Symbol) : String :=
  let params :=
    match s.params? with
    | none | some [] => "N/A"
    | some params =>
      ", ".intercalate (params.map fun (p : Value × Ty) => p.2.spelling ++ " " ++ p.1.text)
  let returns :=
    match s.returns? with
    | some type => if type.present then type.spelling else "N/A"
    | none => "N/A"
  let type := (s.type?.map Ty.spelling).getD "None"
  s!"| {s.name.written} | {s.line} | {type} | {s.scope.written} | {params} | {returns} |"

def paragraph (s : Symbol) : String :=
  let params :=
    match s.params? with
    | none => "None"
    | some params =>
      let pair := fun (p : Value × Ty) => "(" ++ p.1.quoted ++ ", " ++ p.2.shown ++ ")"
      "[" ++ ", ".intercalate (params.map pair) ++ "]"
  let type := (s.type?.map Ty.spelling).getD "None"
  let returns := (s.returns?.map Ty.titled).getD "None"
  s!"Identifier: {s.name.written}\nLine: {s.line}\nData Type: {type}\n" ++
    s!"Scope: {s.scope.written}\nParameters: {params}\nReturn Type: {returns}"

end Symbol

namespace Table

def markdown (t : Table) : String :=
  "| Identifier | Line | Data Type | Scope | Parameters | Return Type |\n" ++
    "|------------|------|-----------|-------|------------|-------------|\n" ++
    String.join (t.symbols.map fun s => s.row ++ "\n")

def listing (t : Table) : String :=
  "Symbol Table:\n" ++ String.join (t.symbols.map fun s => s.paragraph ++ "\n")

end Table
end Treewright
