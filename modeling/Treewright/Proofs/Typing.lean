import Mathlib.Data.List.Forall2
import Treewright.Action.Basic
set_option autoImplicit false

namespace Treewright

namespace Ty

/-- The types have `type` in common: all are that type, or all are numbers and some are floats. Void
is no common type. -/
def Joins (types : List Ty) (type : Ty) : Prop :=
  (type ≠ .void ∧ ∀ t ∈ types, t = type) ∨
    (type = .float ∧ .float ∈ types ∧ ∀ t ∈ types, t = .int ∨ t = .float)

/-- A value of the source type can be given where the target type is due. -/
def Accepts (target source : Ty) : Prop := source = target ∨ (target = .float ∧ source = .int)

end Ty

structure Signature where
  params : List Ty
  returns : Ty

structure Frame where
  vars : List (Name × Ty) := []
  funs : List (Name × Signature) := []

def Frame.var? (f : Frame) (name : Name) : Option Ty :=
  (f.vars.find? (·.1.same name)).map (·.2)

def Frame.fun? (f : Frame) (name : Name) : Option Signature :=
  (f.funs.find? (·.1.same name)).map (·.2)

/-- The innermost scope, and the scopes around it from the inside out. -/
structure Env where
  inner : Frame := {}
  outer : List Frame := []

namespace Env

/-- A name means the variable of the innermost scope that has one. -/
def var? (Γ : Env) (name : Name) : Option Ty := (Γ.inner :: Γ.outer).findSome? (·.var? name)

def fun? (Γ : Env) (name : Name) : Option Signature :=
  (Γ.inner :: Γ.outer).findSome? (·.fun? name)

def enter (Γ : Env) : Env := { outer := Γ.inner :: Γ.outer }

def addVar (Γ : Env) (name : Name) (type : Ty) : Env :=
  { Γ with inner := { Γ.inner with vars := Γ.inner.vars ++ [(name, type)] } }

def addFun (Γ : Env) (name : Name) (signature : Signature) : Env :=
  { Γ with inner := { Γ.inner with funs := Γ.inner.funs ++ [(name, signature)] } }

/-- The environment of a function body: a scope with the parameters alone. -/
def enterBody (Γ : Env) (params : List (Ty × Name)) : Env :=
  { inner := { vars := params.map fun p => (p.2, p.1) }, outer := Γ.inner :: Γ.outer }

end Env

/-- `HasType Γ e t`: the expression `e` has type `t` in `Γ`. -/
inductive HasType (Γ : Env) : Action → Ty → Prop where
  | lined {e : Action} {t : Ty} (line : Int) (h : HasType Γ e t) : HasType Γ (.lined line e) t
  | variable {name : Name} {t : Ty} (h : Γ.var? name = some t) : HasType Γ (.variable name) t
  | constant (t : Ty) (value : String) : HasType Γ (.constant t value) t
  | arithmetic {op : Op} {es : List Action} {types : List Ty} {t : Ty}
      (hc : op.isComparison = false) (hb : op.isConnective = false)
      (operands : List.Forall₂ (HasType Γ) es types) (join : Ty.Joins types t) :
      HasType Γ (.operation op es) t
  | negation {op : Op} {e : Action} {t : Ty} (hm : op = .minus ∨ op = .unaryMinus)
      (operand : HasType Γ e t) (nonvoid : t ≠ .void) : HasType Γ (.operation op [e]) t
  | comparison {op : Op} {es : List Action} {types : List Ty} {t : Ty}
      (hc : op.isComparison = true) (operands : List.Forall₂ (HasType Γ) es types)
      (join : Ty.Joins types t) : HasType Γ (.operation op es) .bool
  | connective {op : Op} {es : List Action} (hb : op.isConnective = true)
      (operands : ∀ e ∈ es, HasType Γ e .bool) : HasType Γ (.operation op es) .bool
  | paren {e : Action} {t : Ty} (operand : HasType Γ e t) (nonvoid : t ≠ .void) :
      HasType Γ (.paren e) t
  | cast {e : Action} {s : Ty} (t : Ty) (operand : HasType Γ e s) : HasType Γ (.cast t e) t
  | call {name : Name} {signature : Signature} {es : List Action} {types : List Ty}
      (visible : Γ.fun? name = some signature) (args : List.Forall₂ (HasType Γ) es types)
      (accepted : List.Forall₂ Ty.Accepts signature.params types) :
      HasType Γ (.call name es) signature.returns
  | access {name : Name} {t : Ty} {size : Value} {e : Action}
      (array : Γ.var? name = some (.array t size)) (index : HasType Γ e .int) :
      HasType Γ (.access name e) t
  | address {e : Action} {t : Ty} (operand : HasType Γ e t) : HasType Γ (.address e) (.pointer t)
  | reference {e : Action} {t : Ty} (operand : HasType Γ e t) :
      HasType Γ (.reference e) (.reference t)

/-- A relation between states, along a list. -/
inductive Chain {σ α : Type} (R : σ → α → σ → Prop) : σ → List α → σ → Prop where
  | nil (s : σ) : Chain R s [] s
  | cons {s s' s'' : σ} {a : α} {as : List α} (head : R s a s') (tail : Chain R s' as s'') :
      Chain R s (a :: as) s''

/-- A binding declares a name that its scope does not have yet. An initial value has exactly the
declared type, and does not see the name. -/
inductive Binds (type : Ty) : Env → Name × Option Action → Env → Prop where
  | plain {Γ : Env} {name : Name} (fresh : Γ.inner.var? name = none) :
      Binds type Γ (name, none) (Γ.addVar name type)
  | given {Γ : Env} {name : Name} {e : Action} (value : HasType Γ e type)
      (fresh : Γ.inner.var? name = none) : Binds type Γ (name, some e) (Γ.addVar name type)

/-- `Executes Γ s Γ'`: the statement `s` is well typed in `Γ`, and `Γ'` holds after it. -/
inductive Executes : Env → Action → Env → Prop where
  | lined {Γ Γ' : Env} {s : Action} (line : Int) (h : Executes Γ s Γ') :
      Executes Γ (.lined line s) Γ'
  | expression {Γ : Env} {e : Action} {t : Ty} (h : HasType Γ e t) : Executes Γ e Γ
  | declaration {Γ Γ' : Env} {type : Ty} {bindings : List (Name × Option Action)}
      (kind symbolType : String) (h : Chain (Binds type) Γ bindings Γ') :
      Executes Γ (.declaration type kind symbolType bindings) Γ'
  | arrayDecl {Γ : Env} {name : Name} (type : Ty) (size : String)
      (fresh : Γ.inner.var? name = none) :
      Executes Γ (.arrayDecl type name size) (Γ.addVar name (.array type (.string size)))
  | assign {Γ : Env} {target value : Action} {t s : Ty} (ht : HasType Γ target t)
      (hv : HasType Γ value s) (accepted : t.Accepts s) : Executes Γ (.assign target value) Γ
  | block {Γ Γ' : Env} {lines : List Action} (h : Chain Executes Γ.enter lines Γ') :
      Executes Γ (.block lines) Γ
  | ifThen {Γ Γ' : Env} {condition : Action} {accepted : List Action}
      (hc : HasType Γ condition .bool) (ha : Chain Executes Γ.enter accepted Γ') :
      Executes Γ (.conditional condition accepted none) Γ
  | ifElse {Γ Γ' Γ'' : Env} {condition : Action} {accepted rejected : List Action}
      (hc : HasType Γ condition .bool) (ha : Chain Executes Γ.enter accepted Γ')
      (hr : Chain Executes Γ.enter rejected Γ'') :
      Executes Γ (.conditional condition accepted (some rejected)) Γ
  | loop {Γ Γ₁ Γ₂ Γ₃ : Env} {init update : Option Action} {test : Action} {body : List Action}
      (hi : Chain Executes Γ.enter init.toList Γ₁) (ht : HasType Γ₁ test .bool)
      (hu : Chain Executes Γ₁ update.toList Γ₂) (hb : Chain Executes Γ₂.enter body Γ₃) :
      Executes Γ (.loop init test update body) Γ
  | ret {Γ : Env} : Executes Γ (.ret none) Γ
  | retValue {Γ : Env} {e : Action} {t : Ty} (h : HasType Γ e t) : Executes Γ (.ret (some e)) Γ
  | nop {Γ : Env} : Executes Γ .nop Γ

/-- The environment at the top of a program, and the names of the functions that have a body. -/
structure Globals where
  env : Env := {}
  bodied : List Name := []

/-- A function has a name that is new, or repeats a declaration that has no body yet. -/
inductive Declares (G : Globals) (name : Name) (signature : Signature) : Env → Prop where
  | fresh (h : G.env.inner.fun? name = none) :
      Declares G name signature (G.env.addFun name signature)
  | repeated (h : G.env.inner.fun? name = some signature)
      (unbodied : ∀ b ∈ G.bodied, b.same name = false) : Declares G name signature G.env

/-- `Admits G a G'`: the item `a` of a program is well typed, and `G'` holds after it. A function
can be used in its own body, and its parameters have different names. -/
inductive Admits : Globals → Action → Globals → Prop where
  | lined {G G' : Globals} {a : Action} (line : Int) (h : Admits G a G') :
      Admits G (.lined line a) G'
  | statement {G : Globals} {s : Action} {Γ : Env} (h : Executes G.env s Γ) :
      Admits G s { G with env := Γ }
  | prototype {G : Globals} {returns : Ty} {name : Name} {params : List (Ty × Name)} {Γ : Env}
      (h : Declares G name ⟨params.map (·.1), returns⟩ Γ) :
      Admits G (.function returns name params none) { G with env := Γ }
  | definition {G : Globals} {returns : Ty} {name : Name} {params : List (Ty × Name)}
      {lines : List Action} {Γ Γ' : Env} (h : Declares G name ⟨params.map (·.1), returns⟩ Γ)
      (distinct : params.Pairwise fun p q => p.2.same q.2 = false)
      (body : Chain Executes (Γ.enterBody params) lines Γ') :
      Admits G (.function returns name params (some lines)) ⟨Γ, name :: G.bodied⟩

def WellTyped (program : List Action) : Prop := ∃ G, Chain Admits {} program G

end Treewright
