import Treewright.Builder
import Treewright.Proofs.Shape
set_option autoImplicit false

namespace Treewright

def Context.enter (c : Context) (name : Name) : Context := { c with table := c.table.enter name }

def Context.leave? (c : Context) : Option Context :=
  c.table.leave?.map fun table => { c with table }

theorem Context.depth_enter (c : Context) (name : Name) :
    (c.enter name).table.depth = c.table.depth + 1 := by
  simp [enter, Table.enter, Table.depth]

theorem Context.exists_leave {c : Context} {n : Nat} (h : c.table.depth = n + 1) :
    ∃ d, c.leave? = some d ∧ d.table.depth = n := by
  cases ho : c.table.outer with
  | nil => simp [Table.depth, ho] at h
  | cons scope outer =>
    refine ⟨{ c with table := { c.table with inner := scope, outer } }, ?_, ?_⟩
    · simp [leave?, Table.leave?, ho]
    · simpa [Table.depth, ho] using h

namespace Build

variable {α β : Type}

/-- How a step ends in a context, and the context that it leaves. -/
def exec (x : Build α) (c : Context) : Except Fault α × Context := x.run c

theorem exec_pure (a : α) (c : Context) : exec (pure a) c = (.ok a, c) := rfl

theorem exec_bind (x : Build α) (f : α → Build β) (c : Context) :
    exec (x >>= f) c =
      match exec x c with
      | (.ok a, d) => exec (f a) d
      | (.error e, d) => (.error e, d) := by
  change (match exec x c with | (r, d) => ExceptT.bindCont f r d) = _
  cases exec x c with
  | mk r d => cases r <;> rfl

theorem exec_get (c : Context) : exec get c = (.ok c, c) := rfl

theorem exec_set (c d : Context) : exec (set d) c = (.ok ⟨⟩, d) := rfl

theorem exec_modify (f : Context → Context) (c : Context) : exec (modify f) c = (.ok ⟨⟩, f c) := rfl

theorem exec_fail (fault : Fault) (c : Context) :
    exec (fail fault : Build α) c = (.error fault, c) := rfl

theorem exec_make (form : Context → Form Node × Context) (c : Context) :
    exec (make form) c = (.ok (.mk { line := c.line } (form c).1), (form c).2) := rfl

theorem exec_bind_ok {x : Build α} {f : α → Build β} {c d : Context} {b : β} :
    exec (x >>= f) c = (.ok b, d) ↔
      ∃ a e, exec x c = (.ok a, e) ∧ exec (f a) e = (.ok b, d) := by
  rw [exec_bind]
  cases exec x c with
  | mk r e =>
    cases r with
    | error fault => simp
    | ok a =>
      constructor
      · intro h
        exact ⟨a, e, rfl, h⟩
      · rintro ⟨_, _, h, hf⟩
        cases h
        exact hf

theorem exec_of_isOk {x : Build α} {c : Context} (h : (exec x c).1.isOk = true) :
    ∃ a, exec x c = (.ok a, (exec x c).2) := by
  cases hx : exec x c with
  | mk r d =>
    rw [hx] at h
    cases r with
    | ok a => exact ⟨a, rfl⟩
    | error fault => cases h

theorem exec_bind_snd {x : Build α} {f : α → Build β} {c : Context}
    (hf : ∀ a d, (exec (f a) d).2 = d) : (exec (x >>= f) c).2 = (exec x c).2 := by
  rw [exec_bind]
  cases exec x c with
  | mk r d =>
    cases r with
    | error fault => rfl
    | ok a => exact hf a d

theorem exec_inScope (name : Name) (x : Build α) (c : Context) :
    exec (inScope name x) c =
      match (exec x (c.enter name)).2.leave? with
      | some d => ((exec x (c.enter name)).1, d)
      | none => (.error (.misuse .leaveGlobal), (exec x (c.enter name)).2) := by
  cases hx : exec x (c.enter name) with
  | mk r d =>
    have hx : x { c with table := c.table.enter name } = (r, d) := hx
    change inScope name x c = _
    rw [inScope, hx]
    dsimp only
    unfold Context.leave?
    cases d.table.leave? with
    | none => rfl
    | some table => rfl

end Build

/-- The types that a variable can be declared with. -/
inductive Ty.Stored : Ty → Prop where
  | plain {type : Ty} (h : type.isWritten = true) : Ty.Stored type
  | array {element : Ty} (size : String) (h : element.isWritten = true) :
      Ty.Stored (.array element (.string size))

structure Steps (R : Context → Context → Prop) : Prop where
  refl (c : Context) : R c c
  trans {c d e : Context} (h : R c d) (h' : R d e) : R c e
  advance (c : Context) (line : Int) : R c (c.advanceTo line)
  report (c : Context) (problems : List Problem) : R c (c.report problems)
  declare (c : Context) (name : Name) {type : Ty} (line : Int) (h : type.Stored) :
    R c (c.declare name type line).2
  declareFunction (c : Context) (name : Name) {params : List (Ty × Value)} {returns : Ty}
    (line : Int) (hp : ∀ p ∈ params, p.1.isWritten = true) (hr : returns.isWritten = true) :
    R c (c.declareFunction name params returns line).2
  define {c : Context} {name : Name} {table : Table} (h : c.table.define? name = some table) :
    R c { c with table }
  scope {c d e : Context} {name : Name} (h : R (c.enter name) d) (hl : d.leave? = some e) : R c e

/-- What is asked of the steps of a build when only some lines may be moved to, and when the body of
a function has a relation of its own: it takes what a line does, and the marks of the function. -/
structure Contract (moves : Int → Prop) (R : Context → Context → Prop)
    (B : Name → Context → Context → Prop) : Prop where
  refl (c : Context) : R c c
  trans ⦃c d e : Context⦄ (h : R c d) (h' : R d e) : R c e
  advance (c : Context) {line : Int} (h : moves line) : R c (c.advanceTo line)
  report (c : Context) (problems : List Problem) : R c (c.report problems)
  declare (c : Context) (name : Name) {type : Ty} (line : Int) (h : type.Stored) :
    R c (c.declare name type line).2
  declareFunction (c : Context) (name : Name) {params : List (Ty × Value)} {returns : Ty}
    (line : Int) (hp : ∀ p ∈ params, p.1.isWritten = true) (hr : returns.isWritten = true) :
    R c (c.declareFunction name params returns line).2
  scope {c d e : Context} {name : Name} (h : R (c.enter name) d) (hl : d.leave? = some e) : R c e
  line {c d : Context} {name : Name} (h : R c d) : B name c d
  chain {name : Name} ⦃c d e : Context⦄ (h : B name c d) (h' : B name d e) : B name c e
  define {c : Context} {name : Name} {table : Table} (h : c.table.define? name = some table) :
    B name c { c with table }
  /-- The scope of a body stands in one that holds the function. -/
  body {c d e : Context} {name : Name} (hf : (c.table.inner.functionNamed name).isSome = true)
    (h : B name (c.enter name) d) (hl : d.leave? = some e) : R c e

theorem Steps.contract {R : Context → Context → Prop} (hR : Steps R) :
    Contract (fun _ => True) R fun _ => R where
  refl := hR.refl
  trans _ _ _ := hR.trans
  advance c line _ := hR.advance c line
  report := hR.report
  declare := hR.declare
  declareFunction := hR.declareFunction
  scope := hR.scope
  line h := h
  chain := hR.trans
  define := hR.define
  body _ := hR.scope

namespace Context

theorem depth_declare (c : Context) (name : Name) (type : Ty) (line : Int) :
    (c.declare name type line).2.table.depth = c.table.depth := by
  unfold declare
  cases h : c.table.declare? name type line with
  | none => rfl
  | some table =>
    unfold Table.declare? at h
    split at h
    · cases h
    · cases h
      rfl

theorem depth_declareFunction (c : Context) (name : Name) (params : List (Ty × Value))
    (returns : Ty) (line : Int) :
    (c.declareFunction name params returns line).2.table.depth = c.table.depth := by
  unfold declareFunction
  split
  · rename_i table h
    unfold Table.declareFunction? at h
    split at h
    · cases h
    · cases h
      rfl
  · split <;> rfl

theorem functionNamed_declareFunction (c : Context) (name : Name) (params : List (Ty × Value))
    (returns : Ty) (line : Int) :
    ((c.declareFunction name params returns line).2.table.inner.functionNamed name).isSome =
      true := by
  unfold declareFunction Table.declareFunction?
  cases h : c.table.inner.functionNamed name with
  | none => simp [Scope.functionNamed, List.find?_append]
  | some s =>
    simp only
    split
    · simp [h]
    · simp [h]

theorem depth_define {c : Context} {name : Name} {table : Table}
    (h : c.table.define? name = some table) : table.depth = c.table.depth := by
  unfold Table.define? at h
  obtain ⟨symbol, -, rfl⟩ := Option.map_eq_some_iff.mp h
  split <;> rfl

end Context

namespace Build

def Keeps {α : Type} (R : Context → Context → Prop) (x : Build α) : Prop :=
  ∀ c, R c (exec x c).2 ∧ (exec x c).2.table.depth = c.table.depth

section Keeps

variable {α β : Type} {moves : Int → Prop} {R : Context → Context → Prop}
  {B : Name → Context → Context → Prop}

theorem keeps_bind (trans : ∀ ⦃c d e⦄, R c d → R d e → R c e) {x : Build α} {f : α → Build β}
    (hx : Keeps R x) (hf : ∀ a, Keeps R (f a)) : Keeps R (x >>= f) := by
  intro c
  have h := hx c
  rw [exec_bind]
  cases hr : exec x c with
  | mk r d =>
    rw [hr] at h
    cases r with
    | error fault => exact h
    | ok a =>
      obtain ⟨hR', hd⟩ := hf a d
      exact ⟨trans h.1 hR', hd.trans h.2⟩

theorem keeps_modify {f : Context → Context} (h : ∀ c, R c (f c))
    (hd : ∀ c, (f c).table.depth = c.table.depth) : Keeps R (modify f : Build PUnit) := by
  intro c
  rw [exec_modify]
  exact ⟨h c, hd c⟩

theorem keeps_make {form : Context → Form Node × Context} (h : ∀ c, R c (form c).2)
    (hd : ∀ c, (form c).2.table.depth = c.table.depth) : Keeps R (make form) := by
  intro c
  rw [exec_make]
  exact ⟨h c, hd c⟩

theorem exec_inScope_of_depth {name : Name} {x : Build α} {c : Context}
    (hd : (exec x (c.enter name)).2.table.depth = (c.enter name).table.depth) :
    ∃ e, (exec x (c.enter name)).2.leave? = some e ∧ (exec (inScope name x) c).2 = e ∧
      e.table.depth = c.table.depth := by
  rw [Context.depth_enter] at hd
  obtain ⟨e, hl, he⟩ := Context.exists_leave hd
  refine ⟨e, hl, ?_, he⟩
  rw [exec_inScope, hl]

variable (hR : Contract moves R B)

include hR

theorem keeps_pure (a : α) : Keeps R (pure a : Build α) := fun c => ⟨hR.refl c, rfl⟩

theorem keeps_fail (fault : Fault) : Keeps R (fail fault : Build α) := fun c => ⟨hR.refl c, rfl⟩

theorem keeps_get {f : Context → Build β} (hf : ∀ a, Keeps R (f a)) :
    Keeps R ((get : Build Context) >>= f) :=
  keeps_bind hR.trans (fun c => ⟨hR.refl c, rfl⟩) hf

theorem keeps_inScope {name : Name} {x : Build α} (hx : Keeps R x) :
    Keeps R (inScope name x) := by
  intro c
  obtain ⟨h, hd⟩ := hx (c.enter name)
  obtain ⟨e, hl, hs, he⟩ := exec_inScope_of_depth hd
  rw [hs]
  exact ⟨hR.scope h hl, he⟩

theorem Keeps.line {name : Name} {x : Build α} (hx : Keeps R x) : Keeps (B name) x :=
  fun c => ⟨hR.line (hx c).1, (hx c).2⟩

theorem keeps_define (name : Name) (rejected : Bool) : Keeps (B name) (define name rejected) := by
  intro c
  cases rejected with
  | true => exact ⟨hR.line (hR.refl c), rfl⟩
  | false =>
    cases h : c.table.define? name with
    | none =>
      have he : exec (define name false) c = (.error (.misuse (.defineUndeclared name)), c) := by
        simp [define, exec_bind, exec_get, h, exec_fail]
      rw [he]
      exact ⟨hR.line (hR.refl c), rfl⟩
    | some table =>
      have he : exec (define name false) c = (.ok ⟨⟩, { c with table }) := by
        simp [define, exec_bind, exec_get, h, exec_set]
      rw [he]
      exact ⟨hR.define h, Context.depth_define h⟩

theorem keeps_declareParams {params : List (Ty × Name)} (h : ∀ p ∈ params, p.1.isWritten = true) :
    Keeps R (declareParams params) := by
  induction params with
  | nil => exact keeps_pure hR PUnit.unit
  | cons p params ih =>
    have hp : p.1.Stored := .plain (h p (by simp))
    refine keeps_bind hR.trans (keeps_modify (fun c => hR.declare c p.2 c.line hp)
      (fun c => Context.depth_declare c p.2 p.1 c.line)) fun _ => ?_
    exact ih fun q hq => h q (by simp [hq])

theorem keeps_sizeText (size : Node) : Keeps R (sizeText size) := by
  unfold sizeText
  cases size.render 0 with
  | ok text => exact keeps_pure hR text
  | error fault => exact keeps_fail hR _

theorem keeps_reporter {form : Context → Form Node × Context}
    (h : ∀ c, ∃ problems, (form c).2 = c.report problems) : Keeps R (make form) := by
  intro c
  obtain ⟨problems, he⟩ := h c
  rw [exec_make, he]
  exact ⟨hR.report c problems, rfl⟩

theorem keeps_binding {type : Ty} (h : type.isWritten = true) (name : Name)
    (value : Option (Node × Operand)) : Keeps R (make (Form.ofBinding type name value)) := by
  intro c
  rw [exec_make]
  refine ⟨hR.trans (hR.declare c name c.line (.plain h)) (hR.report _ _), ?_⟩
  exact Context.depth_declare c name type c.line

theorem keeps_arrayDecl {type : Ty} (h : type.isWritten = true) (name : Name) (size : String) :
    Keeps R (make (Form.ofArrayDecl type name size)) :=
  keeps_make (fun c => hR.declare c name c.line (.array size h))
    fun c => Context.depth_declare c name _ c.line

end Keeps
end Build

open Build

theorem Node.map_fst_seen (nodes : List Node) : (nodes.map Node.seen).map (·.1) = nodes := by
  simp [Node.seen, Function.comp_def]

/-- The node of an action over the nodes of its operands, and the context after its check. -/
def Action.made (action : Action) (nodes : List Node) (c : Context) : Node × Context :=
  let mark : Mark := { line := c.line }
  match action, nodes with
  | .arrayDecl type name size, _ => (Form.ofArrayDecl type name size c).map (.mk mark) id
  | .variable name, _ => (Form.ofVariable name c).map (.mk mark) id
  | .constant type value, _ => (.mk mark (.constant type value), c)
  | .operation op _, nodes =>
    let (style, op) := styleOf op nodes.length
    (Form.ofOperation style op none (nodes.map Node.seen) c).map (.mk mark) id
  | .paren _, nodes =>
    (Form.ofOperation .paren .par none (nodes.map Node.seen) c).map (.mk mark) id
  | .cast target _, nodes =>
    (Form.ofOperation (.cast target) .cast none (nodes.map Node.seen) c).map (.mk mark) id
  | .assign _ _, [target, value] =>
    (Form.ofAssignment target.seen value.seen c).map (.mk mark) id
  | .ret _, nodes => (.mk mark (.ret nodes.head?), c)
  | .call name _, nodes =>
    (Form.ofCall name (.mk {} (.arguments nodes)) (nodes.map Node.operand) c).map (.mk mark) id
  | .access name _, [index] => (Form.ofAccess name index.seen c).map (.mk mark) id
  | .address _, [operand] =>
    (.mk { line := operand.line } (.ofWrapper .address operand.seen), c)
  | .reference _, [operand] =>
    (.mk { line := operand.line } (.ofWrapper .reference operand.seen), c)
  | _, _ => (.mk mark .nop, c)

theorem length_of_exec_buildAll {items : List Action} {c d : Context} {nodes : List Node}
    (h : exec (buildAll items) c = (.ok nodes, d)) : nodes.length = items.length := by
  induction items generalizing c nodes with
  | nil =>
    rw [buildAll, exec_pure] at h
    cases h
    rfl
  | cons a items ih =>
    rw [buildAll] at h
    obtain ⟨n, e, -, h⟩ := exec_bind_ok.mp h
    obtain ⟨ns, e', hs, h⟩ := exec_bind_ok.mp h
    cases h
    simp [ih hs]

theorem exec_build_of_operands {action : Action} {items : List Action}
    (h : action.operands? = some items) (c : Context) :
    exec (build action) c =
      match exec (buildAll items) c with
      | (.ok nodes, d) => (.ok (action.made nodes d).1, (action.made nodes d).2)
      | (.error fault, d) => (.error fault, d) := by
  unfold Action.operands? at h
  split at h <;> cases h
  case h_1 | h_2 | h_3 | h_4 => rw [build, buildAll]; rfl
  case h_6 op a as =>
    rw [build, exec_bind]
    cases hr : exec (buildAll (a :: as)) c with
    | mk r d =>
      cases r with
      | error fault => rfl
      | ok nodes =>
        have hne : nodes.isEmpty = false := by
          have hl := length_of_exec_buildAll hr
          cases nodes with
          | nil => simp at hl
          | cons n ns => rfl
        simp only [operation, hne]
        rfl
  case h_7 name =>
    rw [build, exec_bind]
    cases exec (buildAll items) c with
    | mk r d => cases r <;> rfl
  case h_8 a | h_9 t a | h_10 name a | h_11 a | h_12 a =>
    simp only [build, buildAll, exec_bind, exec_pure]
    cases exec (build a) c with
    | mk r d => cases r <;> rfl
  case h_13 target value =>
    simp only [build, buildAll, exec_bind, exec_pure]
    cases exec (build target) c with
    | mk r d =>
      cases r with
      | error fault => rfl
      | ok node =>
        simp only
        cases exec (build value) d with
        | mk r d => cases r <;> rfl
  case h_14 operand =>
    cases operand with
    | none => rw [build, buildOption]; rfl
    | some a =>
      simp only [build, buildOption, Option.toList, buildAll, exec_bind, exec_pure]
      cases exec (build a) c with
      | mk r d => cases r <;> rfl

theorem made_cases (action : Action) (nodes : List Node) (c : Context) :
    (∃ problems, (action.made nodes c).2 = c.report problems) ∨
      ∃ type name size, action = .arrayDecl type name size ∧
        (action.made nodes c).2 = (c.declare name (.array type (.string size)) c.line).2 := by
  unfold Action.made
  split
  case h_1 type name size => exact .inr ⟨type, name, size, rfl, rfl⟩
  case h_3 | h_8 | h_11 | h_12 | h_13 => exact .inl ⟨[], rfl⟩
  all_goals exact .inl ⟨_, rfl⟩

theorem Contract.made {moves : Int → Prop} {R : Context → Context → Prop}
    {B : Name → Context → Context → Prop} (hR : Contract moves R B) (action : Action)
    (proper : action.Proper) (nodes : List Node) (c : Context) : R c (action.made nodes c).2 := by
  rcases made_cases action nodes c with ⟨problems, hm⟩ | ⟨type, name, size, rfl, hm⟩
  · rw [hm]
    exact hR.report c problems
  · rw [hm]
    exact hR.declare c name c.line (.array size proper)

theorem Steps.made {R : Context → Context → Prop} (hR : Steps R) (action : Action)
    (proper : action.Proper) (nodes : List Node) (c : Context) : R c (action.made nodes c).2 :=
  hR.contract.made action proper nodes c

theorem depth_made (action : Action) (nodes : List Node) (c : Context) :
    (action.made nodes c).2.table.depth = c.table.depth := by
  rcases made_cases action nodes c with ⟨problems, hm⟩ | ⟨type, name, size, rfl, hm⟩
  · rw [hm]
    rfl
  · rw [hm]
    exact c.depth_declare name _ c.line

def signatureOf (params : List (Ty × Name)) : List (Ty × Value) :=
  params.map fun p => (p.1, p.2.toValue)

def functionNode (line : Int) (returns : Ty) (name : Name) (params : List (Ty × Name))
    (rejected : Bool) (body : Option Node) : Node :=
  .mk { line } (.function returns name.toValue (some (.mk {} (.signature (signatureOf params))))
    body rejected)

theorem exec_build_function (returns : Ty) (name : Name) (params : List (Ty × Name))
    (body : Option (List Action)) (c : Context) :
    exec (build (.function returns name params body)) c =
      let bound := c.declareFunction name (signatureOf params) returns c.line
      match exec (buildBody name params bound.1 body) bound.2 with
      | (.ok node, d) => (.ok (functionNode c.line returns name params bound.1 node), d)
      | (.error fault, d) => (.error fault, d) := by
  simp only [build, exec_bind, exec_get, exec_set, exec_pure, signatureOf, functionNode]
  generalize exec (buildBody _ _ _ _) _ = result
  obtain ⟨r, d⟩ := result
  cases r <;> rfl

section Builds

variable {moves : Int → Prop} {R : Context → Context → Prop}
  {B : Name → Context → Context → Prop} {allowed : Policy}

theorem keeps_buildAll (hR : Contract moves R B) {items : List Action}
    (h : ∀ a ∈ items, Keeps R (build a)) : Keeps R (buildAll items) := by
  induction items with
  | nil => rw [buildAll]; exact keeps_pure hR []
  | cons a items ih =>
    rw [buildAll]
    refine keeps_bind hR.trans (h a (by simp)) fun n => ?_
    exact keeps_bind hR.trans (ih fun b hb => h b (by simp [hb])) fun ns => keeps_pure hR (n :: ns)

theorem keeps_buildOption (hR : Contract moves R B) {item : Option Action}
    (h : ∀ a ∈ item.toList, Keeps R (build a)) : Keeps R (buildOption item) := by
  cases item with
  | none => rw [buildOption]; exact keeps_pure hR none
  | some a =>
    rw [buildOption]
    exact keeps_bind hR.trans (h a (by simp)) fun n => keeps_pure hR (some n)

theorem keeps_buildBranch (hR : Contract moves R B) {lines : Option (List Action)}
    (h : ∀ a ∈ lines.getD [], Keeps R (build a)) : Keeps R (buildBranch lines) := by
  cases lines with
  | none => rw [buildBranch]; exact keeps_pure hR none
  | some lines =>
    rw [buildBranch]
    exact keeps_bind hR.trans (keeps_inScope hR (keeps_buildAll hR h)) fun ns => keeps_pure hR _

theorem keeps_buildBindings (hR : Contract moves R B) {type : Ty} (ht : type.isWritten = true)
    {bindings : List (Name × Option Action)}
    (h : ∀ b ∈ bindings, ∀ a ∈ b.2, Keeps R (build a)) : Keeps R (buildBindings type bindings) := by
  induction bindings with
  | nil => rw [buildBindings]; exact keeps_pure hR []
  | cons b bindings ih =>
    have hrest := ih fun b' hb' => h b' (by simp [hb'])
    obtain ⟨name, value⟩ := b
    cases value with
    | none =>
      rw [buildBindings]
      refine keeps_bind hR.trans (keeps_binding hR ht name none) fun n => ?_
      exact keeps_bind hR.trans hrest fun ns => keeps_pure hR (n :: ns)
    | some value =>
      rw [buildBindings]
      refine keeps_bind hR.trans (h (name, some value) (by simp) value rfl) fun v => ?_
      refine keeps_bind hR.trans (keeps_binding hR ht name _) fun n => ?_
      exact keeps_bind hR.trans hrest fun ns => keeps_pure hR (n :: ns)

theorem keeps_buildLines (hR : Contract moves R B) {lines : List Action} (name : Name)
    (rejected : Bool) (h : ∀ a ∈ lines, Keeps R (build a)) :
    Keeps (B name) (buildLines name rejected lines) := by
  induction lines with
  | nil => rw [buildLines]; exact (keeps_pure hR []).line hR
  | cons a lines ih =>
    rw [buildLines]
    refine keeps_bind hR.chain ((h a (by simp)).line hR) fun n => ?_
    refine keeps_bind hR.chain (keeps_define hR name rejected) fun _ => ?_
    refine keeps_bind hR.chain (ih fun b hb => h b (by simp [hb])) fun ns => ?_
    exact (keeps_pure hR (n :: ns)).line hR

theorem keeps_buildBody (hR : Contract moves R B) {params : List (Ty × Name)}
    (hp : ∀ p ∈ params, p.1.isWritten = true) {body : Option (List Action)} (name : Name)
    (rejected : Bool) (h : ∀ a ∈ body.getD [], Keeps R (build a)) {c : Context}
    (hf : (c.table.inner.functionNamed name).isSome = true) :
    R c (exec (buildBody name params rejected body) c).2 ∧
      (exec (buildBody name params rejected body) c).2.table.depth = c.table.depth := by
  cases body with
  | none => rw [buildBody]; exact keeps_pure hR none c
  | some lines =>
    have hb : Keeps (B name) (do
        declareParams params
        let lines ← buildLines name rejected lines
        if lines.isEmpty then
          define name rejected
          return [.mk {} .nop]
        return lines) := by
      refine keeps_bind hR.chain ((keeps_declareParams hR hp).line hR) fun _ => ?_
      refine keeps_bind hR.chain (keeps_buildLines hR name rejected h) fun ns => ?_
      split
      · refine keeps_bind hR.chain (keeps_define hR name rejected) fun _ => ?_
        exact (keeps_pure hR _).line hR
      · exact (keeps_pure hR ns).line hR
    obtain ⟨hB, hd⟩ := hb (c.enter name)
    obtain ⟨e, hl, hs, he⟩ := exec_inScope_of_depth hd
    rw [buildBody, exec_bind_snd, hs]
    · exact ⟨hR.body hf hB hl, he⟩
    · exact fun _ _ => rfl

theorem keeps_of_operands (hR : Contract moves R B) {action : Action} {items : List Action}
    (h : action.operands? = some items) (proper : action.Proper)
    (hi : ∀ a ∈ items, Keeps R (build a)) : Keeps R (build action) := by
  intro c
  obtain ⟨hr, hd⟩ := keeps_buildAll hR hi c
  rw [exec_build_of_operands h]
  cases he : exec (buildAll items) c with
  | mk r d =>
    rw [he] at hr hd
    cases r with
    | error fault => exact ⟨hr, hd⟩
    | ok nodes =>
      exact ⟨hR.trans hr (hR.made action proper nodes d), (depth_made action nodes d).trans hd⟩

theorem Contract.opensScope (hR : Contract moves R B) {action : Action}
    (h : action.opensScope = true) (ih : ∀ part ∈ action.parts, Keeps R (build part.2)) :
    ∃ (α : Type) (x : Build α) (f : α → Build Node), build action = inScope .nothing x >>= f ∧
      Keeps R x ∧ ∀ a d, ∃ problems, (exec (f a) d).2 = d.report problems := by
  cases action <;> simp only [Action.opensScope, Bool.false_eq_true] at h
  case block lines =>
    refine ⟨_, _, _, by rw [build], ?_, fun _ _ => ⟨[], rfl⟩⟩
    refine keeps_buildAll hR fun a ha => ih (.statement, a) ?_
    simpa [Action.parts] using ha
  case loop init test update body =>
    have hh : ∀ a ∈ init.toList ++ update.toList, Keeps R (build a) := fun a ha =>
      ih (.header, a) (Action.mem_parts_header ha)
    refine ⟨_, _, _, by rw [build], ?_, fun _ _ => ⟨_, rfl⟩⟩
    refine keeps_bind hR.trans (keeps_buildOption hR fun a ha => hh a (by simp [ha])) fun _ => ?_
    refine keeps_bind hR.trans (ih (.expression, test) (by simp [Action.parts])) fun _ => ?_
    refine keeps_bind hR.trans (keeps_buildOption hR fun a ha => hh a (by simp [ha])) fun _ => ?_
    refine keeps_bind hR.trans (keeps_inScope hR (keeps_buildAll hR fun a ha => ?_)) fun _ =>
      keeps_pure hR _
    exact ih (.statement, a) (by simp [Action.parts, ha])

theorem keeps_of_opensScope (hR : Contract moves R B) {action : Action}
    (h : action.opensScope = true) (ih : ∀ part ∈ action.parts, Keeps R (build part.2)) :
    Keeps R (build action) := by
  obtain ⟨α, x, f, he, hx, hf⟩ := hR.opensScope h ih
  rw [he]
  refine keeps_bind hR.trans (keeps_inScope hR hx) fun a d => ?_
  obtain ⟨problems, hp⟩ := hf a d
  rw [hp]
  exact ⟨hR.report d problems, rfl⟩

theorem Contract.keeps_build (hR : Contract moves R B) {action : Action} {position : Position}
    (h : action.Fits allowed position) (hm : ∀ line, action.Says line → moves line) :
    Keeps R (build action) := by
  induction h with
  | @lined position action line h ih =>
    rw [build]
    have hl : moves line := hm line (.here action)
    refine keeps_bind hR.trans (keeps_modify (fun c => hR.advance c hl) fun _ => rfl) fun _ => ?_
    exact ih fun line' h' => hm line' (h'.lined line)
  | @intro position action unlined here proper inside ih =>
    replace ih : ∀ part ∈ action.parts, Keeps R (build part.2) := fun part hp =>
      ih part hp fun line h' => hm line (.inside hp h')
    cases ho : action.operands? with
    | some items =>
      refine keeps_of_operands hR ho proper fun a ha => ?_
      exact ih (.expression, a) (Action.mem_parts_of_operands? ho ha)
    | none =>
      cases action <;> simp only [Action.operands?, Action.isLined, reduceCtorEq] at ho unlined
      case faulty before flaw =>
        rw [build]
        refine keeps_bind hR.trans (keeps_buildAll hR fun a ha => ?_) fun _ => keeps_fail hR _
        exact ih (.item, a) (by simpa [Action.parts] using ha)
      case declaration type kind symbolType bindings =>
        rw [build]
        refine keeps_get hR fun c => keeps_bind hR.trans ?_ fun _ => keeps_pure hR _
        refine keeps_buildBindings hR proper fun b hb a ha => ih (.expression, a) ?_
        exact Action.mem_parts_binding hb (Option.mem_toList.mpr ha)
      case sizedArray type name size =>
        rw [build]
        refine keeps_bind hR.trans (ih (.size, size) (by simp [Action.parts])) fun node => ?_
        refine keeps_bind hR.trans (keeps_sizeText hR node) fun text => ?_
        exact keeps_arrayDecl hR proper name text
      case operation op items => cases (Action.operands?_operation proper).symm.trans ho
      case block lines => exact keeps_of_opensScope hR rfl ih
      case conditional condition accepted rejected =>
        have hs : ∀ a ∈ accepted ++ rejected.getD [], Keeps R (build a) := by
          intro a ha
          exact ih (.statement, a) (by simpa [Action.parts] using ha)
        rw [build]
        have hcondition := ih (.expression, condition) (by simp [Action.parts])
        refine keeps_bind hR.trans hcondition fun _ => ?_
        refine keeps_bind hR.trans (keeps_inScope hR (keeps_buildAll hR fun a ha => ?_)) fun _ => ?_
        · exact hs a (by simp [ha])
        · refine keeps_bind hR.trans (keeps_buildBranch hR fun a ha => hs a (by simp [ha])) ?_
          exact fun _ => keeps_reporter hR fun c => ⟨_, rfl⟩
      case loop init test update body => exact keeps_of_opensScope hR rfl ih
      case function returns name params body =>
        obtain ⟨hr, hp⟩ := proper
        intro c
        have hs : ∀ p ∈ signatureOf params, p.1.isWritten = true := by
          intro p hp'
          obtain ⟨q, hq, rfl⟩ := List.mem_map.mp hp'
          exact hp q hq
        have h := hR.declareFunction c name c.line hs hr
        have hd := c.depth_declareFunction name (signatureOf params) returns c.line
        have hf := c.functionNamed_declareFunction name (signatureOf params) returns c.line
        rw [exec_build_function]
        generalize c.declareFunction name (signatureOf params) returns c.line = bound at h hd hf
        obtain ⟨h', hd'⟩ : R bound.2 (exec (buildBody name params bound.1 body) bound.2).2 ∧ _ := by
          refine keeps_buildBody hR hp name bound.1 (fun a ha => ih (.statement, a) ?_) hf
          simpa [Action.parts] using ha
        simp only
        cases he : exec (buildBody name params bound.1 body) bound.2 with
        | mk r d =>
          rw [he] at h' hd'
          cases r with
          | error fault => exact ⟨hR.trans h h', hd'.trans hd⟩
          | ok node => exact ⟨hR.trans h h', hd'.trans hd⟩

theorem keeps_build (hR : Steps R) {action : Action} {position : Position}
    (h : action.Fits allowed position) : Keeps R (build action) :=
  hR.contract.keeps_build h fun _ _ => trivial

end Builds
end Treewright
