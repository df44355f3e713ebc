import Mathlib.Data.List.Forall2
import Treewright.Proofs.Documents
import Treewright.Proofs.Run
set_option autoImplicit false

/-!
Two builds, side by side. The contexts that they start from are related, the nodes that they make
are related, and both end alike, be it well or with a fault. Scopes, branches, loops and bodies are
gone through here once; a coupling says what the primitive steps and the makers of nodes do to the
two relations. In a simulation, both builds are of one action.
-/

namespace Treewright

open Build

inductive Ends {α : Type} (S : Context → Context → Prop) (V : α → α → Prop) :
    Except Fault α × Context → Except Fault α × Context → Prop where
  | ok {a b : α} {d e : Context} (hv : V a b) (hs : S d e) : Ends S V (.ok a, d) (.ok b, e)
  | error {d e : Context} (fault : Fault) (hs : S d e) :
      Ends S V (.error fault, d) (.error fault, e)

theorem Ends.context {α : Type} {S : Context → Context → Prop} {V : α → α → Prop}
    {p q : Except Fault α × Context} (h : Ends S V p q) : S p.2 q.2 := by
  cases h with
  | ok _ hs => exact hs
  | error _ hs => exact hs

def Couples {α : Type} (S : Context → Context → Prop) (V : α → α → Prop) (x y : Build α) : Prop :=
  ∀ c c', S c c' → Ends S V (exec x c) (exec y c')

abbrev Coupled (S : Context → Context → Prop) (V : Node → Node → Prop) (a b : Action) : Prop :=
  Couples S V (build a) (build b)

namespace Couples

variable {α β : Type} {S : Context → Context → Prop} {V : α → α → Prop} {W : β → β → Prop}

theorem imp {V' : α → α → Prop} {x y : Build α} (h : Couples S V x y)
    (hV : ∀ a b, V a b → V' a b) : Couples S V' x y := by
  intro c c' hs
  have hp := h c c' hs
  generalize exec x c = p at hp ⊢
  generalize exec y c' = q at hp ⊢
  cases hp with
  | ok hv hs => exact .ok (hV _ _ hv) hs
  | error fault hs => exact .error fault hs

theorem pure {a b : α} (h : V a b) : Couples S V (pure a) (pure b) := fun _ _ hs => .ok h hs

theorem fail (fault : Fault) : Couples S V (fail fault : Build α) (fail fault) :=
  fun _ _ hs => .error fault hs

theorem bind {x y : Build α} {f g : α → Build β} (hx : Couples S V x y)
    (hf : ∀ a b, V a b → Couples S W (f a) (g b)) : Couples S W (x >>= f) (y >>= g) := by
  intro c c' h
  have hp := hx c c' h
  rw [exec_bind, exec_bind]
  generalize exec x c = p at hp ⊢
  generalize exec y c' = q at hp ⊢
  cases hp with
  | ok hv hs => exact hf _ _ hv _ _ hs
  | error fault hs => exact .error fault hs

theorem get_bind {f g : Context → Build β}
    (hf : ∀ c c', S c c' → Ends S W (exec (f c) c) (exec (g c') c')) :
    Couples S W ((get : Build Context) >>= f) ((get : Build Context) >>= g) := by
  intro c c' h
  rw [exec_bind, exec_bind, exec_get, exec_get]
  exact hf c c' h

theorem modify {f : Context → Context} (h : ∀ c c', S c c' → S (f c) (f c')) :
    Couples S (fun _ _ => True) (modify f : Build PUnit) (modify f) :=
  fun c c' hs => .ok trivial (h c c' hs)

section Nodes

variable {V : Node → Node → Prop}

theorem all {as bs : List Action} (h : List.Forall₂ (Coupled S V) as bs) :
    Couples S (List.Forall₂ V) (buildAll as) (buildAll bs) := by
  induction h with
  | nil =>
    rw [buildAll]
    exact .pure .nil
  | cons ha _ ih =>
    rw [buildAll, buildAll]
    refine .bind ha fun n n' hn => ?_
    exact .bind ih fun ns ns' hns => .pure (.cons hn hns)

theorem option {a b : Option Action} (h : Option.Rel (Coupled S V) a b) :
    Couples S (Option.Rel V) (buildOption a) (buildOption b) := by
  cases h with
  | none =>
    rw [buildOption]
    exact .pure .none
  | some ha =>
    rw [buildOption, buildOption]
    exact .bind ha fun n n' hn => .pure (.some hn)

theorem of_operands {a b : Action} {as bs : List Action} (ha : a.operands? = some as)
    (hb : b.operands? = some bs) (h : List.Forall₂ (Coupled S V) as bs)
    (made : ∀ ns ns' c c', ns.length = as.length → List.Forall₂ V ns ns' → S c c' →
      V (a.made ns c).1 (b.made ns' c').1 ∧ S (a.made ns c).2 (b.made ns' c').2) :
    Coupled S V a b := by
  intro c c' hs
  have hp := Couples.all h c c' hs
  rw [exec_build_of_operands ha, exec_build_of_operands hb]
  generalize hx : exec (buildAll as) c = p at hp ⊢
  generalize exec (buildAll bs) c' = q at hp ⊢
  cases hp with
  | error fault hs => exact .error fault hs
  | ok hns hs =>
    obtain ⟨hn, hs⟩ := made _ _ _ _ (length_of_exec_buildAll hx) hns hs
    exact .ok hn hs

end Nodes

end Couples

/-- What is asked of relations between contexts and between nodes so that builds of actions keep to
them when the builds of the actions within do. -/
structure Coupling (S : Context → Context → Prop) (V : Node → Node → Prop) : Prop where
  advance {c c' : Context} (h : S c c') (line : Int) : S (c.advanceTo line) (c'.advanceTo line)
  enter {c c' : Context} (h : S c c') (name : Name) : S (c.enter name) (c'.enter name)
  leave {c c' : Context} (h : S c c') : Option.Rel S c.leave? c'.leave?
  param {c c' : Context} (h : S c c') (name : Name) {type : Ty} (ht : type.isWritten = true) :
    S (c.declare name type c.line).2 (c'.declare name type c'.line).2
  declareFunction {c c' : Context} (h : S c c') (name : Name) {params : List (Ty × Value)}
    {returns : Ty} (hp : ∀ p ∈ params, p.1.isWritten = true) (hr : returns.isWritten = true) :
    (c.declareFunction name params returns c.line).1 =
        (c'.declareFunction name params returns c'.line).1 ∧
      S (c.declareFunction name params returns c.line).2
        (c'.declareFunction name params returns c'.line).2
  define {c c' : Context} (h : S c c') (name : Name) :
    Option.Rel (fun t t' => S { c with table := t } { c' with table := t' })
      (c.table.define? name) (c'.table.define? name)
  made {action : Action} {items : List Action} (ho : action.operands? = some items)
    (proper : action.Proper) {ns ns' : List Node} (hl : ns.length = items.length)
    (hn : List.Forall₂ V ns ns') {c c' : Context} (h : S c c') :
    V (action.made ns c).1 (action.made ns' c').1 ∧ S (action.made ns c).2 (action.made ns' c').2
  bound {type : Ty} (ht : type.isWritten = true) (name : Name) {value value' : Option Node}
    (hv : Option.Rel V value value') {c c' : Context} (h : S c c') :
    V (boundNode type name value c).1 (boundNode type name value' c').1 ∧
      S (boundNode type name value c).2 (boundNode type name value' c').2
  declaration {type : Ty} (ht : type.isWritten = true) (kind symbolType : String)
    {ns ns' : List Node} (hn : List.Forall₂ V ns ns') {c c' : Context} (h : S c c') :
    V (.mk { line := c.line } (.declaration type kind symbolType ns))
      (.mk { line := c'.line } (.declaration type kind symbolType ns'))
  block (title : String) {ns ns' : List Node} (hn : List.Forall₂ V ns ns') :
    V (block title ns) (block title ns')
  conditional {n n' b b' : Node} (hn : V n n') (hb : V b b') {r r' : Option Node}
    (hr : Option.Rel V r r') {c c' : Context} (h : S c c') :
    V (conditionalNode n b r c).1 (conditionalNode n' b' r' c').1 ∧
      S (conditionalNode n b r c).2 (conditionalNode n' b' r' c').2
  loop {i i' u u' : Option Node} (hi : Option.Rel V i i') {n n' : Node} (hn : V n n')
    (hu : Option.Rel V u u') {b b' : Node} (hb : V b b') {c c' : Context} (h : S c c') :
    V (loopNode i n u b c).1 (loopNode i' n' u' b' c').1 ∧
      S (loopNode i n u b c).2 (loopNode i' n' u' b' c').2
  function {returns : Ty} (hr : returns.isWritten = true) (name : Name)
    (params : List (Ty × Name)) (rejected : Bool) {b b' : Option Node} (hb : Option.Rel V b b')
    {c c' : Context} (h : S c c') :
    V (functionNode c.line returns name params rejected b)
      (functionNode c'.line returns name params rejected b')
  nop : V (.mk {} .nop) (.mk {} .nop)

namespace Coupling

variable {S : Context → Context → Prop} {V : Node → Node → Prop} (hS : Coupling S V)

include hS

theorem inScope {α : Type} {W : α → α → Prop} (name : Name) {x y : Build α}
    (h : Couples S W x y) : Couples S W (inScope name x) (inScope name y) := by
  intro c c' hs
  have hp := h _ _ (hS.enter hs name)
  rw [exec_inScope, exec_inScope]
  generalize exec x (c.enter name) = p at hp ⊢
  generalize exec y (c'.enter name) = q at hp ⊢
  have hl := hS.leave hp.context
  generalize p.2.leave? = l at hl ⊢
  generalize q.2.leave? = l' at hl ⊢
  cases hl with
  | none =>
    simp only
    exact .error _ hp.context
  | some hs =>
    cases hp with
    | ok hv _ => exact .ok hv hs
    | error fault _ => exact .error fault hs

theorem defineStep (name : Name) (rejected : Bool) :
    Couples S (fun _ _ => True) (Build.define name rejected)
      (Build.define name rejected) := by
  intro c c' hs
  cases rejected with
  | true => exact .ok trivial hs
  | false =>
    have hd := hS.define hs name
    simp only [Build.define, Bool.false_eq_true, if_false, exec_bind, exec_get]
    generalize c.table.define? name = t at hd ⊢
    generalize c'.table.define? name = t' at hd ⊢
    cases hd with
    | none => exact .error _ hs
    | some hs => exact .ok trivial hs

theorem params {params : List (Ty × Name)} (h : ∀ p ∈ params, p.1.isWritten = true) :
    Couples S (fun _ _ => True) (declareParams params) (declareParams params) := by
  induction params with
  | nil => exact .pure trivial
  | cons p params ih =>
    refine .bind (.modify fun c c' hs => hS.param hs p.2 (h p (by simp))) fun _ _ _ => ?_
    exact ih fun q hq => h q (by simp [hq])

theorem blocks (title : String) {as bs : List Action} (h : List.Forall₂ (Coupled S V) as bs) :
    Couples S (fun ns ns' => V (Build.block title ns) (Build.block title ns'))
      (Build.inScope .nothing (buildAll as)) (Build.inScope .nothing (buildAll bs)) := by
  have hall := hS.inScope .nothing (.all h)
  exact hall.imp fun _ _ hns => hS.block title hns

theorem branch {as bs : Option (List Action)} (h : Option.Rel (List.Forall₂ (Coupled S V)) as bs) :
    Couples S (Option.Rel V) (buildBranch as) (buildBranch bs) := by
  cases h with
  | none =>
    rw [buildBranch]
    exact .pure .none
  | some h =>
    rw [buildBranch, buildBranch]
    exact .bind (hS.blocks "Else Branch" h) fun ns ns' hns => .pure (.some hns)

theorem bindings {type : Ty} (ht : type.isWritten = true) {as bs : List (Name × Option Action)}
    (h : List.Forall₂ (fun a b => a.1 = b.1 ∧ Option.Rel (Coupled S V) a.2 b.2) as bs) :
    Couples S (List.Forall₂ V) (buildBindings type as) (buildBindings type bs) := by
  -- The node of a binding is made over the initial value, when there is one.
  have step {value value' : Option Node} (hv : Option.Rel V value value') (name : Name) :
      Couples S V (make (Form.ofBinding type name (value.map Node.seen)))
        (make (Form.ofBinding type name (value'.map Node.seen))) := by
    intro c c' hs
    obtain ⟨hn, hs⟩ := hS.bound ht name hv hs
    exact .ok hn hs
  induction h with
  | nil =>
    rw [buildBindings]
    exact .pure .nil
  | @cons a b as bs hb _ ih =>
    obtain ⟨name, value⟩ := a
    obtain ⟨name', value'⟩ := b
    obtain ⟨rfl, hv⟩ := hb
    cases hv with
    | none =>
      rw [buildBindings, buildBindings]
      refine .bind (step .none name) fun n n' hn => ?_
      exact .bind ih fun ns ns' hns => .pure (.cons hn hns)
    | some hv =>
      rw [buildBindings, buildBindings]
      refine .bind hv fun v v' hv => ?_
      refine .bind (step (.some hv) name) fun n n' hn => ?_
      exact .bind ih fun ns ns' hns => .pure (.cons hn hns)

theorem lines (name : Name) (rejected : Bool) {as bs : List Action}
    (h : List.Forall₂ (Coupled S V) as bs) :
    Couples S (List.Forall₂ V) (buildLines name rejected as) (buildLines name rejected bs) := by
  induction h with
  | nil =>
    rw [buildLines]
    exact .pure .nil
  | cons ha _ ih =>
    rw [buildLines, buildLines]
    refine .bind ha fun n n' hn => ?_
    refine .bind (hS.defineStep name rejected) fun _ _ _ => ?_
    exact .bind ih fun ns ns' hns => .pure (.cons hn hns)

theorem body {params : List (Ty × Name)} (hp : ∀ p ∈ params, p.1.isWritten = true) (name : Name)
    (rejected : Bool) {as bs : Option (List Action)}
    (h : Option.Rel (List.Forall₂ (Coupled S V)) as bs) :
    Couples S (Option.Rel V) (buildBody name params rejected as)
      (buildBody name params rejected bs) := by
  cases h with
  | none =>
    rw [buildBody]
    exact .pure .none
  | some h =>
    rw [buildBody, buildBody]
    refine .bind (V := List.Forall₂ V) (hS.inScope name ?_) fun ns ns' hns =>
      .pure (.some (hS.block "Body" hns))
    refine .bind (hS.params hp) fun _ _ _ => ?_
    refine .bind (hS.lines name rejected h) fun ns ns' hns => ?_
    cases hns with
    | nil => exact .bind (hS.defineStep name rejected) fun _ _ _ => .pure (.cons hS.nop .nil)
    | cons hn hns => exact .pure (.cons hn hns)

/-! One lemma for each kind of action with more than a check. -/

theorem coupled_lined (line : Int) {a b : Action} (h : Coupled S V a b) :
    Coupled S V (.lined line a) (.lined line b) := by
  rw [Coupled, Treewright.build, Treewright.build]
  exact .bind (.modify fun c c' hs => hS.advance hs line) fun _ _ _ => h

theorem coupled_declaration {type : Ty} (ht : type.isWritten = true) (kind symbolType : String)
    {as bs : List (Name × Option Action)}
    (h : List.Forall₂ (fun a b => a.1 = b.1 ∧ Option.Rel (Coupled S V) a.2 b.2) as bs) :
    Coupled S V (.declaration type kind symbolType as) (.declaration type kind symbolType bs) := by
  rw [Coupled, Treewright.build, Treewright.build]
  refine .get_bind fun c c' hs => ?_
  refine Couples.bind (hS.bindings ht h) (fun ns ns' hns => .pure ?_) c c' hs
  exact hS.declaration ht kind symbolType hns hs

theorem coupled_block {as bs : List Action} (h : List.Forall₂ (Coupled S V) as bs) :
    Coupled S V (.block as) (.block bs) := by
  rw [Coupled, Treewright.build, Treewright.build]
  exact .bind (hS.blocks "Block" h) fun ns ns' hns => .pure hns

theorem coupled_conditional {a b : Action} (hcondition : Coupled S V a b) {as bs : List Action}
    (haccepted : List.Forall₂ (Coupled S V) as bs) {as' bs' : Option (List Action)}
    (hrejected : Option.Rel (List.Forall₂ (Coupled S V)) as' bs') :
    Coupled S V (.conditional a as as') (.conditional b bs bs') := by
  rw [Coupled, Treewright.build, Treewright.build]
  refine .bind hcondition fun n n' hn => ?_
  refine .bind (hS.blocks "Then Branch" haccepted) fun ns ns' hb => ?_
  refine .bind (hS.branch hrejected) fun r r' hr c c' h => ?_
  obtain ⟨hv, hs⟩ := hS.conditional hn hb hr h
  exact .ok hv hs

theorem coupled_loop {init init' update update' : Option Action}
    (hinit : Option.Rel (Coupled S V) init init') {test test' : Action}
    (htest : Coupled S V test test') (hupdate : Option.Rel (Coupled S V) update update')
    {as bs : List Action} (hbody : List.Forall₂ (Coupled S V) as bs) :
    Coupled S V (.loop init test update as) (.loop init' test' update' bs) := by
  rw [Coupled, Treewright.build, Treewright.build]
  refine .bind (V := fun p p' => Option.Rel V p.1 p'.1 ∧ V p.2.1 p'.2.1 ∧
    Option.Rel V p.2.2.1 p'.2.2.1 ∧ V p.2.2.2 p'.2.2.2) (hS.inScope .nothing ?_) ?_
  · refine .bind (.option hinit) fun i i' hi => ?_
    refine .bind htest fun n n' hn => ?_
    refine .bind (.option hupdate) fun u u' hu => ?_
    exact .bind (hS.blocks "Body" hbody) fun ns ns' hb => .pure ⟨hi, hn, hu, hb⟩
  · intro p p' hp c c' hs
    obtain ⟨hi, hn, hu, hb⟩ := hp
    obtain ⟨hv, hs⟩ := hS.loop hi hn hu hb hs
    exact .ok hv hs

theorem coupled_function {returns : Ty} (hr : returns.isWritten = true) (name : Name)
    {params : List (Ty × Name)} (hp : ∀ p ∈ params, p.1.isWritten = true)
    {as bs : Option (List Action)} (h : Option.Rel (List.Forall₂ (Coupled S V)) as bs) :
    Coupled S V (.function returns name params as) (.function returns name params bs) := by
  intro c c' hs
  have hsig : ∀ p ∈ signatureOf params, p.1.isWritten = true := List.forall_mem_map.mpr hp
  obtain ⟨hrej, hs'⟩ := hS.declareFunction hs name hsig hr
  rw [exec_build_function, exec_build_function]
  simp only [hrej]
  generalize (c'.declareFunction name (signatureOf params) returns c'.line).1 = rejected
  have hbody := hS.body hp name rejected h _ _ hs'
  generalize exec (buildBody name params rejected as) _ = p at hbody ⊢
  generalize exec (buildBody name params rejected bs) _ = q at hbody ⊢
  cases hbody with
  | ok hv hs'' => exact .ok (hS.function hr name params rejected hv hs) hs''
  | error fault hs'' => exact .error fault hs''

end Coupling

namespace Action

def mapParts (f : Action → Action) : Action → Action
  | .faulty before flaw => .faulty (before.map f) flaw
  | .lined line action => .lined line (f action)
  | .declaration type kind symbolType bindings =>
    .declaration type kind symbolType (bindings.map fun b => (b.1, b.2.map f))
  | .sizedArray type name size => .sizedArray type name (f size)
  | .operation op operands => .operation op (operands.map f)
  | .paren operand => .paren (f operand)
  | .cast target operand => .cast target (f operand)
  | .assign target value => .assign (f target) (f value)
  | .block lines => .block (lines.map f)
  | .conditional condition accepted rejected =>
    .conditional (f condition) (accepted.map f) (rejected.map (·.map f))
  | .loop init test update body => .loop (init.map f) (f test) (update.map f) (body.map f)
  | .function returns name params body => .function returns name params (body.map (·.map f))
  | .ret operand => .ret (operand.map f)
  | .call name args => .call name (args.map f)
  | .access name index => .access name (f index)
  | .address operand => .address (f operand)
  | .reference operand => .reference (f operand)
  | .arrayDecl type name size => .arrayDecl type name size
  | .variable name => .variable name
  | .constant type value => .constant type value
  | .nop => .nop

theorem mapParts_id (action : Action) : action.mapParts id = action := by
  cases action <;> simp [mapParts]

theorem operands?_mapParts {action : Action} {items : List Action}
    (h : action.operands? = some items) (f : Action → Action) :
    (action.mapParts f).operands? = some (items.map f) := by
  unfold operands? at h
  split at h <;> cases h
  case h_14 operand => cases operand <;> rfl
  all_goals rfl

theorem made_mapParts (action : Action) (f : Action → Action) (nodes : List Node) (c : Context) :
    (action.mapParts f).made nodes c = action.made nodes c := by
  -- It takes two of them apart at most.
  rcases nodes with _ | ⟨n, _ | ⟨m, _ | ⟨k, rest⟩⟩⟩ <;> cases action <;> rfl

end Action

theorem forall₂_map {α : Type} {R : α → α → Prop} {f : α → α} {l : List α}
    (h : ∀ a ∈ l, R a (f a)) : List.Forall₂ R l (l.map f) :=
  List.forall₂_map_right_iff.mpr (List.forall₂_same.mpr h)

theorem rel_map {α : Type} {R : α → α → Prop} {f : α → α} {x : Option α}
    (h : ∀ a ∈ x, R a (f a)) : Option.Rel R x (x.map f) := by
  cases x with
  | none => exact .none
  | some a => exact .some (h a rfl)

/-- It is enough to look at the actions within. The size of an array is another matter, since its
code goes into a type. -/
theorem Coupling.coupled_mapParts {S : Context → Context → Prop} {V : Node → Node → Prop}
    (hS : Coupling S V) {action : Action} {f : Action → Action} (proper : action.Proper)
    (unsized : ∀ type name size, action ≠ .sizedArray type name size)
    (h : ∀ part ∈ action.parts, Coupled S V part.2 (f part.2)) :
    Coupled S V action (action.mapParts f) := by
  cases ho : action.operands? with
  | some items =>
    refine .of_operands ho (Action.operands?_mapParts ho f) (forall₂_map fun a ha => ?_) ?_
    · exact h (.expression, a) (Action.mem_parts_of_operands? ho ha)
    · intro ns ns' c c' hl hn hs
      rw [Action.made_mapParts]
      exact hS.made ho proper hl hn hs
  | none =>
    cases action <;> simp only [Action.operands?, reduceCtorEq] at ho
    case faulty before flaw =>
      rw [Coupled, Action.mapParts, build, build]
      have hall : List.Forall₂ (Coupled S V) before (before.map f) := forall₂_map fun a ha =>
        h (.item, a) (by simpa [Action.parts] using ha)
      exact .bind (.all hall) fun _ _ _ => .fail _
    case lined line action =>
      exact hS.coupled_lined line (h (.item, action) (by simp [Action.parts]))
    case declaration type kind symbolType bindings =>
      have hb : ∀ b ∈ bindings, ∀ a ∈ b.2, Coupled S V a (f a) := fun b hb a ha =>
        h (.expression, a) (Action.mem_parts_binding hb (Option.mem_toList.mpr ha))
      refine hS.coupled_declaration proper kind symbolType (List.forall₂_map_right_iff.mpr ?_)
      exact List.forall₂_same.mpr fun b hm => ⟨rfl, rel_map (hb b hm)⟩
    case sizedArray type name size => exact absurd rfl (unsized type name size)
    case operation op items => cases (Action.operands?_operation proper).symm.trans ho
    case block lines =>
      exact hS.coupled_block (forall₂_map fun a ha =>
        h (.statement, a) (by simpa [Action.parts] using ha))
    case conditional condition accepted rejected =>
      have hs : ∀ a ∈ accepted ++ rejected.getD [], Coupled S V a (f a) := fun a ha =>
        h (.statement, a) (by simpa [Action.parts] using ha)
      refine hS.coupled_conditional (h (.expression, condition) (by simp [Action.parts])) ?_ ?_
      · exact forall₂_map fun a ha => hs a (by simp [ha])
      · exact rel_map fun lines hl => forall₂_map fun a ha => hs a (by simp_all)
    case loop init test update body =>
      have hh : ∀ a, a ∈ init ∨ a ∈ update → Coupled S V a (f a) := fun a ha =>
        h (.header, a) (by simpa [Action.parts] using ha)
      refine hS.coupled_loop (rel_map fun a ha => hh a (.inl ha))
        (h (.expression, test) (by simp [Action.parts])) (rel_map fun a ha => hh a (.inr ha))
        (forall₂_map fun a ha => h (.statement, a) (by simp [Action.parts, ha]))
    case function returns name params body =>
      refine hS.coupled_function proper.1 name proper.2 (rel_map fun lines hl => ?_)
      exact forall₂_map fun a ha => h (.statement, a) (by simp_all [Action.parts])

structure Simulation (S : Context → Context → Prop) (V : Node → Node → Prop) : Prop
    extends Coupling S V where
  render {n n' : Node} (h : V n n') : n.render 0 = n'.render 0

namespace Simulation

variable {S : Context → Context → Prop} {V : Node → Node → Prop} (hS : Simulation S V)

include hS

theorem array {type : Ty} (ht : type.isWritten = true) (name : Name) (size : String) :
    Couples S V (make (Form.ofArrayDecl type name size))
      (make (Form.ofArrayDecl type name size)) := by
  intro c c' hs
  have ho : (Action.arrayDecl type name size).operands? = some [] := rfl
  obtain ⟨hn, hs⟩ := hS.made ho ht rfl .nil hs
  exact .ok hn hs

theorem coupled_sizedArray {type : Ty} (ht : type.isWritten = true) (name : Name) {size : Action}
    (h : Coupled S V size size) :
    Coupled S V (.sizedArray type name size) (.sizedArray type name size) := by
  rw [Coupled, Treewright.build]
  refine .bind h fun n n' hn => ?_
  have hsize : sizeText n' = sizeText n := by rw [sizeText, sizeText, hS.render hn]
  have htext : Couples S (fun t t' => t = t') (sizeText n) (sizeText n) := by
    unfold sizeText
    cases n.render 0 with
    | ok text => exact .pure rfl
    | error fault => exact .fail _
  rw [hsize]
  refine .bind htext fun t t' ht' => ?_
  rw [ht']
  exact hS.array ht name t'

theorem build {allowed : Policy} {action : Action} {position : Position}
    (h : action.Fits allowed position) : Coupled S V action action := by
  induction h with
  | lined line _ ih => exact hS.coupled_lined line ih
  | @intro position action unlined here proper inside ih =>
    by_cases sized : ∃ type name size, action = .sizedArray type name size
    · obtain ⟨type, name, size, rfl⟩ := sized
      exact hS.coupled_sizedArray proper name (ih (.size, size) (by simp [Action.parts]))
    · have hparts := hS.coupled_mapParts (f := id) proper
        (fun type name size he => sized ⟨type, name, size, he⟩) ih
      rwa [Action.mapParts_id] at hparts

theorem actions {items : List Action} (h : ∀ a ∈ items, a.WellFormed) :
    Couples S (List.Forall₂ V) (buildAll items) (buildAll items) :=
  .all (List.forall₂_same.mpr fun a ha => hS.build (h a ha))

theorem documents (vs : List Value) :
    Couples S (List.Forall₂ V) (buildAll (vs.map .ofValue)) (buildAll (vs.map .ofValue)) := by
  refine hS.actions fun a ha => ?_
  obtain ⟨v, -, rfl⟩ := List.mem_map.mp ha
  exact Action.wellFormed_ofValue v

end Simulation

/-- What is asked of a property of contexts and one of nodes so that every build keeps the first and
gives nodes with the second. -/
structure Invariant (I : Context → Prop) (P : Node → Prop) : Prop where
  advance {c : Context} (h : I c) (line : Int) : I (c.advanceTo line)
  enter {c : Context} (h : I c) (name : Name) : I (c.enter name)
  leave {c d : Context} (h : I c) (hl : c.leave? = some d) : I d
  param {c : Context} (h : I c) (name : Name) {type : Ty} (ht : type.isWritten = true) :
    I (c.declare name type c.line).2
  declareFunction {c : Context} (h : I c) (name : Name) {params : List (Ty × Value)} {returns : Ty}
    (hp : ∀ p ∈ params, p.1.isWritten = true) (hr : returns.isWritten = true) :
    I (c.declareFunction name params returns c.line).2
  define {c : Context} (h : I c) {name : Name} {table : Table}
    (hd : c.table.define? name = some table) : I { c with table }
  made {action : Action} {items : List Action} (ho : action.operands? = some items)
    (proper : action.Proper) {ns : List Node} (hl : ns.length = items.length)
    (hn : ∀ n ∈ ns, P n) {c : Context} (h : I c) :
    P (action.made ns c).1 ∧ I (action.made ns c).2
  bound {type : Ty} (ht : type.isWritten = true) (name : Name) {value : Option Node}
    (hv : ∀ n ∈ value, P n) {c : Context} (h : I c) :
    P (boundNode type name value c).1 ∧ I (boundNode type name value c).2
  declaration {type : Ty} (ht : type.isWritten = true) (kind symbolType : String) {ns : List Node}
    (hn : ∀ n ∈ ns, P n) (line : Int) :
    P (.mk { line } (.declaration type kind symbolType ns))
  block (title : String) {ns : List Node} (hn : ∀ n ∈ ns, P n) : P (block title ns)
  conditional {n b : Node} (hn : P n) (hb : P b) {r : Option Node} (hr : ∀ m ∈ r, P m)
    {c : Context} (h : I c) : P (conditionalNode n b r c).1 ∧ I (conditionalNode n b r c).2
  loop {i u : Option Node} (hi : ∀ m ∈ i, P m) {n : Node} (hn : P n) (hu : ∀ m ∈ u, P m) {b : Node}
    (hb : P b) {c : Context} (h : I c) : P (loopNode i n u b c).1 ∧ I (loopNode i n u b c).2
  function {returns : Ty} (hr : returns.isWritten = true) (name : Name)
    (params : List (Ty × Name)) (rejected : Bool) {b : Option Node} (hb : ∀ m ∈ b, P m)
    (line : Int) : P (functionNode line returns name params rejected b)
  nop : P (.mk {} .nop)

theorem forall₂_diagonal {P : Node → Prop} {ns ms : List Node} :
    List.Forall₂ (fun n m => n = m ∧ P n) ns ms ↔ ns = ms ∧ ∀ n ∈ ns, P n := by
  constructor
  · intro h
    induction h with
    | nil => simp
    | cons hn _ ih =>
      obtain ⟨rfl, hp⟩ := hn
      simpa [ih.1, hp] using ih.2
  · intro h
    obtain ⟨rfl, hp⟩ := h
    exact List.forall₂_same.mpr fun n hn => ⟨rfl, hp n hn⟩

theorem rel_diagonal {P : Node → Prop} {x y : Option Node} :
    Option.Rel (fun n m => n = m ∧ P n) x y ↔ x = y ∧ ∀ n ∈ x, P n := by
  constructor
  · intro h
    cases h with
    | none => simp
    | some hn => simpa using hn
  · intro h
    obtain ⟨rfl, hp⟩ := h
    cases x with
    | none => exact .none
    | some n => exact .some ⟨rfl, hp n rfl⟩

namespace Invariant

variable {I : Context → Prop} {P : Node → Prop}

theorem simulation (hI : Invariant I P) :
    Simulation (fun c c' => c = c' ∧ I c) (fun n n' => n = n' ∧ P n) where
  advance {c c'} h line := by
    obtain ⟨rfl, h⟩ := h
    exact ⟨rfl, hI.advance h line⟩
  enter {c c'} h name := by
    obtain ⟨rfl, h⟩ := h
    exact ⟨rfl, hI.enter h name⟩
  leave {c c'} h := by
    obtain ⟨rfl, h⟩ := h
    cases hl : c.leave? with
    | none => exact .none
    | some d => exact .some ⟨rfl, hI.leave h hl⟩
  param {c c'} h name _ ht := by
    obtain ⟨rfl, h⟩ := h
    exact ⟨rfl, hI.param h name ht⟩
  declareFunction {c c'} h name _ _ hp hr := by
    obtain ⟨rfl, h⟩ := h
    exact ⟨rfl, rfl, hI.declareFunction h name hp hr⟩
  define {c c'} h name := by
    obtain ⟨rfl, h⟩ := h
    cases hd : c.table.define? name with
    | none => exact .none
    | some table => exact .some ⟨rfl, hI.define h hd⟩
  render {n n'} h := by rw [h.1]
  made ho proper _ _ hl hn c c' h := by
    obtain ⟨rfl, hn'⟩ := forall₂_diagonal.mp hn
    obtain ⟨rfl, h⟩ := h
    obtain ⟨hp, hi⟩ := hI.made ho proper hl hn' h
    exact ⟨⟨rfl, hp⟩, rfl, hi⟩
  bound ht name _ _ hv c c' h := by
    obtain ⟨rfl, hv'⟩ := rel_diagonal.mp hv
    obtain ⟨rfl, h⟩ := h
    obtain ⟨hp, hi⟩ := hI.bound ht name hv' h
    exact ⟨⟨rfl, hp⟩, rfl, hi⟩
  declaration ht kind symbolType _ _ hn c c' h := by
    obtain ⟨rfl, hn'⟩ := forall₂_diagonal.mp hn
    obtain ⟨rfl, -⟩ := h
    exact ⟨rfl, hI.declaration ht kind symbolType hn' c.line⟩
  block title _ _ hn := by
    obtain ⟨rfl, hn'⟩ := forall₂_diagonal.mp hn
    exact ⟨rfl, hI.block title hn'⟩
  conditional hn hb _ _ hr c c' h := by
    obtain ⟨rfl, hn⟩ := hn
    obtain ⟨rfl, hb⟩ := hb
    obtain ⟨rfl, hr'⟩ := rel_diagonal.mp hr
    obtain ⟨rfl, h⟩ := h
    obtain ⟨hp, hi⟩ := hI.conditional hn hb hr' h
    exact ⟨⟨rfl, hp⟩, rfl, hi⟩
  loop hi _ _ hn hu _ _ hb c c' h := by
    obtain ⟨rfl, hi'⟩ := rel_diagonal.mp hi
    obtain ⟨rfl, hn⟩ := hn
    obtain ⟨rfl, hu'⟩ := rel_diagonal.mp hu
    obtain ⟨rfl, hb⟩ := hb
    obtain ⟨rfl, h⟩ := h
    obtain ⟨hp, hi⟩ := hI.loop hi' hn hu' hb h
    exact ⟨⟨rfl, hp⟩, rfl, hi⟩
  function hr name params rejected _ _ hb c c' h := by
    obtain ⟨rfl, hb'⟩ := rel_diagonal.mp hb
    obtain ⟨rfl, -⟩ := h
    exact ⟨rfl, hI.function hr name params rejected hb' c.line⟩
  nop := ⟨rfl, hI.nop⟩

theorem actions (hI : Invariant I P) {items : List Action} (proper : ∀ a ∈ items, a.WellFormed)
    {c : Context} (h : I c) :
    I (exec (buildAll items) c).2 ∧
      ∀ ns d, exec (buildAll items) c = (.ok ns, d) → ∀ n ∈ ns, P n := by
  have hends := hI.simulation.actions proper c c ⟨rfl, h⟩
  refine ⟨hends.context.2, fun ns d hx => ?_⟩
  rw [hx] at hends
  cases hends with
  | ok hn _ => exact (forall₂_diagonal.mp hn).2

theorem documents (hI : Invariant I P) (vs : List Value) {c : Context} (h : I c) :
    I (exec (buildAll (vs.map .ofValue)) c).2 ∧
      ∀ ns d, exec (buildAll (vs.map .ofValue)) c = (.ok ns, d) → ∀ n ∈ ns, P n := by
  refine hI.actions (fun a ha => ?_) h
  obtain ⟨v, -, rfl⟩ := List.mem_map.mp ha
  exact Action.wellFormed_ofValue v

end Invariant
end Treewright
