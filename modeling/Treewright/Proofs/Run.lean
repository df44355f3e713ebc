import Treewright.Proofs.Scopes
set_option autoImplicit false

namespace Treewright

open Build

/-- Whom a diagnostic is held against: the node that is built, a parameter of a function whose name
is taken, or the action that stands for the size of an array. -/
inductive Source where
  | node
  | parameter
  | size
  deriving DecidableEq, Repr, Inhabited

/-- What a build did. A function is `accepted` under the symbol that it declares or repeats, and it
is `marked` when the symbol found under its name is taken down as defined. -/
inductive Event where
  | reported (source : Source) (diagnostic : Diagnostic)
  | accepted (own : Symbol) (name : Name) (body : Option (List Action))
  | marked (own found : Symbol)
  | called (function : Option Symbol) (args : List Operand)

namespace Event

def inSize : Event → Event
  | .reported _ diagnostic => .reported .size diagnostic
  | event => event

def diagnostic? : Event → Option Diagnostic
  | .reported _ diagnostic => some diagnostic
  | _ => none

end Event

def diagnosticsOf (trace : List Event) : List Diagnostic := trace.filterMap Event.diagnostic?

def reported (source : Source) (c d : Context) : List Event :=
  (d.log.diagnostics.drop c.log.diagnostics.length).map (.reported source)

def accepted (own : Option Symbol) (name : Name) (body : Option (List Action)) : List Event :=
  own.toList.map (.accepted · name body)

namespace Context

def declareAll (c : Context) : List (Ty × Name) → Context
  | [] => c
  | (type, name) :: params => (c.declare name type c.line).2.declareAll params

/-- The context in which the body of a function is built. -/
def inside (c : Context) (name : Name) (params : List (Ty × Name)) : Context :=
  (c.enter name).declareAll params

/-- Declares a function; there is no symbol of it when it was rejected. -/
def bind (c : Context) (returns : Ty) (name : Name) (params : List (Ty × Name)) :
    Option Symbol × Context :=
  let (rejected, d) := c.declareFunction name (signatureOf params) returns c.line
  (if rejected then none else d.table.inner.functionNamed name, d)

/-- Takes the function that a name means here down as defined, on behalf of an accepted one. -/
def mark? (c : Context) (name : Name) : Option Symbol → Option (List Event × Context)
  | none => some ([], c)
  | some own => (c.table.functionNamed name).map fun found =>
    ([.marked own found], { c with table := c.table.mark found })

end Context

/-- What the check of an action does over its operands. -/
def Action.checked (action : Action) (nodes : List Node) (c : Context) : List Event :=
  (match action with
    | .call name _ => [.called (c.table.functionNamed name) (nodes.map Node.operand)]
    | _ => []) ++ reported .node c (action.made nodes c).2

/-- The node of a binding over its initial value, and the context after its check. -/
def boundNode (type : Ty) (name : Name) (value : Option Node) (c : Context) : Node × Context :=
  (Form.ofBinding type name (value.map Node.seen) c).map (.mk { line := c.line }) id

def conditionalNode (condition accepted : Node) (rejected : Option Node) (c : Context) :
    Node × Context :=
  (Form.ofConditional condition.seen accepted rejected c).map (.mk { line := c.line }) id

def loopNode (init : Option Node) (test : Node) (update : Option Node) (body : Node) (c : Context) :
    Node × Context :=
  (Form.ofLoop init test.seen update body c).map (.mk { line := c.line }) id

theorem Node.mem_edges_made {action : Action} {ns : List Node} {c : Context} {m : Node}
    (h : m ∈ (action.made ns c).1.edges) : m ∈ ns ∨ m = .mk {} (.arguments ns) := by
  have hmap : (ns.map Node.seen).map (·.1) = ns := by
    rw [List.map_map]
    exact List.map_id ns
  unfold Action.made at h
  split at h
  case h_4 | h_5 | h_6 =>
    simp only [Form.ofOperation, Form.ofFold, Prod.map_fst, hmap] at h
    exact .inl h
  case h_8 =>
    simp only [Node.edges, Node.form, Form.edges, Option.mem_toList] at h
    exact .inl (List.mem_of_head? h)
  case h_9 => exact .inr (List.mem_singleton.mp h)
  case h_7 | h_10 | h_11 | h_12 => exact .inl h
  all_goals cases h

/-- The property holds of the node and of all that is below it. -/
inductive Node.Every (P : Node → Prop) : Node → Prop where
  | intro {n : Node} (here : P n) (below : ∀ m ∈ n.edges, Every P m) : Every P n

namespace Node.Every

variable {P : Node → Prop}

theorem here {n : Node} (h : n.Every P) : P n := by
  cases h with
  | intro here _ => exact here

theorem imp {Q : Node → Prop} (hPQ : ∀ n, P n → Q n) {n : Node} (h : n.Every P) : n.Every Q := by
  induction h with
  | intro here _ ih => exact .intro (hPQ _ here) ih

theorem beside {n : Node} (h : n.Every P) : n.Every fun m => P m ∧ ∀ k ∈ m.edges, P k := by
  induction h with
  | intro here below ih => exact .intro ⟨here, fun k hk => (below k hk).here⟩ ih

theorem made {action : Action} {ns : List Node} {c : Context} (here : P (action.made ns c).1)
    (arguments : P (.mk {} (.arguments ns))) (hn : ∀ n ∈ ns, n.Every P) :
    (action.made ns c).1.Every P := by
  refine .intro here fun m hm => ?_
  rcases mem_edges_made hm with hm | rfl
  · exact hn m hm
  · exact .intro arguments hn

theorem bound {type : Ty} {name : Name} {value : Option Node} {c : Context}
    (here : P (boundNode type name value c).1) (hv : ∀ n ∈ value, n.Every P) :
    (boundNode type name value c).1.Every P := by
  refine .intro here fun m hm => hv m ?_
  cases value with
  | none => cases hm
  | some v => exact congrArg some (List.mem_singleton.mp hm).symm

theorem conditional {n b : Node} {r : Option Node} {c : Context}
    (here : P (conditionalNode n b r c).1) (hn : n.Every P) (hb : b.Every P)
    (hr : ∀ m ∈ r, m.Every P) : (conditionalNode n b r c).1.Every P := by
  refine .intro here fun m hm => ?_
  have hm : m ∈ n :: b :: r.toList := hm
  simp only [List.mem_cons, Option.mem_toList] at hm
  rcases hm with rfl | rfl | hm
  · exact hn
  · exact hb
  · exact hr m hm

theorem loop {i u : Option Node} {n b : Node} {c : Context} (here : P (loopNode i n u b c).1)
    (hi : ∀ m ∈ i, m.Every P) (hn : n.Every P) (hu : ∀ m ∈ u, m.Every P) (hb : b.Every P) :
    (loopNode i n u b c).1.Every P := by
  refine .intro here fun m hm => ?_
  have hm : m ∈ i.toList ++ n :: (u.toList ++ [b]) := hm
  simp only [List.mem_append, List.mem_cons, Option.mem_toList, List.not_mem_nil, or_false] at hm
  rcases hm with hm | rfl | hm | rfl
  · exact hi m hm
  · exact hn
  · exact hu m hm
  · exact hb

theorem function {line : Int} {returns : Ty} {name : Name} {params : List (Ty × Name)}
    {rejected : Bool} {b : Option Node}
    (here : P (functionNode line returns name params rejected b))
    (signature : P (.mk {} (.signature (signatureOf params)))) (hb : ∀ m ∈ b, m.Every P) :
    (functionNode line returns name params rejected b).Every P := by
  refine .intro here fun m hm => ?_
  have hm : m ∈ .mk {} (.signature (signatureOf params)) :: b.toList := hm
  simp only [List.mem_cons, Option.mem_toList] at hm
  rcases hm with rfl | hm
  · exact .intro signature fun _ hm => by cases hm
  · exact hb m hm

end Node.Every

def Build.blocks : List (String × List Action) → Build (List Node)
  | [] => return []
  | (title, lines) :: rest => do
    let n := block title (← inScope .nothing (buildAll lines))
    return n :: (← blocks rest)

/-- What there is to build: one action, several in a row, blocks, the bindings of a declaration, or
the body of a function with the symbol that it was accepted under. -/
inductive Task where
  | one (action : Action)
  | all (items : List Action)
  | blocks (items : List (String × List Action))
  | bindings (type : Ty) (items : List (Name × Option Action))
  | body (name : Name) (own : Option Symbol) (items : List Action)

def Task.build : Task → Build (List Node)
  | .one action => do return [← Treewright.build action]
  | .all items => buildAll items
  | .blocks items => Build.blocks items
  | .bindings type items => buildBindings type items
  | .body name own items => buildLines name own.isNone items

def branches (accepted : List Action) (rejected : Option (List Action)) :
    List (String × List Action) :=
  ("Then Branch", accepted) :: rejected.toList.map fun lines => ("Else Branch", lines)

theorem flatMap_branches (accepted : List Action) (rejected : Option (List Action)) :
    (branches accepted rejected).flatMap (·.2) = accepted ++ rejected.getD [] := by
  cases rejected <;> simp [branches]

theorem mem_parts_branches {condition a : Action} {accepted : List Action}
    {rejected : Option (List Action)} {b : String × List Action}
    (hb : b ∈ branches accepted rejected) (ha : a ∈ b.2) :
    (Position.statement, a) ∈ (Action.conditional condition accepted rejected).parts := by
  refine List.mem_cons_of_mem _ (List.mem_map_of_mem ?_)
  rw [← flatMap_branches]
  exact List.mem_flatMap.mpr ⟨b, hb, ha⟩

/-- `Run task c trace nodes d`: from `c` the task gives `nodes` and leaves `d`, and the trace tells
what happened. -/
inductive Run : Task → Context → List Event → List Node → Context → Prop where
  | nil (c : Context) : Run (.all []) c [] [] c
  | cons {a : Action} {as : List Action} {n : Node} {ns : List Node} {c d e : Context}
      {t t' : List Event} (head : Run (.one a) c t [n] d) (tail : Run (.all as) d t' ns e) :
      Run (.all (a :: as)) c (t ++ t') (n :: ns) e
  | noBlock (c : Context) : Run (.blocks []) c [] [] c
  | block {title : String} {lines : List Action} {rest : List (String × List Action)}
      {ns ms : List Node} {c d e f : Context} {t t' : List Event}
      (inside : Run (.all lines) (c.enter .nothing) t ns d) (leave : d.leave? = some e)
      (others : Run (.blocks rest) e t' ms f) :
      Run (.blocks ((title, lines) :: rest)) c (t ++ t') (Build.block title ns :: ms) f
  | noBinding (type : Ty) (c : Context) : Run (.bindings type []) c [] [] c
  | binding {type : Ty} {name : Name} {value : Option Action}
      {rest : List (Name × Option Action)} {vs ns : List Node} {n : Node} {c d e f : Context}
      {t t' : List Event} (proper : type.isWritten = true)
      (given : Run (.all value.toList) c t vs d) (bound : boundNode type name vs.head? d = (n, e))
      (others : Run (.bindings type rest) e t' ns f) :
      Run (.bindings type ((name, value) :: rest)) c (t ++ reported .node d e ++ t') (n :: ns) f
  | noLine (name : Name) (own : Option Symbol) (c : Context) : Run (.body name own []) c [] [] c
  | line {name : Name} {own : Option Symbol} {a : Action} {as : List Action} {n : Node}
      {ns : List Node} {c d e f : Context} {t marks t' : List Event} (head : Run (.one a) c t [n] d)
      (mark : d.mark? name own = some (marks, e)) (tail : Run (.body name own as) e t' ns f) :
      Run (.body name own (a :: as)) c (t ++ marks ++ t') (n :: ns) f
  | lined {line : Int} {a : Action} {ns : List Node} {c d : Context} {t : List Event}
      (inner : Run (.one a) (c.advanceTo line) t ns d) : Run (.one (.lined line a)) c t ns d
  | check {action : Action} {items : List Action} {ns : List Node} {c d : Context} {t : List Event}
      (operands : action.operands? = some items) (proper : action.Proper)
      (inner : Run (.all items) c t ns d) :
      Run (.one action) c (t ++ action.checked ns d) [(action.made ns d).1] (action.made ns d).2
  | declaration {type : Ty} {kind symbolType : String} {items : List (Name × Option Action)}
      {ns : List Node} {c d : Context} {t : List Event} (proper : type.isWritten = true)
      (inner : Run (.bindings type items) c t ns d) :
      Run (.one (.declaration type kind symbolType items)) c t
        [.mk { line := c.line } (.declaration type kind symbolType ns)] d
  | sizedArray {type : Ty} {name : Name} {size : Action} {text : String} {n m : Node}
      {c d e : Context} {t : List Event} (proper : type.isWritten = true)
      (inner : Run (.one size) c t [n] d) (render : n.render 0 = .ok text)
      (made : (Action.arrayDecl type name text).made [] d = (m, e)) :
      Run (.one (.sizedArray type name size)) c (t.map Event.inSize ++ reported .node d e) [m] e
  | scope {lines : List Action} {ns : List Node} {c d : Context} {t : List Event}
      (inner : Run (.blocks [("Block", lines)]) c t ns d) : Run (.one (.block lines)) c t ns d
  | conditional {condition : Action} {accepted : List Action} {rejected : Option (List Action)}
      {n b m : Node} {bs : List Node} {c d e f : Context} {t t' : List Event}
      (test : Run (.one condition) c t [n] d)
      (inside : Run (.blocks (branches accepted rejected)) d t' (b :: bs) e)
      (made : conditionalNode n b bs.head? e = (m, f)) :
      Run (.one (.conditional condition accepted rejected)) c (t ++ t' ++ reported .node e f) [m] f
  | loop {init update : Option Action} {test : Action} {body : List Action} {n b m : Node}
      {is us : List Node} {c c₁ c₂ c₃ c₄ d e : Context} {t₁ t₂ t₃ t₄ : List Event}
      (first : Run (.all init.toList) (c.enter .nothing) t₁ is c₁)
      (condition : Run (.one test) c₁ t₂ [n] c₂) (next : Run (.all update.toList) c₂ t₃ us c₃)
      (inside : Run (.blocks [("Body", body)]) c₃ t₄ [b] c₄) (leave : c₄.leave? = some d)
      (made : loopNode is.head? n us.head? b d = (m, e)) :
      Run (.one (.loop init test update body)) c (t₁ ++ t₂ ++ t₃ ++ t₄ ++ reported .node d e) [m] e
  | prototype {returns : Ty} {name : Name} {params : List (Ty × Name)} {own : Option Symbol}
      {c d : Context} (proper : (Action.function returns name params none).Proper)
      (bound : c.bind returns name params = (own, d)) :
      Run (.one (.function returns name params none)) c
        (reported .node c d ++ accepted own name none)
        [functionNode c.line returns name params own.isNone none] d
  | emptyBody {returns : Ty} {name : Name} {params : List (Ty × Name)} {own : Option Symbol}
      {c d e f : Context} {marks : List Event}
      (proper : (Action.function returns name params (some [])).Proper)
      (bound : c.bind returns name params = (own, d))
      (mark : (d.inside name params).mark? name own = some (marks, e)) (leave : e.leave? = some f) :
      Run (.one (.function returns name params (some []))) c
        (reported .node c d ++ accepted own name (some []) ++
          reported .parameter d (d.inside name params) ++ marks)
        [functionNode c.line returns name params own.isNone
          (some (Build.block "Body" [.mk {} .nop]))]
        f
  | function {returns : Ty} {name : Name} {params : List (Ty × Name)} {own : Option Symbol}
      {a : Action} {as : List Action} {ns : List Node} {c d e f : Context} {t : List Event}
      (proper : (Action.function returns name params (some (a :: as))).Proper)
      (bound : c.bind returns name params = (own, d))
      (lines : Run (.body name own (a :: as)) (d.inside name params) t ns e)
      (leave : e.leave? = some f) :
      Run (.one (.function returns name params (some (a :: as)))) c
        (reported .node c d ++ accepted own name (some (a :: as)) ++
          reported .parameter d (d.inside name params) ++ t)
        [functionNode c.line returns name params own.isNone (some (Build.block "Body" ns))] f

theorem Run.of_operands {action : Action} {items : List Action} {c d : Context} {t : List Event}
    {ns : List Node} (ho : action.operands? = some items) (h : Run (.one action) c t ns d) :
    ∃ t' nodes e, action.Proper ∧ Run (.all items) c t' nodes e ∧
      t = t' ++ action.checked nodes e ∧ ns = [(action.made nodes e).1] ∧
      d = (action.made nodes e).2 := by
  cases h with
  | check operands proper inner =>
    cases ho.symm.trans operands
    exact ⟨_, _, _, proper, inner, rfl, rfl, rfl⟩
  | _ => cases ho

theorem Run.forall_nodes {P : Node → Prop} {items : List Action}
    (h : ∀ a ∈ items, ∀ c d t n, Run (.one a) c t [n] d → P n) {c d : Context} {t : List Event}
    {ns : List Node} (run : Run (.all items) c t ns d) : ∀ n ∈ ns, P n := by
  induction items generalizing c t ns with
  | nil =>
    cases run
    simp
  | cons a items ih =>
    obtain ⟨ha, hitems⟩ := List.forall_mem_cons.mp h
    cases run with
    | cons head tail => exact List.forall_mem_cons.mpr ⟨ha _ _ _ _ head, ih hitems tail⟩

theorem exec_inScope_ok {α : Type} {name : Name} {x : Build α} {c d : Context} {a : α} :
    exec (inScope name x) c = (.ok a, d) ↔
      ∃ e, exec x (c.enter name) = (.ok a, e) ∧ e.leave? = some d := by
  rw [exec_inScope]
  cases exec x (c.enter name) with
  | mk r e =>
    cases hl : e.leave? with
    | none =>
      simp only [Prod.mk.injEq, reduceCtorEq, false_and, false_iff, not_exists]
      rintro f ⟨⟨-, rfl⟩, hf⟩
      rw [hl] at hf
      cases hf
    | some f =>
      simp only [Prod.mk.injEq]
      constructor
      · rintro ⟨rfl, rfl⟩
        exact ⟨e, ⟨rfl, rfl⟩, hl⟩
      · rintro ⟨g, ⟨rfl, rfl⟩, hg⟩
        exact ⟨rfl, Option.some.inj (hl.symm.trans hg)⟩

theorem exec_one {action : Action} {c d : Context} {ns : List Node} :
    exec (Task.one action).build c = (.ok ns, d) ↔
      ∃ n, exec (build action) c = (.ok n, d) ∧ ns = [n] := by
  rw [Task.build, exec_bind_ok]
  constructor
  · rintro ⟨n, e, h, he⟩
    cases he
    exact ⟨n, h, rfl⟩
  · rintro ⟨n, h, rfl⟩
    exact ⟨n, d, h, rfl⟩

theorem exec_one_node {action : Action} {c d : Context} {n : Node} :
    exec (Task.one action).build c = (.ok [n], d) ↔ exec (build action) c = (.ok n, d) := by
  rw [exec_one]
  constructor
  · rintro ⟨m, h, he⟩
    cases he
    exact h
  · exact fun h => ⟨n, h, rfl⟩

theorem exec_buildAll_cons {a : Action} {as : List Action} {c d : Context} {ns : List Node} :
    exec (buildAll (a :: as)) c = (.ok ns, d) ↔
      ∃ n ms e, exec (build a) c = (.ok n, e) ∧ exec (buildAll as) e = (.ok ms, d) ∧
        ns = n :: ms := by
  rw [buildAll, exec_bind_ok]
  constructor
  · rintro ⟨n, e, h, hr⟩
    obtain ⟨ms, f, hs, hp⟩ := exec_bind_ok.mp hr
    cases hp
    exact ⟨n, ms, e, h, hs, rfl⟩
  · rintro ⟨n, ms, e, h, hs, rfl⟩
    exact ⟨n, e, h, exec_bind_ok.mpr ⟨ms, d, hs, rfl⟩⟩

theorem exec_buildAll_append {as bs : List Action} {c d : Context} {ns : List Node} :
    exec (buildAll (as ++ bs)) c = (.ok ns, d) ↔
      ∃ ms ks e, exec (buildAll as) c = (.ok ms, e) ∧ exec (buildAll bs) e = (.ok ks, d) ∧
        ns = ms ++ ks := by
  induction as generalizing c ns with
  | nil =>
    rw [buildAll]
    constructor
    · intro h
      exact ⟨[], ns, c, rfl, h, rfl⟩
    · rintro ⟨ms, ks, e, h, hs, rfl⟩
      cases h
      exact hs
  | cons a as ih =>
    rw [List.cons_append, exec_buildAll_cons]
    constructor
    · rintro ⟨n, ms, e, h, hs, rfl⟩
      obtain ⟨ms, ks, f, hm, hk, rfl⟩ := ih.mp hs
      exact ⟨n :: ms, ks, f, exec_buildAll_cons.mpr ⟨n, ms, e, h, hm, rfl⟩, hk, rfl⟩
    · rintro ⟨ns, ks, f, h, hk, rfl⟩
      obtain ⟨n, ms, e, hn, hm, rfl⟩ := exec_buildAll_cons.mp h
      exact ⟨n, ms ++ ks, e, hn, ih.mpr ⟨ms, ks, f, hm, hk, rfl⟩, rfl⟩

theorem exec_buildLines_cons {name : Name} {own : Option Symbol} {a : Action} {as : List Action}
    {c d : Context} {ns : List Node} :
    exec (buildLines name own.isNone (a :: as)) c = (.ok ns, d) ↔
      ∃ n ms e f, exec (build a) c = (.ok n, e) ∧ exec (define name own.isNone) e = (.ok ⟨⟩, f) ∧
        exec (buildLines name own.isNone as) f = (.ok ms, d) ∧ ns = n :: ms := by
  rw [buildLines, exec_bind_ok]
  constructor
  · rintro ⟨n, e, h, hr⟩
    obtain ⟨_, f, hd, hr⟩ := exec_bind_ok.mp hr
    obtain ⟨ms, g, hs, hp⟩ := exec_bind_ok.mp hr
    cases hp
    exact ⟨n, ms, e, f, h, hd, hs, rfl⟩
  · rintro ⟨n, ms, e, f, h, hd, hs, rfl⟩
    exact ⟨n, e, h, exec_bind_ok.mpr ⟨_, f, hd, exec_bind_ok.mpr ⟨ms, d, hs, rfl⟩⟩⟩

theorem exec_blocks_cons {title : String} {lines : List Action}
    {rest : List (String × List Action)} {c d : Context} {ns : List Node} :
    exec (Build.blocks ((title, lines) :: rest)) c = (.ok ns, d) ↔
      ∃ ls ms e, exec (inScope .nothing (buildAll lines)) c = (.ok ls, e) ∧
        exec (Build.blocks rest) e = (.ok ms, d) ∧ ns = Build.block title ls :: ms := by
  rw [Build.blocks, exec_bind_ok]
  constructor
  · rintro ⟨ls, e, h, hr⟩
    obtain ⟨ms, f, hs, hp⟩ := exec_bind_ok.mp hr
    cases hp
    exact ⟨ls, ms, e, h, hs, rfl⟩
  · rintro ⟨ls, ms, e, h, hs, rfl⟩
    exact ⟨ls, e, h, exec_bind_ok.mpr ⟨ms, d, hs, rfl⟩⟩

theorem exec_declareParams (params : List (Ty × Name)) (c : Context) :
    exec (declareParams params) c = (.ok ⟨⟩, c.declareAll params) := by
  induction params generalizing c with
  | nil => rfl
  | cons p params ih =>
    rw [declareParams, exec_bind, exec_modify]
    exact ih _

theorem exec_define_ok {name : Name} {own : Option Symbol} {c d : Context} :
    exec (define name own.isNone) c = (.ok ⟨⟩, d) ↔
      ∃ marks, c.mark? name own = some (marks, d) := by
  cases own with
  | none =>
    change ((.ok ⟨⟩, c) : Except Fault Unit × Context) = _ ↔ _
    simp [Context.mark?]
  | some own =>
    simp only [define, Option.isNone_some, Bool.false_eq_true, if_false, Context.mark?,
      Table.define?_eq, exec_bind, exec_get]
    cases c.table.functionNamed name with
    | none => simp [exec_fail]
    | some found => simp [exec_set]

theorem exec_buildOption_ok {item : Option Action} {c d : Context} {n : Option Node} :
    exec (buildOption item) c = (.ok n, d) ↔ exec (buildAll item.toList) c = (.ok n.toList, d) := by
  cases item with
  | none =>
    simp only [buildOption, Option.toList_none, buildAll, exec_pure, Prod.mk.injEq, Except.ok.injEq]
    cases n <;> simp
  | some a =>
    simp only [buildOption, Option.toList_some, buildAll, exec_bind, exec_pure]
    cases exec (build a) c with
    | mk r e =>
      cases r with
      | error fault => simp
      | ok m => cases n <;> simp

theorem toList_head?_of_exec {item : Option Action} {c d : Context} {ns : List Node}
    (h : exec (buildAll item.toList) c = (.ok ns, d)) : ns.head?.toList = ns := by
  have hl := length_of_exec_buildAll h
  cases item with
  | none =>
    rw [List.length_eq_zero_iff.mp hl]
    rfl
  | some a =>
    obtain ⟨n, rfl⟩ := List.length_eq_one_iff.mp hl
    rfl

theorem exec_buildBranch_ok {lines : Option (List Action)} {c d : Context} {n : Option Node} :
    exec (buildBranch lines) c = (.ok n, d) ↔
      exec (Build.blocks (lines.toList.map fun lines => ("Else Branch", lines))) c =
        (.ok n.toList, d) := by
  cases lines with
  | none =>
    simp only [buildBranch, Option.toList_none, List.map_nil, Build.blocks, exec_pure,
      Prod.mk.injEq, Except.ok.injEq]
    cases n <;> simp
  | some lines =>
    simp only [buildBranch, Option.toList_some, List.map_cons, List.map_nil, Build.blocks,
      exec_bind,
      exec_pure]
    cases exec (inScope .nothing (buildAll lines)) c with
    | mk r e =>
      cases r with
      | error fault => simp
      | ok m => cases n <;> simp

theorem Context.bind_cases (c : Context) (returns : Ty) (name : Name) (params : List (Ty × Name)) :
    (c.table.inner.functionNamed name = none ∧
      c.bind returns name params =
        (some ⟨c.table.symbols.length, name, c.line, c.table.current,
            .function ((signatureOf params).map fun p => (p.2, p.1)) returns.given?⟩,
          { c with
            table := c.table.addFunction name ((signatureOf params).map fun p => (p.2, p.1))
              returns.given? c.line })) ∨
    ∃ s, c.table.inner.functionNamed name = some s ∧
      ((repeatsDeclaration c.table name ((signatureOf params).map (·.1)) returns.given? = true ∧
          c.bind returns name params = (some s, c)) ∨
        (repeatsDeclaration c.table name ((signatureOf params).map (·.1)) returns.given? = false ∧
          c.bind returns name params = (none, c.report [.redeclaredFunction name]))) := by
  unfold bind
  rcases c.declareFunction_cases name (signatureOf params) returns c.line with
    ⟨hn, he⟩ | ⟨s, hs, ⟨hr, he⟩ | ⟨hr, he⟩⟩
  · refine .inl ⟨hn, ?_⟩
    rw [he]
    simp [Table.functionNamed_addFunction, hn]
  · exact .inr ⟨s, hs, .inl ⟨hr, by simp [he, hs]⟩⟩
  · exact .inr ⟨s, hs, .inr ⟨hr, by simp [he]⟩⟩

theorem bind_fst_isNone (c : Context) (returns : Ty) (name : Name) (params : List (Ty × Name)) :
    (c.bind returns name params).1.isNone =
      (c.declareFunction name (signatureOf params) returns c.line).1 := by
  unfold Context.bind
  rcases c.declareFunction_cases name (signatureOf params) returns c.line with
    ⟨hn, he⟩ | ⟨s, hs, ⟨-, he⟩ | ⟨-, he⟩⟩
  · simp [he, Table.functionNamed_addFunction, hn]
  · simp [he, hs]
  · simp [he]

theorem exec_buildBody_some {name : Name} {params : List (Ty × Name)} {own : Option Symbol}
    {lines : List Action} {c d : Context} {body : Option Node} :
    exec (buildBody name params own.isNone (some lines)) c = (.ok body, d) ↔
      ∃ ns ms e f, exec (buildLines name own.isNone lines) (c.inside name params) = (.ok ns, e) ∧
        ((ns = [] ∧ ms = [.mk {} .nop] ∧ ∃ marks, e.mark? name own = some (marks, f)) ∨
          (ns ≠ [] ∧ ms = ns ∧ f = e)) ∧
        f.leave? = some d ∧ body = some (Build.block "Body" ms) := by
  rw [buildBody, exec_bind_ok]
  constructor
  · rintro ⟨ms, g, h, hp⟩
    cases hp
    obtain ⟨f, h, hl⟩ := exec_inScope_ok.mp h
    rw [exec_bind, exec_declareParams] at h
    obtain ⟨ns, e, hb, h⟩ := exec_bind_ok.mp h
    refine ⟨ns, ms, e, f, hb, ?_, hl, rfl⟩
    cases ns with
    | nil =>
      obtain ⟨_, f', hd, h⟩ := exec_bind_ok.mp h
      cases h
      exact .inl ⟨rfl, rfl, exec_define_ok.mp hd⟩
    | cons n ns =>
      cases h
      exact .inr ⟨by simp, rfl, rfl⟩
  · rintro ⟨ns, ms, e, f, hb, hm, hl, rfl⟩
    refine ⟨ms, d, exec_inScope_ok.mpr ⟨f, ?_, hl⟩, rfl⟩
    rw [exec_bind, exec_declareParams]
    refine exec_bind_ok.mpr ⟨ns, e, hb, ?_⟩
    rcases hm with ⟨rfl, rfl, hmarks⟩ | ⟨hne, rfl, rfl⟩
    · exact exec_bind_ok.mpr ⟨⟨⟩, f, exec_define_ok.mpr hmarks, rfl⟩
    · cases ms with
      | nil => contradiction
      | cons n ns => rfl

theorem exec_function_ok {returns : Ty} {name : Name} {params : List (Ty × Name)}
    {body : Option (List Action)} {c d e : Context} {own : Option Symbol} {n : Node}
    (hb : c.bind returns name params = (own, d)) :
    exec (build (.function returns name params body)) c = (.ok n, e) ↔
      ∃ node, exec (buildBody name params own.isNone body) d = (.ok node, e) ∧
        n = functionNode c.line returns name params own.isNone node := by
  have hown := bind_fst_isNone c returns name params
  have hd : (c.declareFunction name (signatureOf params) returns c.line).2 = d :=
    congrArg Prod.snd hb
  rw [hb] at hown
  rw [exec_build_function]
  simp only [← hown, hd]
  cases exec (buildBody name params own.isNone body) d with
  | mk r f =>
    cases r with
    | error fault => simp
    | ok node =>
      simp only [Prod.mk.injEq, Except.ok.injEq]
      constructor
      · rintro ⟨rfl, rfl⟩
        exact ⟨node, ⟨rfl, rfl⟩, rfl⟩
      · rintro ⟨_, ⟨rfl, rfl⟩, rfl⟩
        exact ⟨rfl, rfl⟩

theorem exec_conditional_ok {condition : Action} {accepted : List Action}
    {rejected : Option (List Action)} {c d : Context} {m : Node} :
    exec (build (.conditional condition accepted rejected)) c = (.ok m, d) ↔
      ∃ n b bs e f, exec (build condition) c = (.ok n, e) ∧
        exec (Build.blocks (branches accepted rejected)) e = (.ok (b :: bs), f) ∧
        conditionalNode n b bs.head? f = (m, d) := by
  have hmade (n b : Node) (r : Option Node) (f : Context) :
      exec (make (Form.ofConditional n.seen b r)) f = (.ok m, d) ↔
        conditionalNode n b r f = (m, d) := by
    rw [exec_make]
    simp [conditionalNode, Prod.ext_iff]
  rw [build, exec_bind_ok]
  constructor
  · rintro ⟨n, e, h, hr⟩
    obtain ⟨ls, g, ha, hr⟩ := exec_bind_ok.mp hr
    obtain ⟨r, f, hb, hm⟩ := exec_bind_ok.mp hr
    refine ⟨n, Build.block "Then Branch" ls, r.toList, e, f, h, ?_, ?_⟩
    · exact exec_blocks_cons.mpr ⟨ls, _, g, ha, exec_buildBranch_ok.mp hb, rfl⟩
    · rw [Option.head?_toList]
      exact (hmade n _ r f).mp hm
  · rintro ⟨n, b, bs, e, f, h, hb, hm⟩
    obtain ⟨ls, ms, g, ha, hr, he⟩ := exec_blocks_cons.mp hb
    cases he
    have hlist : bs.head?.toList = bs := by
      cases rejected with
      | none =>
        cases hr
        rfl
      | some lines =>
        obtain ⟨_, _, _, -, hn, rfl⟩ := exec_blocks_cons.mp hr
        cases hn
        rfl
    refine ⟨n, e, h, exec_bind_ok.mpr ⟨ls, g, ha, exec_bind_ok.mpr ⟨bs.head?, f, ?_, ?_⟩⟩⟩
    · rw [exec_buildBranch_ok, hlist]
      exact hr
    · exact (hmade n _ bs.head? f).mpr hm

theorem exec_loop_ok {init update : Option Action} {test : Action} {body : List Action}
    {c e : Context} {m : Node} :
    exec (build (.loop init test update body)) c = (.ok m, e) ↔
      ∃ is n us b c₁ c₂ c₃ c₄ d,
        exec (buildAll init.toList) (c.enter .nothing) = (.ok is, c₁) ∧
        exec (build test) c₁ = (.ok n, c₂) ∧ exec (buildAll update.toList) c₂ = (.ok us, c₃) ∧
        exec (Build.blocks [("Body", body)]) c₃ = (.ok [b], c₄) ∧ c₄.leave? = some d ∧
        loopNode is.head? n us.head? b d = (m, e) := by
  have hmade (i u : Option Node) (n b : Node) (d : Context) :
      exec (make (Form.ofLoop i n.seen u b)) d = (.ok m, e) ↔ loopNode i n u b d = (m, e) := by
    rw [exec_make]
    simp [loopNode, Prod.ext_iff]
  rw [build, exec_bind_ok]
  constructor
  · rintro ⟨⟨i, n, u, b⟩, d, h, hm⟩
    obtain ⟨c₄, h, hl⟩ := exec_inScope_ok.mp h
    obtain ⟨i', c₁, hi, h⟩ := exec_bind_ok.mp h
    obtain ⟨n', c₂, hn, h⟩ := exec_bind_ok.mp h
    obtain ⟨u', c₃, hu, h⟩ := exec_bind_ok.mp h
    obtain ⟨ls, c₅, hb, h⟩ := exec_bind_ok.mp h
    cases h
    refine ⟨i.toList, n, u.toList, _, c₁, c₂, c₃, c₄, d, exec_buildOption_ok.mp hi, hn,
      exec_buildOption_ok.mp hu, exec_blocks_cons.mpr ⟨ls, [], c₄, hb, rfl, rfl⟩, hl, ?_⟩
    rw [Option.head?_toList, Option.head?_toList]
    exact (hmade i u n _ d).mp hm
  · rintro ⟨is, n, us, b, c₁, c₂, c₃, c₄, d, hi, hn, hu, hb, hl, hm⟩
    obtain ⟨ls, ms, c₅, hlines, hr, he⟩ := exec_blocks_cons.mp hb
    cases hr
    cases he
    refine ⟨(is.head?, n, us.head?, _), d, exec_inScope_ok.mpr ⟨c₄, ?_, hl⟩,
      (hmade is.head? us.head? n _ d).mpr hm⟩
    refine exec_bind_ok.mpr ⟨is.head?, c₁, exec_buildOption_ok.mpr ?_, ?_⟩
    · rw [toList_head?_of_exec hi]
      exact hi
    refine exec_bind_ok.mpr ⟨n, c₂, hn, exec_bind_ok.mpr ⟨us.head?, c₃, exec_buildOption_ok.mpr ?_,
      exec_bind_ok.mpr ⟨ls, c₄, hlines, rfl⟩⟩⟩
    rw [toList_head?_of_exec hu]
    exact hu

theorem exec_of_run {task : Task} {c d : Context} {t : List Event} {ns : List Node}
    (h : Run task c t ns d) : exec task.build c = (.ok ns, d) := by
  induction h with
  | nil | noBlock | noBinding | noLine => rfl
  | cons _ _ ih ih' => exact exec_buildAll_cons.mpr ⟨_, _, _, exec_one_node.mp ih, ih', rfl⟩
  | block _ leave _ ih ih' =>
    exact exec_blocks_cons.mpr ⟨_, _, _, exec_inScope_ok.mpr ⟨_, ih, leave⟩, ih', rfl⟩
  | @binding type name value rest vs ns n c d e f t t' _ _ bound _ ih ih' =>
    have hb : exec (make (Form.ofBinding type name (vs.head?.map Node.seen))) d = (.ok n, e) := by
      rw [exec_make]
      exact congrArg (fun p : Node × Context => (Except.ok p.1, p.2)) bound
    cases value with
    | none =>
      cases ih
      rw [Task.build, buildBindings]
      exact exec_bind_ok.mpr ⟨_, _, hb, exec_bind_ok.mpr ⟨_, _, ih', rfl⟩⟩
    | some a =>
      obtain ⟨v, vs', d', hv, hr, rfl⟩ := exec_buildAll_cons.mp ih
      cases hr
      rw [Task.build, buildBindings]
      exact exec_bind_ok.mpr
        ⟨_, _, hv, exec_bind_ok.mpr ⟨_, _, hb, exec_bind_ok.mpr ⟨_, _, ih', rfl⟩⟩⟩
  | line _ mark _ ih ih' =>
    exact exec_buildLines_cons.mpr
      ⟨_, _, _, _, exec_one_node.mp ih, exec_define_ok.mpr ⟨_, mark⟩, ih', rfl⟩
  | lined _ ih =>
    obtain ⟨n, hn, rfl⟩ := exec_one.mp ih
    refine exec_one_node.mpr ?_
    rw [Treewright.build]
    exact exec_bind_ok.mpr ⟨_, _, rfl, hn⟩
  | check operands _ _ ih =>
    refine exec_one_node.mpr ?_
    rw [Task.build] at ih
    rw [exec_build_of_operands operands, ih]
  | declaration _ _ ih =>
    refine exec_one_node.mpr ?_
    rw [Treewright.build]
    exact exec_bind_ok.mpr ⟨_, _, rfl, exec_bind_ok.mpr ⟨_, _, ih, rfl⟩⟩
  | @sizedArray type name size text n m c d e t _ _ render made ih =>
    have hs : exec (sizeText n) d = (.ok text, d) := by
      unfold sizeText
      rw [render]
      rfl
    have hm : exec (make (Form.ofArrayDecl type name text)) d = (.ok m, e) := by
      rw [exec_make]
      exact congrArg (fun p : Node × Context => (Except.ok p.1, p.2)) made
    refine exec_one_node.mpr ?_
    rw [Treewright.build]
    exact exec_bind_ok.mpr ⟨_, _, exec_one_node.mp ih, exec_bind_ok.mpr ⟨_, _, hs, hm⟩⟩
  | scope _ ih =>
    obtain ⟨ls, ms, e, h, hr, rfl⟩ := exec_blocks_cons.mp ih
    cases hr
    refine exec_one_node.mpr ?_
    rw [Treewright.build]
    exact exec_bind_ok.mpr ⟨_, _, h, rfl⟩
  | conditional _ _ made ih ih' =>
    exact exec_one_node.mpr (exec_conditional_ok.mpr
      ⟨_, _, _, _, _, exec_one_node.mp ih, ih', made⟩)
  | loop _ _ _ _ leave made ih₁ ih₂ ih₃ ih₄ =>
    exact exec_one_node.mpr (exec_loop_ok.mpr
      ⟨_, _, _, _, _, _, _, _, _, ih₁, exec_one_node.mp ih₂, ih₃, ih₄, leave, made⟩)
  | prototype _ bound =>
    exact exec_one_node.mpr ((exec_function_ok bound).mpr ⟨none, rfl, rfl⟩)
  | emptyBody _ bound mark leave =>
    refine exec_one_node.mpr ((exec_function_ok bound).mpr ⟨_, exec_buildBody_some.mpr ?_, rfl⟩)
    exact ⟨[], _, _, _, rfl, .inl ⟨rfl, rfl, _, mark⟩, leave, rfl⟩
  | function _ bound _ leave ih =>
    refine exec_one_node.mpr ((exec_function_ok bound).mpr ⟨_, exec_buildBody_some.mpr ?_, rfl⟩)
    refine ⟨_, _, _, _, ih, .inr ⟨?_, rfl, rfl⟩, leave, rfl⟩
    obtain ⟨n, ns, _, _, -, -, -, rfl⟩ := exec_buildLines_cons.mp ih
    simp

def Task.Runs (task : Task) : Prop :=
  ∀ c ns d, exec task.build c = (.ok ns, d) → ∃ t, Run task c t ns d

theorem runs_all {items : List Action} (h : ∀ a ∈ items, (Task.one a).Runs) :
    (Task.all items).Runs := by
  induction items with
  | nil =>
    intro c ns d he
    cases he
    exact ⟨[], .nil c⟩
  | cons a as ih =>
    intro c ns d he
    obtain ⟨n, ms, e, ha, has, rfl⟩ := exec_buildAll_cons.mp he
    obtain ⟨t, ht⟩ := h a (by simp) c [n] e (exec_one_node.mpr ha)
    obtain ⟨t', ht'⟩ := ih (fun b hb => h b (by simp [hb])) e ms d has
    exact ⟨t ++ t', .cons ht ht'⟩

theorem runs_blocks {blocks : List (String × List Action)}
    (h : ∀ b ∈ blocks, (Task.all b.2).Runs) : (Task.blocks blocks).Runs := by
  induction blocks with
  | nil =>
    intro c ns d he
    cases he
    exact ⟨[], .noBlock c⟩
  | cons b blocks ih =>
    intro c ns d he
    obtain ⟨ls, ms, f, hs, hr, rfl⟩ := exec_blocks_cons.mp he
    obtain ⟨e, hs, hl⟩ := exec_inScope_ok.mp hs
    obtain ⟨t, ht⟩ := h b (by simp) _ ls e hs
    obtain ⟨t', ht'⟩ := ih (fun b' hb' => h b' (by simp [hb'])) f ms d hr
    exact ⟨t ++ t', .block ht hl ht'⟩

theorem runs_bindings {type : Ty} (proper : type.isWritten = true)
    {items : List (Name × Option Action)} (h : ∀ b ∈ items, (Task.all b.2.toList).Runs) :
    (Task.bindings type items).Runs := by
  induction items with
  | nil =>
    intro c ns d he
    cases he
    exact ⟨[], .noBinding type c⟩
  | cons b items ih =>
    intro c ns d he
    obtain ⟨name, value⟩ := b
    have hrest := ih fun b' hb' => h b' (by simp [hb'])
    have hvalue := h (name, value) (by simp)
    -- With or without an initial value the node is made over what the value gave.
    have join (vs : List Node) {n : Node} {ms : List Node} {e f : Context}
        (hv : exec (buildAll value.toList) c = (.ok vs, e))
        (hm : exec (make (Form.ofBinding type name (vs.head?.map Node.seen))) e = (.ok n, f))
        (hr : exec (buildBindings type items) f = (.ok ms, d)) :
        ∃ t, Run (.bindings type ((name, value) :: items)) c t (n :: ms) d := by
      obtain ⟨t, ht⟩ := hvalue c vs e hv
      obtain ⟨t', ht'⟩ := hrest f ms d hr
      rw [exec_make] at hm
      cases hm
      exact ⟨_, .binding proper ht rfl ht'⟩
    cases value with
    | none =>
      rw [Task.build, buildBindings] at he
      obtain ⟨n, f, hm, he⟩ := exec_bind_ok.mp he
      obtain ⟨ms, g, hr, he⟩ := exec_bind_ok.mp he
      cases he
      exact join [] rfl hm hr
    | some a =>
      rw [Task.build, buildBindings] at he
      obtain ⟨v, e, hv, he⟩ := exec_bind_ok.mp he
      obtain ⟨n, f, hm, he⟩ := exec_bind_ok.mp he
      obtain ⟨ms, g, hr, he⟩ := exec_bind_ok.mp he
      cases he
      exact join [v] (exec_buildAll_cons.mpr ⟨v, [], e, hv, rfl, rfl⟩) hm hr

theorem runs_body {name : Name} {own : Option Symbol} {items : List Action}
    (h : ∀ a ∈ items, (Task.one a).Runs) : (Task.body name own items).Runs := by
  induction items with
  | nil =>
    intro c ns d he
    cases he
    exact ⟨[], .noLine name own c⟩
  | cons a as ih =>
    intro c ns d he
    obtain ⟨n, ms, e, f, ha, hd, has, rfl⟩ := exec_buildLines_cons.mp he
    obtain ⟨t, ht⟩ := h a (by simp) c [n] e (exec_one_node.mpr ha)
    obtain ⟨marks, hm⟩ := exec_define_ok.mp hd
    obtain ⟨t', ht'⟩ := ih (fun b hb => h b (by simp [hb])) f ms d has
    exact ⟨_, .line ht hm ht'⟩

theorem runs_check {action : Action} {items : List Action}
    (operands : action.operands? = some items) (proper : action.Proper)
    (h : (Task.all items).Runs) : (Task.one action).Runs := by
  intro c ns d he
  obtain ⟨n, hn, rfl⟩ := exec_one.mp he
  rw [exec_build_of_operands operands] at hn
  cases hb : exec (buildAll items) c with
  | mk r e =>
    rw [hb] at hn
    cases r with
    | error fault => cases hn
    | ok nodes =>
      cases hn
      obtain ⟨t, ht⟩ := h c _ _ hb
      exact ⟨_, .check operands proper ht⟩

theorem runs_declaration {type : Ty} {kind symbolType : String}
    {bindings : List (Name × Option Action)}
    (proper : (Action.declaration type kind symbolType bindings).Proper)
    (h : (Task.bindings type bindings).Runs) :
    (Task.one (.declaration type kind symbolType bindings)).Runs := by
  intro c ns d he
  obtain ⟨n, hn, rfl⟩ := exec_one.mp he
  rw [build, exec_bind, exec_get] at hn
  obtain ⟨ns, e, hb, hp⟩ := exec_bind_ok.mp hn
  cases hp
  obtain ⟨t, ht⟩ := h c ns d hb
  exact ⟨t, .declaration proper ht⟩

theorem runs_sizedArray {type : Ty} {name : Name} {size : Action}
    (proper : (Action.sizedArray type name size).Proper) (h : (Task.one size).Runs) :
    (Task.one (.sizedArray type name size)).Runs := by
  intro c ns d he
  obtain ⟨n, hn, rfl⟩ := exec_one.mp he
  rw [build] at hn
  obtain ⟨m, e, hs, hn⟩ := exec_bind_ok.mp hn
  obtain ⟨text, f, hr, hm⟩ := exec_bind_ok.mp hn
  obtain ⟨t, ht⟩ := h c [m] e (exec_one_node.mpr hs)
  unfold sizeText at hr
  cases hrender : m.render 0 with
  | error fault => simp [hrender, exec_fail] at hr
  | ok text' =>
    rw [hrender] at hr
    cases hr
    rw [exec_make] at hm
    cases hm
    exact ⟨_, .sizedArray proper ht hrender rfl⟩

theorem runs_block {lines : List Action} (h : (Task.blocks [("Block", lines)]).Runs) :
    (Task.one (.block lines)).Runs := by
  intro c ns d he
  obtain ⟨n, hn, rfl⟩ := exec_one.mp he
  rw [build] at hn
  obtain ⟨ls, e, hs, hp⟩ := exec_bind_ok.mp hn
  cases hp
  obtain ⟨t, ht⟩ := h c _ d (exec_blocks_cons.mpr ⟨ls, [], d, hs, rfl, rfl⟩)
  exact ⟨t, .scope ht⟩

theorem runs_conditional {condition : Action} {accepted : List Action}
    {rejected : Option (List Action)} (hc : (Task.one condition).Runs)
    (hb : (Task.blocks (branches accepted rejected)).Runs) :
    (Task.one (.conditional condition accepted rejected)).Runs := by
  intro c ns d he
  obtain ⟨n, hn, rfl⟩ := exec_one.mp he
  obtain ⟨m, b, bs, e, f, htest, hblocks, hm⟩ := exec_conditional_ok.mp hn
  obtain ⟨t, ht⟩ := hc c [m] e (exec_one_node.mpr htest)
  obtain ⟨t', ht'⟩ := hb e _ f hblocks
  exact ⟨_, .conditional ht ht' hm⟩

theorem runs_loop {init update : Option Action} {test : Action} {body : List Action}
    (hh : ∀ a ∈ init.toList ++ update.toList, (Task.one a).Runs) (ht : (Task.one test).Runs)
    (hb : (Task.blocks [("Body", body)]).Runs) : (Task.one (.loop init test update body)).Runs := by
  intro c ns d he
  obtain ⟨n, hn, rfl⟩ := exec_one.mp he
  obtain ⟨is, m, us, b, c₁, c₂, c₃, c₄, e, hi, hm, hu, hs, hl, made⟩ := exec_loop_ok.mp hn
  obtain ⟨t₁, h₁⟩ := runs_all (fun a ha => hh a (by simp [ha])) _ is c₁ hi
  obtain ⟨t₂, h₂⟩ := ht c₁ [m] c₂ (exec_one_node.mpr hm)
  obtain ⟨t₃, h₃⟩ := runs_all (fun a ha => hh a (by simp [ha])) _ us c₃ hu
  obtain ⟨t₄, h₄⟩ := hb c₃ [b] c₄ hs
  exact ⟨_, .loop h₁ h₂ h₃ h₄ hl made⟩

theorem runs_function {returns : Ty} {name : Name} {params : List (Ty × Name)}
    {body : Option (List Action)} (proper : (Action.function returns name params body).Proper)
    (h : ∀ a ∈ body.getD [], (Task.one a).Runs) :
    (Task.one (.function returns name params body)).Runs := by
  intro c ns d he
  obtain ⟨n, hn, rfl⟩ := exec_one.mp he
  cases hbound : c.bind returns name params with
  | mk own e =>
    obtain ⟨node, hnode, rfl⟩ := (exec_function_ok hbound).mp hn
    cases body with
    | none =>
      rw [buildBody] at hnode
      cases hnode
      exact ⟨_, .prototype proper hbound⟩
    | some lines =>
      obtain ⟨ns, ms, f, g, hb, hm, hl, rfl⟩ := exec_buildBody_some.mp hnode
      cases lines with
      | nil =>
        cases hb
        rcases hm with ⟨-, rfl, marks, hmark⟩ | ⟨hne, -, -⟩
        · exact ⟨_, .emptyBody proper hbound hmark hl⟩
        · contradiction
      | cons a as =>
        obtain ⟨n, ns', _, _, -, -, -, rfl⟩ := exec_buildLines_cons.mp hb
        rcases hm with ⟨hnil, -, -⟩ | ⟨-, rfl, rfl⟩
        · cases hnil
        · obtain ⟨t, ht⟩ := runs_body h _ _ _ hb
          exact ⟨_, .function proper hbound ht hl⟩

theorem Action.Fits.runs {allowed : Policy} {position : Position} {action : Action}
    (h : action.Fits allowed position) : (Task.one action).Runs := by
  induction h with
  | lined line _ ih =>
    intro c ns d he
    obtain ⟨n, hn, rfl⟩ := exec_one.mp he
    rw [build, exec_bind, exec_modify] at hn
    obtain ⟨t, ht⟩ := ih _ _ _ (exec_one_node.mpr hn)
    exact ⟨t, .lined ht⟩
  | @intro position action unlined here proper inside ih =>
    cases ho : action.operands? with
    | some items =>
      exact runs_check ho proper (runs_all fun a ha => ih _ (Action.mem_parts_of_operands? ho ha))
    | none =>
      cases action <;> simp only [Action.operands?, Action.isLined, reduceCtorEq] at ho unlined
      case faulty before flaw =>
        -- A flaw is a fault once the actions before it are built.
        intro c ns d he
        obtain ⟨n, hn, rfl⟩ := exec_one.mp he
        rw [build] at hn
        obtain ⟨_, _, -, hf⟩ := exec_bind_ok.mp hn
        cases hf
      case declaration type kind symbolType bindings =>
        refine runs_declaration proper (runs_bindings proper fun b hb => runs_all fun a ha => ?_)
        exact ih (.expression, a) (Action.mem_parts_binding hb ha)
      case sizedArray type name size =>
        exact runs_sizedArray proper (ih (.size, size) (by simp [Action.parts]))
      case operation op items => cases (Action.operands?_operation proper).symm.trans ho
      case block lines =>
        refine runs_block (runs_blocks fun b hb => runs_all fun a ha => ih (.statement, a) ?_)
        rw [List.mem_singleton.mp hb] at ha
        simpa [Action.parts] using ha
      case conditional condition accepted rejected =>
        refine runs_conditional (ih (.expression, condition) (by simp [Action.parts]))
          (runs_blocks fun b hb => runs_all fun a ha => ih (.statement, a) ?_)
        exact mem_parts_branches hb ha
      case loop init test update body =>
        refine runs_loop (fun a ha => ih (.header, a) (Action.mem_parts_header ha))
          (ih (.expression, test) (by simp [Action.parts]))
          (runs_blocks fun b hb => runs_all fun a ha => ih (.statement, a) ?_)
        rw [List.mem_singleton.mp hb] at ha
        simp [Action.parts, ha]
      case function returns name params body =>
        exact runs_function proper fun a ha => ih (.statement, a) (by simpa [Action.parts] using ha)

end Treewright
