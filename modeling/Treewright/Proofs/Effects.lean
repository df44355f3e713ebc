import Treewright.Proofs.Run
set_option autoImplicit false

namespace Treewright

open Build

namespace Steps

variable {R : Context → Context → Prop} (hR : Steps R)

include hR

theorem declareAll {params : List (Ty × Name)} (h : ∀ p ∈ params, p.1.isWritten = true)
    (c : Context) : R c (c.declareAll params) := by
  induction params generalizing c with
  | nil => exact hR.refl c
  | cons p params ih =>
    have hp : p.1.Stored := .plain (h p (by simp))
    exact hR.trans (hR.declare c p.2 c.line hp) (ih (fun q hq => h q (by simp [hq])) _)

theorem boundNode {type : Ty} (h : type.isWritten = true) {name : Name} {value : Option Node}
    {c d : Context} {n : Node} (hb : boundNode type name value c = (n, d)) : R c d := by
  cases hb
  exact hR.trans (hR.declare c name c.line (.plain h)) (hR.report _ _)

theorem mark {c d : Context} {name : Name} {own : Option Symbol} {marks : List Event}
    (h : c.mark? name own = some (marks, d)) : R c d := by
  cases own with
  | none =>
    cases h
    exact hR.refl c
  | some own =>
    obtain ⟨found, hf, he⟩ := Option.map_eq_some_iff.mp h
    cases he
    exact hR.define (by rw [Table.define?_eq, hf]; rfl)

theorem bind {c d : Context} {returns : Ty} {name : Name} {params : List (Ty × Name)}
    {own : Option Symbol} {body : Option (List Action)}
    (proper : (Action.function returns name params body).Proper)
    (h : c.bind returns name params = (own, d)) : R c d := by
  cases h
  refine hR.declareFunction c name c.line (fun p hp => ?_) proper.1
  obtain ⟨q, hq, rfl⟩ := List.mem_map.mp hp
  exact proper.2 q hq

theorem conditional {n b m : Node} {r : Option Node} {c d : Context}
    (h : conditionalNode n b r c = (m, d)) : R c d := by
  cases h
  exact hR.report c _

theorem loop {n b m : Node} {i u : Option Node} {c d : Context}
    (h : loopNode i n u b c = (m, d)) : R c d := by
  cases h
  exact hR.report c _

end Steps

theorem Run.respects {R : Context → Context → Prop} (hR : Steps R) {task : Task} {c d : Context}
    {t : List Event} {ns : List Node} (h : Run task c t ns d) : R c d := by
  induction h with
  | nil c | noBlock c | noBinding _ c | noLine _ _ c => exact hR.refl c
  | cons _ _ ih ih' => exact hR.trans ih ih'
  | block _ leave _ ih ih' => exact hR.trans (hR.scope ih leave) ih'
  | binding proper _ bound _ ih ih' =>
    exact hR.trans (hR.trans ih (hR.boundNode proper bound)) ih'
  | line _ mark _ ih ih' => exact hR.trans (hR.trans ih (hR.mark mark)) ih'
  | lined _ ih => exact hR.trans (hR.advance _ _) ih
  | check _ proper _ ih => exact hR.trans ih (hR.made _ proper _ _)
  | declaration _ _ ih | scope _ ih => exact ih
  | @sizedArray type name _ text _ _ _ d _ _ proper _ _ made ih =>
    have hm := hR.made (.arrayDecl type name text) proper [] d
    rw [made] at hm
    exact hR.trans ih hm
  | conditional _ _ made ih ih' => exact hR.trans (hR.trans ih ih') (hR.conditional made)
  | loop _ _ _ _ leave made ih₁ ih₂ ih₃ ih₄ =>
    have hin := hR.trans (hR.trans ih₁ ih₂) (hR.trans ih₃ ih₄)
    exact hR.trans (hR.scope hin leave) (hR.loop made)
  | prototype proper bound => exact hR.bind proper bound
  | emptyBody proper bound mark leave =>
    have hin := hR.trans (hR.declareAll proper.2 _) (hR.mark mark)
    exact hR.trans (hR.bind proper bound) (hR.scope hin leave)
  | function proper bound _ leave ih =>
    have hin := hR.trans (hR.declareAll proper.2 _) ih
    exact hR.trans (hR.bind proper bound) (hR.scope hin leave)

section

variable {task : Task} {c d : Context} {t : List Event} {ns : List Node}

theorem Run.extends (h : Run task c t ns d) : c.Extends d := h.respects steps_extends

theorem Run.sound (h : Run task c t ns d) : c.table.Sound → d.table.Sound := h.respects steps_sound

end

theorem diagnosticsOf_append (t t' : List Event) :
    diagnosticsOf (t ++ t') = diagnosticsOf t ++ diagnosticsOf t' := List.filterMap_append

@[simp] theorem diagnosticsOf_inSize (t : List Event) :
    diagnosticsOf (t.map Event.inSize) = diagnosticsOf t := by
  have h (e : Event) : e.inSize.diagnostic? = e.diagnostic? := by cases e <;> rfl
  rw [diagnosticsOf, List.filterMap_map, show Event.diagnostic? ∘ Event.inSize = _ from funext h,
    diagnosticsOf]

@[simp] theorem diagnosticsOf_accepted (own : Option Symbol) (name : Name)
    (body : Option (List Action)) : diagnosticsOf (accepted own name body) = [] := by
  cases own <;> rfl

theorem diagnosticsOf_mark {c d : Context} {name : Name} {own : Option Symbol} {marks : List Event}
    (h : c.mark? name own = some (marks, d)) :
    diagnosticsOf marks = [] ∧ d.log = c.log := by
  cases own with
  | none =>
    cases h
    exact ⟨rfl, rfl⟩
  | some own =>
    obtain ⟨found, -, he⟩ := Option.map_eq_some_iff.mp h
    cases he
    exact ⟨rfl, rfl⟩

theorem diagnosticsOf_reported {c d : Context} (h : c.log.diagnostics <+: d.log.diagnostics)
    (source : Source) :
    d.log.diagnostics = c.log.diagnostics ++ diagnosticsOf (reported source c d) := by
  obtain ⟨new, hn⟩ := h
  have he : diagnosticsOf (reported source c d) =
      d.log.diagnostics.drop c.log.diagnostics.length := by
    rw [diagnosticsOf, reported, List.filterMap_map]
    exact List.filterMap_some
  rw [he, ← hn]
  simp

theorem diagnosticsOf_reported_eq_nil {source : Source} {c d : Context} :
    diagnosticsOf (reported source c d) = [] ↔ reported source c d = [] := by
  rw [diagnosticsOf, reported, List.filterMap_map]
  change List.filterMap some _ = [] ↔ _
  rw [List.filterMap_some, List.map_eq_nil_iff]

theorem inner_of_mark {c d : Context} {name : Name} {own : Option Symbol}
    {marks : List Event} (h : c.mark? name own = some (marks, d)) :
    d.table.inner = c.table.inner := by
  cases own with
  | none =>
    cases h
    rfl
  | some own =>
    obtain ⟨found, -, he⟩ := Option.map_eq_some_iff.mp h
    cases he
    unfold Table.mark
    split <;> rfl

theorem diagnosticsOf_checked (action : Action) (nodes : List Node) (c : Context) :
    diagnosticsOf (action.checked nodes c) =
      diagnosticsOf (reported .node c (action.made nodes c).2) := by
  unfold Action.checked
  rw [diagnosticsOf_append]
  split <;> rfl

theorem Context.log_leave? {c d : Context} (h : c.leave? = some d) : d.log = c.log := by
  obtain ⟨scope, outer, -, rfl⟩ := c.leave?_eq h
  rfl

theorem extends_inside {returns : Ty} {name : Name} {params : List (Ty × Name)}
    {body : Option (List Action)} (proper : (Action.function returns name params body).Proper)
    (c : Context) : (c.enter name).Extends (c.inside name params) :=
  steps_extends.declareAll proper.2 (c.enter name)

theorem diagnosticsOf_opening {c d : Context} {returns : Ty} {name : Name}
    {params : List (Ty × Name)} {own : Option Symbol} {body : Option (List Action)}
    (proper : (Action.function returns name params body).Proper)
    (bound : c.bind returns name params = (own, d)) :
    (d.inside name params).log.diagnostics = c.log.diagnostics ++
      diagnosticsOf (reported .node c d ++ accepted own name body ++
        reported .parameter d (d.inside name params)) := by
  have hparams : d.log.diagnostics <+: (d.inside name params).log.diagnostics :=
    (extends_inside proper d).log
  rw [diagnosticsOf_reported hparams .parameter,
    diagnosticsOf_reported (steps_extends.bind proper bound).log .node]
  simp only [diagnosticsOf_append, diagnosticsOf_accepted, List.nil_append, List.append_assoc]

theorem Run.diagnostics {task : Task} {c d : Context} {t : List Event} {ns : List Node}
    (h : Run task c t ns d) : d.log.diagnostics = c.log.diagnostics ++ diagnosticsOf t := by
  induction h with
  | nil c | noBlock c | noBinding _ c | noLine _ _ c => simp [diagnosticsOf]
  | cons _ _ ih ih' => rw [ih', ih, diagnosticsOf_append, List.append_assoc]
  | block _ leave _ ih ih' =>
    rw [ih', Context.log_leave? leave, ih, diagnosticsOf_append, List.append_assoc]
    rfl
  | binding proper _ bound _ ih ih' =>
    have hlog := (steps_extends.boundNode proper bound).log
    rw [ih', diagnosticsOf_reported hlog .node, ih]
    simp only [diagnosticsOf_append, List.append_assoc]
  | line _ mark _ ih ih' =>
    obtain ⟨hm, hl⟩ := diagnosticsOf_mark mark
    rw [ih', hl, ih]
    simp only [diagnosticsOf_append, hm, List.nil_append, List.append_assoc]
  | lined _ ih => simpa [Context.advanceTo] using ih
  | @check action _ ns _ d _ _ proper _ ih =>
    have hlog := (steps_extends.made action proper ns d).log
    rw [diagnosticsOf_reported hlog .node, ih, diagnosticsOf_append, diagnosticsOf_checked,
      List.append_assoc]
  | declaration _ _ ih | scope _ ih => exact ih
  | @sizedArray type name _ text _ _ _ d _ _ proper _ _ made ih =>
    have hext := steps_extends.made (.arrayDecl type name text) proper [] d
    rw [made] at hext
    rw [diagnosticsOf_reported hext.log .node, ih]
    simp only [diagnosticsOf_append, diagnosticsOf_inSize, List.append_assoc]
  | conditional _ _ made ih ih' =>
    have hlog := (steps_extends.conditional made).log
    rw [diagnosticsOf_reported hlog .node, ih', ih]
    simp only [diagnosticsOf_append, List.append_assoc]
  | @loop _ _ _ _ _ _ _ _ _ c _ _ _ _ _ _ _ _ _ _ _ _ _ _ leave made ih₁ ih₂ ih₃ ih₄ =>
    have hlog := (steps_extends.loop made).log
    have henter : (c.enter .nothing).log = c.log := rfl
    rw [diagnosticsOf_reported hlog .node, Context.log_leave? leave, ih₄, ih₃, ih₂, ih₁, henter]
    simp only [diagnosticsOf_append, List.append_assoc]
  | prototype proper bound =>
    have hlog := (steps_extends.bind proper bound).log
    rw [diagnosticsOf_reported hlog .node]
    simp only [diagnosticsOf_append, diagnosticsOf_accepted, List.append_nil]
  | emptyBody proper bound mark leave =>
    obtain ⟨hm, hl⟩ := diagnosticsOf_mark mark
    rw [Context.log_leave? leave, hl, diagnosticsOf_opening proper bound]
    simp only [diagnosticsOf_append, hm, List.append_nil]
  | function proper bound _ leave ih =>
    rw [Context.log_leave? leave, ih, diagnosticsOf_opening proper bound]
    simp only [diagnosticsOf_append, List.append_assoc]

def flawless : Policy := fun _ kind => kind ≠ .flawed

instance (position : Position) (kind : Kind) : Decidable (flawless position kind) :=
  inferInstanceAs (Decidable (kind ≠ .flawed))

namespace Action

theorem flawless_of_operands? {action : Action} {items : List Action}
    (h : action.operands? = some items) : action.isLined = false ∧ action.kind ≠ .flawed := by
  cases action <;> simp_all [operands?, isLined, kind]

theorem Fits.flawless_anywhere {position : Position} {action : Action}
    (h : action.Fits flawless position) (position' : Position) : action.Fits flawless position' :=
  h.imp (fun hk => hk) fun _ _ hk => hk

theorem Fits.flawless_intro {action : Action} (unlined : action.isLined = false)
    (kind : action.kind ≠ .flawed) (proper : action.Proper)
    (inside : ∀ part ∈ action.parts, part.2.Fits flawless .item) : action.Fits flawless .item :=
  .intro unlined kind proper fun part hp => (inside part hp).flawless_anywhere part.1

end Action

def Task.actions : Task → List Action
  | .one action => [action]
  | .all items => items
  | .blocks items => items.flatMap (·.2)
  | .bindings _ items => items.flatMap (·.2.toList)
  | .body _ _ items => items

def Task.count : Task → Nat
  | .one _ => 1
  | .all items => items.length
  | .blocks items => items.length
  | .bindings _ items => items.length
  | .body _ _ items => items.length

theorem Run.length_eq {task : Task} {c d : Context} {t : List Event} {ns : List Node}
    (h : Run task c t ns d) : ns.length = task.count := by
  induction h with
  | cons _ _ _ ih | block _ _ _ _ ih | binding _ _ _ _ _ ih | line _ _ _ _ ih =>
    simp_all [Task.count]
  | lined _ ih | scope _ ih => exact ih
  | _ => rfl

theorem length_of_run_option {item : Option Action} {c d : Context} {t : List Event}
    {ns : List Node} (h : Run (.all item.toList) c t ns d) : ns.length ≤ 1 := by
  rw [h.length_eq]
  cases item <;> simp [Task.count]

theorem length_of_run_branches {accepted : List Action} {rejected : Option (List Action)}
    {c d : Context} {t : List Event} {b : Node} {bs : List Node}
    (h : Run (.blocks (branches accepted rejected)) c t (b :: bs) d) : bs.length ≤ 1 := by
  have hl := h.length_eq
  cases rejected <;> simp_all [branches, Task.count]

theorem Run.fits {task : Task} {c d : Context} {t : List Event} {ns : List Node}
    (h : Run task c t ns d) : ∀ a ∈ task.actions, a.Fits flawless .item := by
  induction h with
  | nil | noBlock | noBinding | noLine => simp [Task.actions]
  | cons _ _ ih ih' =>
    intro a ha
    rcases List.mem_cons.mp ha with rfl | ha
    · exact ih a (by simp [Task.actions])
    · exact ih' a ha
  | block _ _ _ ih ih' =>
    intro a ha
    simp only [Task.actions, List.flatMap_cons, List.mem_append] at ha
    exact ha.elim (ih a) (ih' a)
  | binding _ _ _ _ ih ih' =>
    intro a ha
    simp only [Task.actions, List.flatMap_cons, List.mem_append] at ha
    exact ha.elim (ih a) (ih' a)
  | line _ _ _ ih ih' =>
    intro a ha
    rcases List.mem_cons.mp ha with rfl | ha
    · exact ih a (by simp [Task.actions])
    · exact ih' a ha
  | lined _ ih =>
    intro a ha
    rw [List.mem_singleton.mp ha]
    exact .lined _ (ih _ (by simp [Task.actions]))
  | check operands proper _ ih =>
    obtain ⟨hl, hk⟩ := Action.flawless_of_operands? operands
    intro a ha
    rw [List.mem_singleton.mp ha]
    refine .flawless_intro hl hk proper fun part hp => ?_
    rw [Action.parts_of_operands? operands] at hp
    obtain ⟨b, hb, rfl⟩ := List.mem_map.mp hp
    exact ih b hb
  | declaration proper _ ih =>
    intro a ha
    rw [List.mem_singleton.mp ha]
    refine .flawless_intro rfl (by simp [Action.kind]) proper fun part hp => ih part.2 ?_
    simp only [Action.parts, List.mem_flatMap, List.mem_map] at hp
    obtain ⟨b, hb, x, hx, rfl⟩ := hp
    exact List.mem_flatMap.mpr ⟨b, hb, hx⟩
  | sizedArray proper _ _ _ ih =>
    intro a ha
    rw [List.mem_singleton.mp ha]
    refine .flawless_intro rfl (by simp [Action.kind]) proper fun part hp => ih part.2 ?_
    rw [List.mem_singleton.mp hp]
    simp [Task.actions]
  | scope _ ih =>
    intro a ha
    rw [List.mem_singleton.mp ha]
    refine .flawless_intro rfl (by simp [Action.kind]) trivial fun part hp => ih part.2 ?_
    obtain ⟨b, hb, rfl⟩ := List.mem_map.mp hp
    simpa [Task.actions] using hb
  | conditional _ _ _ ih ih' =>
    intro a ha
    rw [List.mem_singleton.mp ha]
    refine .flawless_intro rfl (by simp [Action.kind]) trivial fun part hp => ?_
    rcases List.mem_cons.mp hp with rfl | hp
    · exact ih _ (by simp [Task.actions])
    · obtain ⟨b, hb, rfl⟩ := List.mem_map.mp hp
      exact ih' b (by rwa [Task.actions, flatMap_branches])
  | loop _ _ _ _ _ _ ih₁ ih₂ ih₃ ih₄ =>
    intro a ha
    rw [List.mem_singleton.mp ha]
    refine .flawless_intro rfl (by simp [Action.kind]) trivial fun part hp => ?_
    simp only [Action.parts, List.mem_append, List.mem_cons, List.mem_map] at hp
    rcases hp with (rfl | ⟨b, hb | hb, rfl⟩) | ⟨b, hb, rfl⟩
    · exact ih₂ _ (by simp [Task.actions])
    · exact ih₁ b hb
    · exact ih₃ b hb
    · exact ih₄ b (by simpa [Task.actions] using hb)
  | prototype proper _ | emptyBody proper _ _ _ =>
    intro a ha
    rw [List.mem_singleton.mp ha]
    exact .flawless_intro rfl (by simp [Action.kind]) proper fun part hp => by
      simp [Action.parts] at hp
  | function proper _ _ _ ih =>
    intro a ha
    rw [List.mem_singleton.mp ha]
    refine .flawless_intro rfl (by simp [Action.kind]) proper fun part hp => ih part.2 ?_
    obtain ⟨b, hb, rfl⟩ := List.mem_map.mp hp
    simpa [Task.actions] using hb

namespace Node

theorem firstFault?_eq_none {ns : List Node} :
    firstFault? ns = none ↔ ∀ n ∈ ns, n.fault? = none := by
  induction ns with
  | nil => simp [firstFault?]
  | cons n ns ih => simp [firstFault?, ih]

theorem optionFault?_eq_none {n : Option Node} :
    optionFault? n = none ↔ ∀ m ∈ n.toList, m.fault? = none := by
  cases n <;> simp [optionFault?]

theorem optionFault?_head? {ns : List Node} (h : ∀ n ∈ ns, n.fault? = none) :
    optionFault? ns.head? = none :=
  optionFault?_eq_none.mpr fun m hm => h m (List.mem_of_mem_head? (by simpa using hm))

theorem bodyFault?_eq_none {n : Option Node} (h : optionFault? n = none) : bodyFault? n = none := by
  cases n with
  | none => rfl
  | some m =>
    rw [optionFault?] at h
    simp [bodyFault?, h]

theorem lineFault?_eq_none {ns : List Node} (h : ∀ n ∈ ns, n.fault? = none) :
    lineFault? ns = none := by
  induction ns with
  | nil => rfl
  | cons n ns ih =>
    rw [lineFault?, h n (by simp), ih fun m hm => h m (by simp [hm])]
    simp

theorem fault?_operation {mark : Mark} {style : Style} {op : Op} {operands : List Node}
    {expected : Ty} {result : Option Ty} {coerced : List Nat} {failed : Bool}
    (hs : style.fault? op = none) (h : ∀ n ∈ operands, n.fault? = none) :
    (Node.mk mark (.operation style op operands expected result coerced failed)).fault? = none := by
  match operands with
  | [] => simp [fault?]
  | [n] => simp [fault?, hs, h n]
  | n :: m :: rest =>
    have hr := firstFault?_eq_none.mpr fun x hx => h x (List.mem_cons_of_mem n hx)
    simp [fault?, hs, h n, hr]

end Node

theorem fault?_styleOf {op : Op} (h : op.isReserved = false) (count : Nat) :
    (styleOf op count).1.fault? (styleOf op count).2 = none := by
  have hg := Op.glyph?_isSome_of_not_reserved h
  have hn : op.glyph?.isNone = false := by simpa using hg
  unfold styleOf
  split
  · rfl
  · split
    · simp [Style.fault?, hn]
    · split <;> simp [Style.fault?, hn]

theorem fault?_made {action : Action} (proper : action.Proper) {nodes : List Node}
    (h : ∀ n ∈ nodes, n.fault? = none) (c : Context) : (action.made nodes c).1.fault? = none := by
  have hseen : ∀ n ∈ (nodes.map Node.seen).map Prod.fst, n.fault? = none := by
    rwa [Node.map_fst_seen]
  unfold Action.made
  split
  case h_1 | h_2 | h_3 | h_13 => rfl
  case h_4 op _ => exact Node.fault?_operation (fault?_styleOf proper.1 _) hseen
  case h_5 | h_6 => exact Node.fault?_operation rfl hseen
  case h_7 target value =>
    have ht := h target (by simp)
    have hv := h value (by simp)
    simp [Form.ofAssignment, Node.seen, Node.fault?, ht, hv]
  case h_8 => exact Node.optionFault?_head? h
  case h_9 name _ => exact Node.firstFault?_eq_none.mpr h
  case h_10 index =>
    have hi := h index (by simp)
    simp [Form.ofAccess, Node.seen, Node.fault?, hi]
  case h_11 operand | h_12 operand =>
    have ho := h operand (by simp)
    simp [Form.ofWrapper, Node.seen, Node.fault?, ho]

theorem fault?_functionNode (line : Int) (returns : Ty) (name : Name) (params : List (Ty × Name))
    (rejected : Bool) {body : Option Node} (h : Node.optionFault? body = none) :
    (functionNode line returns name params rejected body).fault? = none := by
  simp [functionNode, Node.fault?, Node.optionFault?, Node.bodyFault?_eq_none h]

theorem Run.renders {task : Task} {c d : Context} {t : List Event} {ns : List Node}
    (h : Run task c t ns d) : ∀ n ∈ ns, n.fault? = none := by
  induction h with
  | nil | noBlock | noBinding | noLine => simp
  | cons _ _ ih ih' | line _ _ _ ih ih' =>
    simp only [List.mem_singleton, forall_eq] at ih
    simpa using ⟨ih, ih'⟩
  | block _ _ _ ih ih' =>
    have hb : (Build.block ‹String› _).fault? = none := Node.lineFault?_eq_none ih
    simpa using ⟨hb, ih'⟩
  | @binding _ _ value _ vs _ _ _ _ _ _ _ _ _ _ bound _ ih ih' =>
    cases bound
    have hv := Node.optionFault?_head? ih
    intro n hn
    rcases List.mem_cons.mp hn with rfl | hn
    · cases hh : vs.head? with
      | none => simp [Node.fault?, Node.optionFault?]
      | some v =>
        rw [hh] at hv
        simpa [Form.ofBinding, Node.fault?, Node.seen] using hv
    · exact ih' n hn
  | lined _ ih | scope _ ih => exact ih
  | check _ proper _ ih => simpa using fault?_made proper ih _
  | declaration _ _ ih =>
    intro n hn
    rw [List.mem_singleton.mp hn]
    exact Node.firstFault?_eq_none.mpr ih
  | sizedArray _ _ _ made _ =>
    cases made
    simp [Node.fault?]
  | conditional _ _ made ih ih' =>
    cases made
    have hc := ih _ (List.mem_singleton.mpr rfl)
    have ha := ih' _ List.mem_cons_self
    have hr := Node.optionFault?_head? fun m hm => ih' m (List.mem_cons_of_mem _ hm)
    simp [Node.seen, Node.fault?, hc, ha, Node.bodyFault?_eq_none hr]
  | loop _ _ _ _ _ made ih₁ ih₂ ih₃ ih₄ =>
    cases made
    simp only [List.mem_singleton, forall_eq] at ih₂ ih₄
    have hi := Node.optionFault?_head? ih₁
    have hu := Node.optionFault?_head? ih₃
    simp [Node.seen, Node.fault?, ih₂, ih₄, hi, hu]
  | prototype =>
    intro n hn
    rw [List.mem_singleton.mp hn]
    exact fault?_functionNode _ _ _ _ _ rfl
  | emptyBody =>
    intro n hn
    rw [List.mem_singleton.mp hn]
    exact fault?_functionNode _ _ _ _ _ (Node.lineFault?_eq_none (by simp [Node.fault?]))
  | function _ _ _ _ ih =>
    intro n hn
    rw [List.mem_singleton.mp hn]
    exact fault?_functionNode _ _ _ _ _ (Node.lineFault?_eq_none ih)

theorem Context.Extends.exists_leave {c d : Context} {name : Name} (h : (c.enter name).Extends d) :
    ∃ e, d.leave? = some e := by
  have ho : d.table.outer = c.table.inner :: c.table.outer := h.table.outer
  unfold Context.leave? Table.leave?
  rw [ho]
  exact ⟨_, rfl⟩

theorem Table.functionNamed_enter (t : Table) (scope name : Name) :
    (t.enter scope).functionNamed name = t.functionNamed name := rfl

theorem Table.Extends.functionNamed_isSome {s t : Table} (h : s.Extends t) {name : Name}
    (hs : (s.functionNamed name).isSome = true) : (t.functionNamed name).isSome = true := by
  obtain ⟨new, hf, -⟩ := h.functions
  simp only [Table.functionNamed, Table.scopes, List.findSome?_cons, h.outer,
    Scope.functionNamed, hf, List.find?_append] at hs ⊢
  cases hi : s.inner.functions.find? fun x => x.name.same name with
  | some f => simp
  | none =>
    rw [hi] at hs
    cases new.find? fun x => x.name.same name with
    | some f => simp
    | none => simpa using hs

theorem bind_visible {c d : Context} {returns : Ty} {name : Name} {params : List (Ty × Name)}
    {own : Option Symbol} (h : c.bind returns name params = (own, d)) (ho : own.isSome = true) :
    d.table.inner.functionNamed name = own := by
  unfold Context.bind at h
  cases hd : c.declareFunction name (signatureOf params) returns c.line with
  | mk rejected e =>
    rw [hd] at h
    cases h
    cases rejected with
    | true => cases ho
    | false => rfl

theorem Context.inner_leave {c d e : Context} {name : Name} (h : (c.enter name).Extends d)
    (hl : d.leave? = some e) :
    e.table.inner = c.table.inner ∧ e.table.symbols = d.table.symbols ∧
      e.table.defined = d.table.defined := by
  obtain ⟨scope, outer, ho, rfl⟩ := Context.leave?_eq hl
  have houter : d.table.outer = c.table.inner :: c.table.outer := h.table.outer
  cases ho.symm.trans houter
  exact ⟨rfl, rfl, rfl⟩

def Table.declaredFunctions (t : Table) : List Symbol := t.symbols.filter (·.isFunction)

structure Steady (c d : Context) : Prop where
  functions : d.table.inner.functions = c.table.inner.functions
  declared : d.table.declaredFunctions = c.table.declaredFunctions
  defined : d.table.defined = c.table.defined

namespace Steady

theorem of_table {c d : Context} (h : d.table = c.table) : Steady c d := by
  constructor <;> rw [h]

theorem trans {c d e : Context} (h : Steady c d) (h' : Steady d e) : Steady c e :=
  ⟨h'.functions.trans h.functions, h'.declared.trans h.declared, h'.defined.trans h.defined⟩

theorem declare (c : Context) (name : Name) (type : Ty) (line : Int) :
    Steady c (c.declare name type line).2 := by
  rcases c.declare_cases name type line with ⟨-, he⟩ | ⟨-, he⟩
  · rw [he]
    exact ⟨rfl, by simp [Table.declaredFunctions, Table.addVariable, Symbol.isFunction], rfl⟩
  · rw [he]
    exact .of_table rfl

theorem scope {c d e : Context} {name : Name} (h : Steady (c.enter name) d)
    (hext : (c.enter name).Extends d) (hl : d.leave? = some e) : Steady c e := by
  obtain ⟨hinner, hsymbols, hdefined⟩ := Context.inner_leave hext hl
  refine ⟨by rw [hinner], ?_, hdefined.trans h.defined⟩
  unfold Table.declaredFunctions
  rw [hsymbols]
  exact h.declared

theorem declareAll (params : List (Ty × Name)) (c : Context) :
    Steady c (c.declareAll params) := by
  induction params generalizing c with
  | nil => exact .of_table rfl
  | cons p params ih => exact (Steady.declare c p.2 p.1 c.line).trans (ih _)

theorem functionNamed {c d : Context} (h : Steady c d) (hext : c.Extends d) (name : Name) :
    d.table.functionNamed name = c.table.functionNamed name := by
  simp only [Table.functionNamed, Table.scopes, List.findSome?_cons, Scope.functionNamed,
    h.functions, hext.table.outer]

theorem made (action : Action) (nodes : List Node) (c : Context) :
    Steady c (action.made nodes c).2 := by
  rcases made_cases action nodes c with ⟨problems, hm⟩ | ⟨type, name, size, -, hm⟩
  · exact .of_table (by rw [hm]; rfl)
  · rw [hm]
    exact .declare c name _ c.line

theorem boundNode {type : Ty} {name : Name} {value : Option Node} {c d : Context} {n : Node}
    (h : boundNode type name value c = (n, d)) : Steady c d := by
  obtain ⟨rfl, rfl⟩ := Prod.ext_iff.mp h
  exact (Steady.declare c name type c.line).trans (.of_table rfl)

theorem conditionalNode {condition accepted n : Node} {rejected : Option Node} {c d : Context}
    (h : conditionalNode condition accepted rejected c = (n, d)) : Steady c d := by
  obtain ⟨rfl, rfl⟩ := Prod.ext_iff.mp h
  exact .of_table rfl

theorem loopNode {init update : Option Node} {test body n : Node} {c d : Context}
    (h : loopNode init test update body c = (n, d)) : Steady c d := by
  obtain ⟨rfl, rfl⟩ := Prod.ext_iff.mp h
  exact .of_table rfl

end Steady

theorem Table.functionNamed_mark (t : Table) (s : Symbol) (name : Name) :
    (t.mark s).functionNamed name = t.functionNamed name := by
  unfold mark
  split <;> rfl

theorem Context.mark?_of_functionNamed {c : Context} {name : Name} {found : Symbol}
    (h : c.table.functionNamed name = some found) (own : Symbol) :
    c.mark? name (some own) =
      some ([.marked own found], { c with table := c.table.mark found }) := by
  simp [mark?, h]

theorem sound_inside {c d : Context} {returns : Ty} {name : Name} {params : List (Ty × Name)}
    {body : Option (List Action)} {own : Option Symbol}
    (proper : (Action.function returns name params body).Proper)
    (bound : c.bind returns name params = (own, d)) (sound : c.table.Sound) :
    (d.inside name params).table.Sound :=
  steps_sound.declareAll proper.2 _ ((steps_sound.bind proper bound sound).enter name)

theorem inside_functionNamed {c d : Context} {returns : Ty} {name : Name}
    {params : List (Ty × Name)} {body : Option (List Action)} {s : Symbol}
    (proper : (Action.function returns name params body).Proper)
    (bound : c.bind returns name params = (some s, d)) :
    (d.inside name params).table.functionNamed name = some s := by
  have hsteady := Steady.declareAll params (d.enter name)
  refine (hsteady.functionNamed (extends_inside proper d) name).trans ?_
  exact (d.table.functionNamed_enter name name).trans
    (Table.functionNamed_of_inner (bind_visible bound rfl))

theorem inside_visible {c d : Context} {returns : Ty} {name : Name} {params : List (Ty × Name)}
    {own : Option Symbol} {body : Option (List Action)}
    (proper : (Action.function returns name params body).Proper)
    (h : c.bind returns name params = (own, d)) (ho : own.isSome = true) :
    ((d.inside name params).table.functionNamed name).isSome = true := by
  cases own with
  | none => cases ho
  | some s =>
    rw [inside_functionNamed proper h]
    rfl

theorem exists_mark {c : Context} {name : Name} {own : Option Symbol}
    (h : own.isSome = true → (c.table.functionNamed name).isSome = true) :
    ∃ marks d, c.mark? name own = some (marks, d) := by
  cases own with
  | none => exact ⟨[], c, rfl⟩
  | some own =>
    obtain ⟨found, hf⟩ := Option.isSome_iff_exists.mp (h rfl)
    exact ⟨_, _, by rw [Context.mark?, hf]; rfl⟩

def Action.Total (action : Action) : Prop := ∀ c, ∃ t n d, Run (.one action) c t [n] d

section Total

theorem exists_run_all {items : List Action} (h : ∀ a ∈ items, a.Total) (c : Context) :
    ∃ t ns d, Run (.all items) c t ns d := by
  induction items generalizing c with
  | nil => exact ⟨[], [], c, .nil c⟩
  | cons a items ih =>
    obtain ⟨t, n, d, hr⟩ := h a (by simp) c
    obtain ⟨t', ns, e, hr'⟩ := ih (fun b hb => h b (by simp [hb])) d
    exact ⟨_, _, _, .cons hr hr'⟩

theorem exists_run_blocks {blocks : List (String × List Action)}
    (h : ∀ b ∈ blocks, ∀ a ∈ b.2, a.Total) (c : Context) :
    ∃ t ns d, Run (.blocks blocks) c t ns d := by
  induction blocks generalizing c with
  | nil => exact ⟨[], [], c, .noBlock c⟩
  | cons b blocks ih =>
    obtain ⟨t, ns, d, hr⟩ := exists_run_all (h b (by simp)) (c.enter .nothing)
    obtain ⟨e, hl⟩ := hr.extends.exists_leave
    obtain ⟨t', ms, f, hr'⟩ := ih (fun b' hb' => h b' (by simp [hb'])) e
    exact ⟨_, _, _, .block hr hl hr'⟩

theorem exists_run_bindings {type : Ty} (proper : type.isWritten = true)
    {items : List (Name × Option Action)} (h : ∀ b ∈ items, ∀ a ∈ b.2.toList, a.Total)
    (c : Context) : ∃ t ns d, Run (.bindings type items) c t ns d := by
  induction items generalizing c with
  | nil => exact ⟨[], [], c, .noBinding type c⟩
  | cons b items ih =>
    obtain ⟨t, vs, d, hr⟩ := exists_run_all (h b (by simp)) c
    obtain ⟨t', ns, e, hr'⟩ := ih (fun b' hb' => h b' (by simp [hb']))
      (boundNode type b.1 vs.head? d).2
    exact ⟨_, _, _, .binding proper hr rfl hr'⟩

theorem exists_run_body {name : Name} {own : Option Symbol} {items : List Action}
    (h : ∀ a ∈ items, a.Total) {c : Context}
    (hv : own.isSome = true → (c.table.functionNamed name).isSome = true) :
    ∃ t ns d, Run (.body name own items) c t ns d := by
  induction items generalizing c with
  | nil => exact ⟨[], [], c, .noLine name own c⟩
  | cons a items ih =>
    obtain ⟨t, n, d, hr⟩ := h a (by simp) c
    have hd := fun ho => hr.extends.table.functionNamed_isSome (hv ho)
    obtain ⟨marks, e, hm⟩ := exists_mark hd
    have he := fun ho => (steps_extends.mark hm).table.functionNamed_isSome (hd ho)
    obtain ⟨t', ns, f, hr'⟩ := ih (fun b hb => h b (by simp [hb])) he
    exact ⟨_, _, _, .line hr hm hr'⟩

end Total

theorem Action.Total.loop {init update : Option Action} {test : Action} {body : List Action}
    (hh : ∀ a ∈ init.toList ++ update.toList, a.Total) (ht : test.Total)
    (hb : ∀ a ∈ body, a.Total) : (Action.loop init test update body).Total := by
  intro c
  obtain ⟨t₁, is, c₁, h₁⟩ :=
    exists_run_all (fun a ha => hh a (List.mem_append_left _ ha)) (c.enter .nothing)
  obtain ⟨t₂, n, c₂, h₂⟩ := ht c₁
  obtain ⟨t₃, us, c₃, h₃⟩ := exists_run_all (fun a ha => hh a (List.mem_append_right _ ha)) c₂
  have hblocks : ∀ b ∈ [("Body", body)], ∀ a ∈ b.2, a.Total := by simpa using hb
  obtain ⟨t₄, bs, c₄, h₄⟩ := exists_run_blocks hblocks c₃
  have hext := (h₁.extends.trans h₂.extends).trans (h₃.extends.trans h₄.extends)
  obtain ⟨d, hl⟩ := hext.exists_leave
  cases h₄ with
  | block inside leave others =>
    cases others
    exact ⟨_, _, _, .loop h₁ h₂ h₃ (.block inside leave (.noBlock _)) hl rfl⟩

theorem Action.Total.function {returns : Ty} {name : Name} {params : List (Ty × Name)}
    {body : Option (List Action)} (proper : (Action.function returns name params body).Proper)
    (hb : ∀ a ∈ body.getD [], a.Total) : (Action.function returns name params body).Total := by
  intro c
  cases hbound : c.bind returns name params with
  | mk own d =>
    have hparams := extends_inside proper d
    have hvisible := inside_visible proper hbound
    match body with
    | none => exact ⟨_, _, _, .prototype proper hbound⟩
    | some [] =>
      obtain ⟨marks, e, hm⟩ := exists_mark hvisible
      obtain ⟨f, hl⟩ := (hparams.trans (steps_extends.mark hm)).exists_leave
      exact ⟨_, _, _, .emptyBody proper hbound hm hl⟩
    | some (a :: as) =>
      obtain ⟨t, ns, e, hr⟩ := exists_run_body hb hvisible
      obtain ⟨f, hl⟩ := (hparams.trans hr.extends).exists_leave
      exact ⟨_, _, _, .function proper hbound hr hl⟩

theorem Action.Fits.total {position : Position} {action : Action}
    (h : action.Fits flawless position) : action.Total := by
  induction h with
  | lined line _ ih =>
    intro c
    obtain ⟨t, n, d, hr⟩ := ih (c.advanceTo line)
    exact ⟨t, n, d, .lined hr⟩
  | @intro position action unlined here proper inside ih =>
    intro c
    cases ho : action.operands? with
    | some items =>
      obtain ⟨t, ns, d, hr⟩ := exists_run_all (fun a ha => ih _ (mem_parts_of_operands? ho ha)) c
      exact ⟨_, _, _, .check ho proper hr⟩
    | none =>
      cases action <;> simp only [operands?, isLined, reduceCtorEq] at ho unlined
      case faulty before flaw => exact absurd rfl here
      case declaration type kind symbolType bindings =>
        have hb : ∀ b ∈ bindings, ∀ a ∈ b.2.toList, a.Total := fun b hb a ha =>
          ih (.expression, a) (mem_parts_binding hb ha)
        obtain ⟨t, ns, d, hr⟩ := exists_run_bindings proper hb c
        exact ⟨_, _, _, .declaration proper hr⟩
      case sizedArray type name size =>
        obtain ⟨t, n, d, hr⟩ := ih (.size, size) (by simp [parts]) c
        have hn := hr.renders n (by simp)
        exact ⟨_, _, _, .sizedArray proper hr (by rw [Node.render, hn]) rfl⟩
      case operation op items => cases (operands?_operation proper).symm.trans ho
      case block lines =>
        have hb : ∀ b ∈ [("Block", lines)], ∀ a ∈ b.2, a.Total := by
          intro b hb a ha
          rw [List.mem_singleton.mp hb] at ha
          exact ih (.statement, a) (by simpa [parts] using ha)
        obtain ⟨t, ns, d, hr⟩ := exists_run_blocks hb c
        cases hr with
        | block inside leave others =>
          cases others
          exact ⟨_, _, _, .scope (.block inside leave (.noBlock _))⟩
      case conditional condition accepted rejected =>
        have hb : ∀ b ∈ branches accepted rejected, ∀ a ∈ b.2, a.Total := fun b hb a ha =>
          ih (.statement, a) (mem_parts_branches hb ha)
        obtain ⟨t, n, d, hc⟩ := ih (.expression, condition) (by simp [parts]) c
        obtain ⟨t', ns, e, hr⟩ := exists_run_blocks hb d
        cases hr with
        | block inside leave others =>
          exact ⟨_, _, _, .conditional hc (.block inside leave others) rfl⟩
      case loop init test update body =>
        exact Total.loop (fun a ha => ih (.header, a) (mem_parts_header ha))
          (ih (.expression, test) (by simp [parts]))
          (fun a ha => ih (.statement, a) (by simp [parts, ha])) c
      case function returns name params body =>
        exact Total.function proper
          (fun a ha => ih (.statement, a) (by simpa [parts] using ha)) c

end Treewright
