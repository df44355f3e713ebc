import Treewright.Proofs.Documents
import Treewright.Proofs.Effects
import Treewright.Proofs.Sessions
set_option autoImplicit false

namespace Treewright

open Build

namespace Action

/-- The actions that are built in the scope that an action stands in. -/
def sameScope : Action → List Action
  | .lined _ action => [action]
  | .declaration _ _ _ bindings => bindings.flatMap fun b => b.2.toList
  | .sizedArray _ _ size => [size]
  | .conditional condition _ _ => [condition]
  | action => action.operands?.getD []

/-- The action declares a function of the name in the scope that it stands in. -/
inductive DeclaresFunction (name : Name) : Action → Prop where
  | function {returns : Ty} {own : Name} {params : List (Ty × Name)} {body : Option (List Action)}
      (h : own.same name = true) : DeclaresFunction name (.function returns own params body)
  | within {action part : Action} (hp : part ∈ action.sameScope) (h : DeclaresFunction name part) :
      DeclaresFunction name action

theorem declaresFunction_function {name own : Name} {returns : Ty} {params : List (Ty × Name)}
    {body : Option (List Action)} :
    (Action.function returns own params body).DeclaresFunction name ↔ own.same name = true := by
  refine ⟨fun h => ?_, .function⟩
  cases h with
  | function h => exact h
  | within hp => simp [sameScope, operands?] at hp

theorem declaresFunction_iff {name : Name} {action : Action}
    (h : ∀ returns own params body, action ≠ .function returns own params body) :
    action.DeclaresFunction name ↔ ∃ a ∈ action.sameScope, a.DeclaresFunction name := by
  refine ⟨fun hd => ?_, fun ⟨a, ha, hd⟩ => .within ha hd⟩
  cases hd with
  | function => exact absurd rfl (h _ _ _ _)
  | within hp hd => exact ⟨_, hp, hd⟩

theorem declaresFunction_of_operands? {name : Name} {action : Action} {items : List Action}
    (h : action.operands? = some items) :
    action.DeclaresFunction name ↔ ∃ a ∈ items, a.DeclaresFunction name := by
  have hs : action.sameScope = items := by cases action <;> simp_all [sameScope, operands?]
  rw [declaresFunction_iff, hs]
  rintro returns own params body rfl
  cases h

end Action

def Task.sameScope : Task → List Action
  | .one action => [action]
  | .all items | .body _ _ items => items
  | .blocks _ => []
  | .bindings _ items => items.flatMap fun b => b.2.toList

theorem exists_sameScope_one {name : Name} {action : Action} {items : List Action}
    (h : ∀ returns own params body, action ≠ .function returns own params body)
    (hs : action.sameScope = items) :
    (∃ a ∈ items, a.DeclaresFunction name) ↔
      ∃ a ∈ (Task.one action).sameScope, a.DeclaresFunction name := by
  rw [← hs, ← Action.declaresFunction_iff h]
  exact ⟨fun hd => ⟨action, List.mem_singleton_self _, hd⟩,
    fun ⟨_, ha, hd⟩ => List.mem_singleton.mp ha ▸ hd⟩

theorem bind_functionNamed {c d : Context} {returns : Ty} {name : Name} {params : List (Ty × Name)}
    {own : Option Symbol} (h : c.bind returns name params = (own, d)) (other : Name) :
    (d.table.inner.functionNamed other).isSome = true ↔
      (c.table.inner.functionNamed other).isSome = true ∨ name.same other = true := by
  rcases c.bind_cases returns name params with ⟨-, he⟩ | ⟨s, hs, ⟨-, he⟩ | ⟨-, he⟩⟩
  · cases h.symm.trans he
    rw [Table.functionNamed_addFunction, Option.isSome_or, Bool.or_eq_true]
    simp
  all_goals
    cases h.symm.trans he
    refine ⟨.inl, fun hc => hc.elim id fun hsame => ?_⟩
    change (c.table.inner.functionNamed other).isSome = true
    rw [← Scope.functionNamed_congr hsame, hs]
    rfl

theorem Steady.functionNamed_inner {c d : Context} (h : Steady c d) (name : Name) :
    d.table.inner.functionNamed name = c.table.inner.functionNamed name := by
  simp only [Scope.functionNamed, h.functions]

/-- A function of the name is in the scope after a run when it was there before, or when an action
of the same scope declares it. -/
theorem Run.functionNamed_inner {task : Task} {c d : Context} {t : List Event} {ns : List Node}
    (h : Run task c t ns d) (name : Name) :
    (d.table.inner.functionNamed name).isSome = true ↔
      (c.table.inner.functionNamed name).isSome = true ∨
        ∃ a ∈ task.sameScope, a.DeclaresFunction name := by
  induction h with
  | nil | noBlock | noBinding | noLine => simp [Task.sameScope]
  | cons _ _ ih ih' =>
    rw [ih', ih]
    simp [Task.sameScope, or_assoc]
  | block inside leave _ _ ih =>
    rw [ih, (Context.inner_leave inside.extends leave).1]
    simp [Task.sameScope]
  | binding _ _ bound _ ih ih' =>
    rw [ih', (Steady.boundNode bound).functionNamed_inner, ih]
    simp [Task.sameScope, or_assoc, or_and_right, exists_or]
  | line _ mark _ ih ih' =>
    rw [ih', inner_of_mark mark, ih]
    simp [Task.sameScope, or_assoc]
  | lined _ ih => exact ih.trans (or_congr_right (exists_sameScope_one (by simp) rfl))
  | check operands _ _ ih =>
    rw [(Steady.made _ _ _).functionNamed_inner, ih]
    simp [Task.sameScope, Action.declaresFunction_of_operands? operands]
  | declaration _ _ ih => exact ih.trans (or_congr_right (exists_sameScope_one (by simp) rfl))
  | sizedArray _ _ _ made ih =>
    obtain ⟨rfl, rfl⟩ := Prod.ext_iff.mp made
    rw [(Steady.made _ _ _).functionNamed_inner]
    exact ih.trans (or_congr_right (exists_sameScope_one (by simp) rfl))
  | scope _ ih => exact ih.trans (or_congr_right (exists_sameScope_one (by simp) rfl))
  | conditional _ _ made ih ih' =>
    rw [(Steady.conditionalNode made).functionNamed_inner, ih', ih, or_assoc]
    refine or_congr_right (Iff.trans ?_ (exists_sameScope_one (by simp) rfl))
    simp [Task.sameScope, Action.sameScope]
  | loop first condition next inside leave made _ _ _ _ =>
    have hext := ((first.extends.trans condition.extends).trans next.extends).trans inside.extends
    rw [(Steady.loopNode made).functionNamed_inner, (Context.inner_leave hext leave).1,
      ← exists_sameScope_one (by simp) rfl]
    simp [Action.sameScope, Action.operands?]
  | prototype _ bound =>
    rw [bind_functionNamed bound]
    simp [Task.sameScope, Action.declaresFunction_function]
  | emptyBody proper bound mark leave =>
    have hext := (extends_inside proper _).trans (steps_extends.mark mark)
    rw [(Context.inner_leave hext leave).1, bind_functionNamed bound]
    simp [Task.sameScope, Action.declaresFunction_function]
  | function proper bound lines leave _ =>
    have hext := (extends_inside proper _).trans lines.extends
    rw [(Context.inner_leave hext leave).1, bind_functionNamed bound]
    simp [Task.sameScope, Action.declaresFunction_function]

def Event.Idle : Event → Prop
  | .reported _ _ | .called _ _ => True
  | .accepted _ _ _ | .marked _ _ => False

theorem idle_reported (source : Source) (c d : Context) : ∀ e ∈ reported source c d, e.Idle := by
  intro e he
  obtain ⟨_, -, rfl⟩ := List.mem_map.mp he
  trivial

theorem idle_checked (action : Action) (nodes : List Node) (c : Context) :
    ∀ e ∈ action.checked nodes c, e.Idle := by
  intro e he
  rcases List.mem_append.mp he with he | he
  · split at he
    · rw [List.mem_singleton.mp he]
      trivial
    · cases he
  · exact idle_reported _ _ _ e he

theorem mem_inSize {e : Event} (h : ¬e.Idle) (t : List Event) : e ∈ t.map Event.inSize ↔ e ∈ t := by
  rw [List.mem_map]
  constructor
  · rintro ⟨e', he', rfl⟩
    cases e' with
    | reported | called => exact absurd trivial h
    | accepted | marked => exact he'
  · intro he
    cases e with
    | reported | called => exact absurd trivial h
    | accepted | marked => exact ⟨_, he, rfl⟩

structure Recorded (c : Context) (t : List Event) (d : Context) : Prop where
  declared : ∀ s, s ∈ d.table.declaredFunctions ↔
    s ∈ c.table.declaredFunctions ∨ ∃ name body, .accepted s name body ∈ t
  defined : ∀ i, i ∈ d.table.defined ↔
    i ∈ c.table.defined ∨ ∃ own found, .marked own found ∈ t ∧ found.id = i

namespace Recorded

theorem trans {c d e : Context} {t t' : List Event} (h : Recorded c t d) (h' : Recorded d t' e) :
    Recorded c (t ++ t') e where
  declared s := by
    rw [h'.declared, h.declared]
    simp [exists_or, or_assoc]
  defined i := by
    rw [h'.defined, h.defined]
    simp [or_and_right, exists_or, or_assoc]

theorem steady {c d : Context} {t : List Event} (h : Steady c d) (idle : ∀ e ∈ t, e.Idle) :
    Recorded c t d where
  declared s := by
    rw [h.declared]
    exact ⟨.inl, fun hs => hs.elim id fun ⟨_, _, hm⟩ => absurd (idle _ hm) id⟩
  defined i := by
    rw [h.defined]
    exact ⟨.inl, fun hs => hs.elim id fun ⟨_, _, hm, _⟩ => absurd (idle _ hm) id⟩

theorem reported {c d : Context} (h : Steady c d) (source : Source) :
    Recorded c (reported source c d) d := .steady h (idle_reported source c d)

theorem inSize {c d : Context} {t : List Event} (h : Recorded c t d) :
    Recorded c (t.map Event.inSize) d where
  declared s := by simp only [h.declared, mem_inSize (e := .accepted _ _ _) id]
  defined i := by simp only [h.defined, mem_inSize (e := .marked _ _) id]

theorem mark {c d : Context} {name : Name} {own : Option Symbol} {marks : List Event}
    (h : c.mark? name own = some (marks, d)) : Recorded c marks d := by
  cases own with
  | none =>
    cases h
    exact .steady (.of_table rfl) (by simp)
  | some own =>
    obtain ⟨found, -, he⟩ := Option.map_eq_some_iff.mp h
    cases he
    refine ⟨fun s => ?_, fun i => ?_⟩
    · have hs : (c.table.mark found).declaredFunctions = c.table.declaredFunctions := by
        unfold Table.mark
        split <;> rfl
      simp [hs]
    · rw [Table.mem_defined_mark]
      refine or_congr_right ⟨fun hi => ⟨own, found, by simp, hi.symm⟩, ?_⟩
      rintro ⟨_, _, hm, rfl⟩
      cases List.mem_singleton.mp hm
      rfl

theorem bind {c d : Context} (sound : c.table.Sound) {returns : Ty} {name : Name}
    {params : List (Ty × Name)} {own : Option Symbol} (h : c.bind returns name params = (own, d))
    (body : Option (List Action)) :
    Recorded c (Treewright.reported .node c d ++ accepted own name body) d := by
  rcases c.bind_cases returns name params with ⟨-, he⟩ | ⟨s, hs, ⟨-, he⟩ | ⟨-, he⟩⟩
  · cases h.symm.trans he
    refine ⟨fun s => ?_, fun i => ?_⟩
    · simp only [Table.declaredFunctions, Table.addFunction, List.filter_append, List.mem_append]
      refine or_congr_right ⟨fun hs => ?_, ?_⟩
      · rw [List.mem_singleton.mp (List.mem_filter.mp hs).1]
        exact ⟨name, body, .inr (by simp [accepted])⟩
      · rintro ⟨_, _, hm | hm⟩
        · exact absurd (idle_reported _ _ _ _ hm) id
        · cases List.mem_singleton.mp hm
          simp [Symbol.isFunction]
    · simp [Table.addFunction, accepted, Treewright.reported]
  · cases h.symm.trans he
    obtain ⟨hin, ⟨_, _, hshape, -⟩, -⟩ := sound.functionNamed (Table.functionNamed_of_inner hs)
    refine ⟨fun s' => ⟨.inl, fun hc => hc.elim id ?_⟩, fun i => ?_⟩
    · rintro ⟨_, _, hm⟩
      simp only [Treewright.reported, accepted, List.drop_length, List.map_nil, List.nil_append,
        Option.toList_some, List.map_cons, List.mem_singleton, Event.accepted.injEq] at hm
      rw [hm.1]
      exact List.mem_filter.mpr ⟨hin, by simp [Symbol.isFunction, hshape]⟩
    · simp [Treewright.reported, accepted]
  · cases h.symm.trans he
    refine .steady (.of_table rfl) fun e he => ?_
    simp only [accepted, Option.toList_none, List.map_nil, List.append_nil] at he
    exact idle_reported _ _ _ e he

theorem scope {c d e : Context} {name : Name} {t : List Event} (h : Recorded (c.enter name) t d)
    (hext : (c.enter name).Extends d) (hl : d.leave? = some e) : Recorded c t e := by
  obtain ⟨-, hsymbols, hdefined⟩ := Context.inner_leave hext hl
  refine ⟨fun s => ?_, fun i => ?_⟩
  · unfold Table.declaredFunctions
    rw [hsymbols]
    exact h.declared s
  · rw [hdefined]
    exact h.defined i

end Recorded

theorem Recorded.inside {c : Context} (name : Name) (params : List (Ty × Name)) :
    Recorded (c.enter name) (Treewright.reported .parameter c (c.inside name params))
      (c.inside name params) :=
  .steady (.declareAll params (c.enter name)) (idle_reported _ _ _)

theorem Run.recorded {task : Task} {c d : Context} {t : List Event} {ns : List Node}
    (h : Run task c t ns d) (sound : c.table.Sound) : Recorded c t d := by
  induction h with
  | nil | noBlock | noBinding | noLine => exact .steady (.of_table rfl) (by simp)
  | cons head _ ih ih' => exact (ih sound).trans (ih' (head.sound sound))
  | block inside leave _ ih ih' =>
    have hout := steps_sound.scope inside.sound leave sound
    exact ((ih (sound.enter .nothing)).scope inside.extends leave).trans (ih' hout)
  | binding proper given bound _ ih ih' =>
    have hbound := steps_sound.boundNode proper bound (given.sound sound)
    exact ((ih sound).trans (.reported (.boundNode bound) .node)).trans (ih' hbound)
  | line head mark _ ih ih' =>
    have hmark := steps_sound.mark mark (head.sound sound)
    exact ((ih sound).trans (.mark mark)).trans (ih' hmark)
  | lined _ ih => exact ⟨(ih sound).declared, (ih sound).defined⟩
  | check _ _ _ ih => exact (ih sound).trans (.steady (.made _ _ _) (idle_checked _ _ _))
  | declaration _ _ ih | scope _ ih => exact ih sound
  | sizedArray _ _ _ made ih =>
    obtain ⟨rfl, rfl⟩ := Prod.ext_iff.mp made
    exact (ih sound).inSize.trans (.reported (.made _ _ _) .node)
  | conditional test _ made ih ih' =>
    have hparts := (ih sound).trans (ih' (test.sound sound))
    exact hparts.trans (.reported (.conditionalNode made) .node)
  | loop first condition next inside leave made ih₁ ih₂ ih₃ ih₄ =>
    have s₁ := first.sound (sound.enter .nothing)
    have s₂ := condition.sound s₁
    have hext := ((first.extends.trans condition.extends).trans next.extends).trans inside.extends
    have hparts := (((ih₁ (sound.enter .nothing)).trans (ih₂ s₁)).trans (ih₃ s₂)).trans
      (ih₄ (next.sound s₂))
    exact (hparts.scope hext leave).trans (.reported (.loopNode made) .node)
  | prototype _ bound => exact .bind sound bound none
  | emptyBody proper bound mark leave =>
    have hext := (extends_inside proper _).trans (steps_extends.mark mark)
    rw [List.append_assoc]
    exact (Recorded.bind sound bound _).trans
      (((Recorded.inside _ _).trans (.mark mark)).scope hext leave)
  | function proper bound lines leave ih =>
    have hext := (extends_inside proper _).trans lines.extends
    have hlines := ih (sound_inside proper bound sound)
    rw [List.append_assoc]
    exact (Recorded.bind sound bound _).trans
      (((Recorded.inside _ _).trans hlines).scope hext leave)

def Task.own? : Task → Option Symbol
  | .body _ own _ => own
  | _ => none

structure Attributed (own? : Option Symbol) (t : List Event) : Prop where
  marked : ∀ own found, .marked own found ∈ t →
    own? = some own ∨ ∃ name lines, .accepted own name (some lines) ∈ t
  bodied : ∀ own name lines, .accepted own name (some lines) ∈ t → ∃ found, .marked own found ∈ t

namespace Attributed

theorem idle {own? : Option Symbol} {t : List Event} (h : ∀ e ∈ t, e.Idle) : Attributed own? t :=
  ⟨fun _ _ hm => absurd (h _ hm) id, fun _ _ _ hm => absurd (h _ hm) id⟩

theorem append {own? : Option Symbol} {t t' : List Event} (h : Attributed own? t)
    (h' : Attributed own? t') : Attributed own? (t ++ t') where
  marked own found hm := by
    rcases List.mem_append.mp hm with hm | hm
    · exact (h.marked own found hm).imp_right fun ⟨name, lines, ha⟩ => ⟨name, lines, by simp [ha]⟩
    · exact (h'.marked own found hm).imp_right fun ⟨name, lines, ha⟩ => ⟨name, lines, by simp [ha]⟩
  bodied own name lines ha := by
    rcases List.mem_append.mp ha with ha | ha
    · obtain ⟨found, hm⟩ := h.bodied own name lines ha
      exact ⟨found, by simp [hm]⟩
    · obtain ⟨found, hm⟩ := h'.bodied own name lines ha
      exact ⟨found, by simp [hm]⟩

theorem weaken {t : List Event} (h : Attributed none t) (own? : Option Symbol) :
    Attributed own? t :=
  ⟨fun own found hm => .inr ((h.marked own found hm).resolve_left (by simp)), h.bodied⟩

theorem inSize {t : List Event} (h : Attributed none t) : Attributed none (t.map Event.inSize) where
  marked own found hm := by
    rcases h.marked own found ((mem_inSize id t).mp hm) with ho | ⟨name, lines, ha⟩
    · exact .inl ho
    · exact .inr ⟨name, lines, (mem_inSize id t).mpr ha⟩
  bodied own name lines ha := by
    obtain ⟨found, hm⟩ := h.bodied own name lines ((mem_inSize id t).mp ha)
    exact ⟨found, (mem_inSize id t).mpr hm⟩

theorem mark {c d : Context} {name : Name} {own : Option Symbol} {marks : List Event}
    (h : c.mark? name own = some (marks, d)) : Attributed own marks := by
  cases own with
  | none =>
    cases h
    exact .idle (by simp)
  | some own =>
    obtain ⟨found, -, he⟩ := Option.map_eq_some_iff.mp h
    cases he
    refine ⟨fun own' found' hm => ?_, fun own' name' lines ha => ?_⟩
    · cases List.mem_singleton.mp hm
      exact .inl rfl
    · cases List.mem_singleton.mp ha

theorem function {own : Option Symbol} {name : Name} {lines : List Action} {c d e f : Context}
    {t : List Event} (h : Attributed own t) (hm : ∀ o ∈ own, ∃ found, .marked o found ∈ t) :
    Attributed none
      (reported .node c d ++ accepted own name (some lines) ++ reported .parameter e f ++ t) where
  marked o found hmark := by
    simp only [List.mem_append] at hmark
    rcases hmark with ((hmark | hmark) | hmark) | hmark
    · exact absurd (idle_reported _ _ _ _ hmark) id
    · simp [accepted] at hmark
    · exact absurd (idle_reported _ _ _ _ hmark) id
    · refine .inr ?_
      rcases h.marked o found hmark with rfl | ⟨name', lines', ha⟩
      · exact ⟨name, lines, by simp [accepted]⟩
      · exact ⟨name', lines', by simp [ha]⟩
  bodied o name' lines' ha := by
    simp only [List.mem_append] at ha
    rcases ha with ((ha | ha) | ha) | ha
    · exact absurd (idle_reported _ _ _ _ ha) id
    · obtain ⟨o', ho, he⟩ := List.mem_map.mp ha
      cases he
      obtain ⟨found, hf⟩ := hm o (Option.mem_toList.mp ho)
      exact ⟨found, by simp [hf]⟩
    · exact absurd (idle_reported _ _ _ _ ha) id
    · obtain ⟨found, hf⟩ := h.bodied o name' lines' ha
      exact ⟨found, by simp [hf]⟩

end Attributed

theorem marked_of_mark {c d : Context} {name : Name} {own : Option Symbol} {marks : List Event}
    (h : c.mark? name own = some (marks, d)) : ∀ o ∈ own, ∃ found, .marked o found ∈ marks := by
  rintro o rfl
  obtain ⟨found, -, he⟩ := Option.map_eq_some_iff.mp h
  cases he
  exact ⟨found, by simp⟩

theorem Run.attributed {task : Task} {c d : Context} {t : List Event} {ns : List Node}
    (h : Run task c t ns d) : Attributed task.own? t := by
  induction h with
  | nil | noBlock | noBinding | noLine => exact .idle (by simp)
  | cons _ _ ih ih' | block _ _ _ ih ih' => exact ih.append ih'
  | binding _ _ _ _ ih ih' => exact (ih.append (.idle (idle_reported _ _ _))).append ih'
  | line _ mark _ ih ih' => exact ((ih.weaken _).append (.mark mark)).append ih'
  | lined _ ih | declaration _ _ ih | scope _ ih => exact ih
  | check _ _ _ ih => exact ih.append (.idle (idle_checked _ _ _))
  | sizedArray _ _ _ _ ih => exact ih.inSize.append (.idle (idle_reported _ _ _))
  | conditional _ _ _ ih ih' => exact (ih.append ih').append (.idle (idle_reported _ _ _))
  | loop _ _ _ _ _ _ ih₁ ih₂ ih₃ ih₄ =>
    exact (((ih₁.append ih₂).append ih₃).append ih₄).append (.idle (idle_reported _ _ _))
  | prototype =>
    refine (Attributed.idle (idle_reported _ _ _)).append ⟨?_, ?_⟩
    · simp [accepted]
    · simp [accepted]
  | emptyBody _ _ mark _ => exact .function (.mark mark) (marked_of_mark mark)
  | function _ _ lines _ ih =>
    refine .function ih fun o ho => ?_
    cases lines with
    | line _ mark _ =>
      obtain ⟨found, hm⟩ := marked_of_mark mark o ho
      exact ⟨found, by simp [hm]⟩

def OwnMarks (t : List Event) : Prop := ∀ own found, .marked own found ∈ t → found = own

def Unshadowed (t : List Event) : Prop :=
  ∀ own name lines, .accepted own name (some lines) ∈ t → ∀ a ∈ lines, ¬a.DeclaresFunction name

@[simp] theorem ownMarks_append (t t' : List Event) :
    OwnMarks (t ++ t') ↔ OwnMarks t ∧ OwnMarks t' := by
  simp [OwnMarks, or_imp, forall_and]

@[simp] theorem unshadowed_append (t t' : List Event) :
    Unshadowed (t ++ t') ↔ Unshadowed t ∧ Unshadowed t' := by
  simp [Unshadowed, or_imp, forall_and]

theorem ownMarks_idle {t : List Event} (h : ∀ e ∈ t, e.Idle) : OwnMarks t :=
  fun _ _ hm => absurd (h _ hm) id

theorem unshadowed_idle {t : List Event} (h : ∀ e ∈ t, e.Idle) : Unshadowed t :=
  fun _ _ _ hm => absurd (h _ hm) id

@[simp] theorem ownMarks_reported (source : Source) (c d : Context) :
    OwnMarks (reported source c d) := ownMarks_idle (idle_reported source c d)

@[simp] theorem unshadowed_reported (source : Source) (c d : Context) :
    Unshadowed (reported source c d) := unshadowed_idle (idle_reported source c d)

@[simp] theorem ownMarks_accepted (own : Option Symbol) (name : Name)
    (body : Option (List Action)) : OwnMarks (accepted own name body) := by
  simp [OwnMarks, accepted]

theorem unshadowed_accepted {own : Option Symbol} {name : Name} {body : Option (List Action)} :
    Unshadowed (accepted own name body) ↔
      ∀ o ∈ own, ∀ lines ∈ body, ∀ a ∈ lines, ¬a.DeclaresFunction name := by
  cases own with
  | none => simp [Unshadowed, accepted]
  | some own =>
    cases body with
    | none => simp [Unshadowed, accepted]
    | some lines =>
      refine ⟨?_, fun h o name' lines' hm => ?_⟩
      · rintro h _ ⟨⟩ _ ⟨⟩
        exact h own name lines (by simp [accepted])
      · cases List.mem_singleton.mp hm
        exact h own rfl lines rfl

@[simp] theorem ownMarks_inSize (t : List Event) : OwnMarks (t.map Event.inSize) ↔ OwnMarks t := by
  simp only [OwnMarks, mem_inSize (e := .marked _ _) id]

@[simp] theorem unshadowed_inSize (t : List Event) :
    Unshadowed (t.map Event.inSize) ↔ Unshadowed t := by
  simp only [Unshadowed, mem_inSize (e := .accepted _ _ _) id]

theorem Table.Extends.le_id {t t' : Table} (h : t.Extends t') {name : Name} {s : Symbol}
    (fresh : t.inner.functionNamed name = none) (hs : t'.inner.functionNamed name = some s) :
    t.symbols.length ≤ s.id := by
  obtain ⟨new, hf, hid⟩ := h.functions
  rw [Scope.functionNamed, hf, List.find?_append] at hs
  rw [Scope.functionNamed] at fresh
  rw [fresh, Option.none_or] at hs
  exact hid s (List.mem_of_find?_eq_some hs)

theorem mark_after_line {name : Name} {own : Symbol} {a : Action} {n : Node} {c d e : Context}
    {t marks : List Event} (sound : c.table.Sound) (visible : c.table.functionNamed name = some own)
    (fresh : c.table.inner.functionNamed name = none) (head : Run (.one a) c t [n] d)
    (mark : d.mark? name (some own) = some (marks, e)) :
    (OwnMarks marks ↔ ¬a.DeclaresFunction name) ∧
      (¬a.DeclaresFunction name →
        e.table.functionNamed name = some own ∧ e.table.inner.functionNamed name = none) := by
  have hdeclares := head.functionNamed_inner name
  simp only [fresh, Option.isSome_none, Bool.false_eq_true, Task.sameScope, List.mem_singleton,
    exists_eq_left, false_or] at hdeclares
  rw [← hdeclares, inner_of_mark mark]
  cases hs : d.table.inner.functionNamed name with
  | none =>
    -- The scope still has no function of the name, so the name means what it meant before.
    have hseen : d.table.functionNamed name = some own := by
      rw [Table.functionNamed_of_outer hs, head.extends.table.outer,
        ← Table.functionNamed_of_outer fresh, visible]
    cases mark.symm.trans (Context.mark?_of_functionNamed hseen own)
    refine ⟨by simp [OwnMarks], fun _ => ⟨?_, rfl⟩⟩
    rw [Table.functionNamed_mark, hseen]
  | some s =>
    cases mark.symm.trans (Context.mark?_of_functionNamed (Table.functionNamed_of_inner hs) own)
    -- Numbers only grow, so the function that the line declared is not the one around it.
    have hne : s ≠ own := by
      rintro rfl
      have hle := head.extends.table.le_id fresh hs
      have hlt := sound.id_lt (sound.functionNamed visible).1
      omega
    simp [OwnMarks, hne]

def Task.Ready (c : Context) : Task → Prop
  | .body name (some own) _ =>
    c.table.functionNamed name = some own ∧ c.table.inner.functionNamed name = none
  | _ => True

def Task.Clear : Task → Prop
  | .body name (some _) items => ∀ a ∈ items, ¬a.DeclaresFunction name
  | _ => True

theorem ready_inside {c d : Context} {returns : Ty} {name : Name} {params : List (Ty × Name)}
    {body : Option (List Action)} {own : Option Symbol}
    (proper : (Action.function returns name params body).Proper)
    (bound : c.bind returns name params = (own, d)) (lines : List Action) :
    (Task.body name own lines).Ready (d.inside name params) := by
  cases own with
  | none => trivial
  | some own =>
    refine ⟨inside_functionNamed proper bound, ?_⟩
    exact (Steady.declareAll params (d.enter name)).functionNamed_inner name

theorem Run.ownMarks_iff {task : Task} {c d : Context} {t : List Event} {ns : List Node}
    (h : Run task c t ns d) (sound : c.table.Sound) (ready : task.Ready c) :
    OwnMarks t ↔ task.Clear ∧ Unshadowed t := by
  induction h with
  | nil | noBlock | noBinding => simp [OwnMarks, Unshadowed, Task.Clear]
  | noLine name own => cases own <;> simp [OwnMarks, Unshadowed, Task.Clear]
  | cons head _ ih ih' =>
    simp [ih sound trivial, ih' (head.sound sound) trivial, Task.Clear]
  | block inside leave _ ih ih' =>
    have hout := steps_sound.scope inside.sound leave sound
    simp [ih (sound.enter .nothing) trivial, ih' hout trivial, Task.Clear]
  | binding proper given bound _ ih ih' =>
    have hbound := steps_sound.boundNode proper bound (given.sound sound)
    simp [ih sound trivial, ih' hbound trivial, Task.Clear]
  | @line name own a as n ns c d e f t marks t' head mark _ ih ih' =>
    have hmark := steps_sound.mark mark (head.sound sound)
    cases own with
    | none =>
      cases mark
      simp [ih sound trivial, ih' hmark trivial, Task.Clear]
    | some own =>
      obtain ⟨hown, hready⟩ := mark_after_line sound ready.1 ready.2 head mark
      have hmarks : Unshadowed marks := by
        obtain ⟨found, -, he⟩ := Option.map_eq_some_iff.mp mark
        cases he
        simp [Unshadowed]
      -- A line that declares the name settles the matter; the lines after it do not count.
      by_cases hd : a.DeclaresFunction name
      · simp [Task.Clear, hown, hd]
      · simp [Task.Clear, hown, hd, hmarks, ih sound trivial, ih' hmark (hready hd), and_left_comm]
  | lined _ ih => exact ih sound trivial
  | check _ _ _ ih =>
    simp [ih sound trivial, Task.Clear, ownMarks_idle (idle_checked _ _ _),
      unshadowed_idle (idle_checked _ _ _)]
  | declaration _ _ ih | scope _ ih => exact ih sound trivial
  | sizedArray _ _ _ _ ih => simp [ih sound trivial, Task.Clear]
  | conditional test _ _ ih ih' =>
    simp [ih sound trivial, ih' (test.sound sound) trivial, Task.Clear]
  | loop first condition next _ _ _ ih₁ ih₂ ih₃ ih₄ =>
    have s₁ := first.sound (sound.enter .nothing)
    have s₂ := condition.sound s₁
    simp [ih₁ (sound.enter .nothing) trivial, ih₂ s₁ trivial, ih₃ s₂ trivial,
      ih₄ (next.sound s₂) trivial, Task.Clear]
  | prototype => simp [Task.Clear, unshadowed_accepted]
  | @emptyBody _ name params own _ _ _ _ marks proper bound mark _ =>
    have hmarks : OwnMarks marks ∧ Unshadowed marks := by
      cases own with
      | none =>
        cases mark
        simp [OwnMarks, Unshadowed]
      | some own =>
        cases mark.symm.trans
          (Context.mark?_of_functionNamed (inside_functionNamed proper bound) own)
        simp [OwnMarks, Unshadowed]
    simp [Task.Clear, unshadowed_accepted, hmarks]
  | @function _ name _ own a as _ _ _ _ _ _ proper bound _ _ ih =>
    have hbody := ih (sound_inside proper bound sound) (ready_inside proper bound (a :: as))
    have hclear : (Task.body name own (a :: as)).Clear ↔
        Unshadowed (accepted own name (some (a :: as))) := by
      cases own <;> simp [Task.Clear, unshadowed_accepted]
    rw [hclear] at hbody
    simp [Task.Clear, hbody]

/-- Whether a function with a body was accepted under the symbol. -/
def bodied (t : List Event) (f : Symbol) : Bool :=
  t.any fun
    | .accepted own _ (some _) => own = f
    | _ => false

theorem bodied_iff {t : List Event} {f : Symbol} :
    bodied t f = true ↔ ∃ name lines, .accepted f name (some lines) ∈ t := by
  rw [bodied, List.any_eq_true]
  constructor
  · rintro ⟨e, he, h⟩
    split at h
    · cases of_decide_eq_true h
      exact ⟨_, _, he⟩
    · cases h
  · rintro ⟨name, lines, h⟩
    exact ⟨_, h, by simp⟩

theorem undefined_eq {c d : Context} {t : List Event} (recorded : Recorded c t d)
    (fresh : c.table = {}) (sound : d.table.Sound) (attributed : Attributed none t)
    (own : OwnMarks t) :
    d.table.undefined = d.table.declaredFunctions.filter fun f => !bodied t f := by
  rw [Table.undefined, Table.declaredFunctions, List.filter_filter]
  refine List.filter_congr fun f hf => ?_
  cases hfun : f.isFunction with
  | false => simp
  | true =>
    have hdefined : d.table.isDefined f = true ↔ bodied t f = true := by
      rw [bodied_iff, Table.isDefined, List.contains_iff_mem, recorded.defined, fresh]
      constructor
      · rintro (h | ⟨own', found, hm, hid⟩)
        · cases h
        · cases own own' found hm
          obtain ⟨name, lines, ha⟩ := (attributed.marked own' own' hm).resolve_left (by simp)
          have hin : own' ∈ d.table.symbols :=
            (List.mem_filter.mp ((recorded.declared own').mpr (.inr ⟨_, _, ha⟩))).1
          cases sound.eq_of_id hin hf hid
          exact ⟨name, lines, ha⟩
      · rintro ⟨name, lines, ha⟩
        obtain ⟨found, hm⟩ := attributed.bodied f name lines ha
        exact .inr ⟨f, found, hm, by rw [own f found hm]⟩
    rw [Bool.eq_iff_iff.mpr hdefined, Bool.and_comm]

/-- Take a program that a session builds to its end. Every accepted function with a body marks the
symbol that it was accepted under and no other, and the session reports at its end exactly the
declared functions under which no function with a body was accepted, in their order, if and only if
no line of the body of an accepted function declares a function of its name. -/
theorem definitions_exact_iff {s s₁ s₂ : Session} {program : Value} {name : String}
    (begun : s.begin program name = (.ok (), s₁)) (built : s₁.finishBuilding = (.ok (), s₂)) :
    (∃ trace, Run (.all s₁.actions) s₁.context trace s₂.lines s₂.context) ∧
      ∀ trace, Run (.all s₁.actions) s₁.context trace s₂.lines s₂.context →
        (∀ f, f ∈ s₂.context.table.declaredFunctions ↔ ∃ name body, .accepted f name body ∈ trace) ∧
        (((∀ own name lines, .accepted own name (some lines) ∈ trace → .marked own own ∈ trace) ∧
            (∀ own found, .marked own found ∈ trace → found = own) ∧
            s₂.finish.1.diagnostics =
              (s₂.context.table.declaredFunctions.filter fun f => !bodied trace f).map fun f =>
                ⟨s₂.context.line, .neverDefined f.name⟩) ↔
          ∀ own name lines, .accepted own name (some lines) ∈ trace →
            ∀ a ∈ lines, ¬a.DeclaresFunction name) := by
  obtain ⟨actions, nodes, d, hactions, rfl, hexec, rfl⟩ := Session.built_ok begun built
  refine ⟨?_, fun trace run => ?_⟩
  · exact runs_all (fun a ha => (Action.wellFormed_sequence hactions a ha).runs) _ _ _ hexec
  · have sound : ({ reportAll := s.options.reportAll } : Context).table.Sound := .empty
    have recorded := run.recorded sound
    have attributed : Attributed none trace := run.attributed
    have hmarks : OwnMarks trace ↔ Unshadowed trace := by
      simpa [Task.Clear] using run.ownMarks_iff sound trivial
    refine ⟨fun f => ?_, fun h => hmarks.mp h.2.1, fun h => ?_⟩
    · rw [recorded.declared]
      exact ⟨fun h => h.elim (fun h => absurd h List.not_mem_nil) id, .inr⟩
    · have own := hmarks.mpr h
      refine ⟨fun o name lines ha => ?_, own, ?_⟩
      · obtain ⟨found, hm⟩ := attributed.bodied o name lines ha
        rwa [own o found hm] at hm
      · rw [Session.diagnostics_finish rfl,
          undefined_eq recorded rfl (run.sound sound) attributed own]

theorem Session.built_of_run {program : Value} {actions : List Action} {trace : List Event}
    {nodes : List Node} {d : Context} (read : Action.sequence program = .ok actions)
    (run : Run (.all actions) {} trace nodes d) :
    ∃ s₁ s₂ : Session, (Session.new {}).begin program "" = (.ok (), s₁) ∧
      s₁.finishBuilding = (.ok (), s₂) ∧
      Run (.all s₁.actions) s₁.context trace s₂.lines s₂.context ∧ s₂.context = d ∧
      s₂.finished = false := by
  have built : exec (buildAll actions) {} = (.ok nodes, d) := exec_of_run run
  exact ⟨_, _, begin_of_read read "", finishBuilding_of_built (s := Session.new {}) built "", run,
    rfl, rfl⟩

def procedure (name : String) (body : Value) : Value :=
  .object [("node", .string "function"), ("returns", .string "void"), ("name", .string name),
    ("params", .list []), ("body", body)]

def procedureAction (name : String) (body : Option (List Action)) : Action :=
  .function .void (.text name) [] body

def procedureSymbol (id : Nat) (name scope : String) : Symbol :=
  ⟨id, .text name, 1, .text scope, .function [] (some .void)⟩

theorem definitions_exact_iff_nested : ∃ (s₁ s₂ : Session) (trace : List Event),
    (Session.new {}).begin (.list [procedure "f" (.list [procedure "g" (.list [])]),
      procedure "h" .null]) "" = (.ok (), s₁) ∧
    s₁.finishBuilding = (.ok (), s₂) ∧
    Run (.all s₁.actions) s₁.context trace s₂.lines s₂.context ∧
    .marked (procedureSymbol 0 "f" "global") (procedureSymbol 0 "f" "global") ∈ trace ∧
    .marked (procedureSymbol 1 "g" "f") (procedureSymbol 1 "g" "f") ∈ trace ∧
    s₂.finish.1.diagnostics = [⟨1, .neverDefined (.text "h")⟩] := by
  have read : Action.sequence (.list [procedure "f" (.list [procedure "g" (.list [])]),
      procedure "h" .null]) =
      .ok [procedureAction "f" (some [procedureAction "g" (some [])]),
        procedureAction "h" none] := rfl
  obtain ⟨trace, nodes, d, run, htrace, hdeclared, hline⟩ : ∃ trace nodes d,
      Run (.all [procedureAction "f" (some [procedureAction "g" (some [])]),
        procedureAction "h" none]) {} trace nodes d ∧
      trace = [.accepted (procedureSymbol 0 "f" "global") (.text "f")
          (some [procedureAction "g" (some [])]),
        .accepted (procedureSymbol 1 "g" "f") (.text "g") (some []),
        .marked (procedureSymbol 1 "g" "f") (procedureSymbol 1 "g" "f"),
        .marked (procedureSymbol 0 "f" "global") (procedureSymbol 0 "f" "global"),
        .accepted (procedureSymbol 2 "h" "global") (.text "h") none] ∧
      d.table.declaredFunctions = [procedureSymbol 0 "f" "global", procedureSymbol 1 "g" "f",
        procedureSymbol 2 "h" "global"] ∧ d.line = 1 :=
    ⟨_, _, _, .cons (.function ⟨rfl, by simp⟩ rfl
        (.line (.emptyBody ⟨rfl, by simp⟩ rfl rfl rfl) rfl (.noLine _ _ _)) rfl)
      (.cons (.prototype ⟨rfl, by simp⟩ rfl) (.nil _)), rfl, rfl, rfl⟩
  obtain ⟨s₁, s₂, begun, built, hrun, rfl, -⟩ := Session.built_of_run read run
  subst htrace
  have hexact := ((definitions_exact_iff begun built).2 _ hrun).2.mpr (by
    simp only [List.mem_cons, List.not_mem_nil, reduceCtorEq, Event.accepted.injEq, and_false,
      or_false]
    rintro own name lines (⟨-, rfl, ⟨⟩⟩ | ⟨-, -, ⟨⟩⟩) a ha
    · cases List.mem_singleton.mp ha
      rw [procedureAction, Action.declaresFunction_function]
      decide
    · cases ha)
  refine ⟨s₁, s₂, _, begun, built, hrun, hexact.1 _ _ _ (.head _),
    hexact.1 _ _ _ (.tail _ (.head _)), hexact.2.2.trans ?_⟩
  rw [hdeclared, hline]
  rfl

/-- A procedure whose body declares another one of its name marks that one in place of its own, and
is reported as never defined. -/
theorem shadowed_definition_lost : ∃ (s₁ s₂ : Session) (trace : List Event) (own inner : Symbol)
    (lines : List Action),
    (Session.new {}).begin (.list [procedure "f" (.list [procedure "f" (.list [])])]) "" =
      (.ok (), s₁) ∧
    s₁.finishBuilding = (.ok (), s₂) ∧
    Run (.all s₁.actions) s₁.context trace s₂.lines s₂.context ∧
    .accepted own (.text "f") (some lines) ∈ trace ∧ .marked own inner ∈ trace ∧ inner ≠ own ∧
    s₂.finish.1.diagnostics = [⟨1, .neverDefined own.name⟩] := by
  have read : Action.sequence (.list [procedure "f" (.list [procedure "f" (.list [])])]) =
      .ok [procedureAction "f" (some [procedureAction "f" (some [])])] := rfl
  obtain ⟨trace, nodes, d, run, htrace, hundefined, hline⟩ : ∃ trace nodes d,
      Run (.all [procedureAction "f" (some [procedureAction "f" (some [])])]) {} trace nodes d ∧
      trace = [.accepted (procedureSymbol 0 "f" "global") (.text "f")
          (some [procedureAction "f" (some [])]),
        .accepted (procedureSymbol 1 "f" "f") (.text "f") (some []),
        .marked (procedureSymbol 1 "f" "f") (procedureSymbol 1 "f" "f"),
        .marked (procedureSymbol 0 "f" "global") (procedureSymbol 1 "f" "f")] ∧
      d.table.undefined = [procedureSymbol 0 "f" "global"] ∧ d.line = 1 :=
    ⟨_, _, _, .cons (.function ⟨rfl, by simp⟩ rfl
      (.line (.emptyBody ⟨rfl, by simp⟩ rfl rfl rfl) rfl (.noLine _ _ _)) rfl) (.nil _),
      rfl, rfl, rfl⟩
  obtain ⟨s₁, s₂, begun, built, hrun, rfl, hfinished⟩ := Session.built_of_run read run
  subst htrace
  refine ⟨s₁, s₂, _, _, _, _, begun, built, hrun, .head _, .tail _ (.tail _ (.tail _ (.head _))),
    by decide, ?_⟩
  rw [Session.diagnostics_finish hfinished, hundefined, hline]
  rfl

end Treewright
