import Treewright.Proofs.Format
import Treewright.Proofs.Statements
set_option autoImplicit false

namespace Treewright

open Build

structure Globals.Matches (G : Globals) (t : Table) : Prop where
  env : t.env = G.env
  bodied : ∀ (name : Name) (s : Symbol), t.inner.functionNamed name = some s →
    (s.id ∈ t.defined ↔ ∃ b ∈ G.bodied, b.same name = true)
  known : ∀ b ∈ G.bodied, t.inner.functionNamed b ≠ none

namespace Globals.Matches

theorem empty : Globals.Matches {} {} where
  env := rfl
  bodied _ _ h := by simp [Scope.functionNamed] at h
  known _ h := by simp at h

theorem steady {G : Globals} {c d : Context} (h : G.Matches c.table) (hs : Steady c d) :
    Globals.Matches { G with env := d.table.env } d.table := by
  have hf (name : Name) : d.table.inner.functionNamed name = c.table.inner.functionNamed name := by
    simp only [Scope.functionNamed, hs.functions]
  refine ⟨rfl, fun name s hn => ?_, fun b hb => ?_⟩
  · rw [hs.defined]
    exact h.bodied name s ((hf name).symm.trans hn)
  · rw [hf b]
    exact h.known b hb

theorem inner_fun? {G : Globals} {t : Table} (h : G.Matches t) (name : Name) :
    G.env.inner.fun? name = (t.inner.functionNamed name).map Symbol.signature := by
  rw [← h.env]
  exact t.inner.frame_fun? name

theorem addFunction {G : Globals} {t : Table} (h : G.Matches t) (sound : t.Sound) (name : Name)
    (params : List (Value × Ty)) (returns : Option Ty) (line : Int) :
    Globals.Matches { G with env := (t.addFunction name params returns line).env }
      (t.addFunction name params returns line) := by
  refine ⟨rfl, fun other s hn => ?_, fun b hb => ?_⟩
  · rw [Table.functionNamed_addFunction] at hn
    cases ho : t.inner.functionNamed other with
    | some s' =>
      rw [ho] at hn
      cases hn
      exact h.bodied other s ho
    | none =>
      rw [ho] at hn
      simp only [Option.none_or, Option.ite_none_right_eq_some, Option.some.injEq] at hn
      obtain ⟨hsame, rfl⟩ := hn
      refine ⟨fun hd => absurd (sound.defined _ hd) (by simp), ?_⟩
      rintro ⟨b, hb, hs⟩
      exact absurd ((Scope.functionNamed_congr hs _).trans ho) (h.known b hb)
  · rw [Table.functionNamed_addFunction]
    cases ho : t.inner.functionNamed b with
    | some s => simp
    | none => exact absurd ho (h.known b hb)

theorem mark {G : Globals} {t t' : Table} (h : G.Matches t) (sound : t.Sound) {name : Name}
    {s : Symbol} (hs : t.inner.functionNamed name = some s) (hinner : t'.inner = t.inner)
    (hdefined : ∀ i, i ∈ t'.defined ↔ i ∈ t.defined ∨ i = s.id) :
    Globals.Matches ⟨t'.env, name :: G.bodied⟩ t' := by
  refine ⟨rfl, fun other s' hn => ?_, fun b hb => ?_⟩
  · rw [hinner] at hn
    rw [hdefined, h.bodied other s' hn]
    simp only [List.mem_cons, exists_eq_or_imp]
    rw [or_comm]
    refine or_congr_left ⟨fun hid => ?_, fun hsame => ?_⟩
    · have hin := (sound.functionNamed (Table.functionNamed_of_inner hs)).1
      have hin' := (sound.functionNamed (Table.functionNamed_of_inner hn)).1
      have heq := sound.eq_of_id hin' hin hid
      subst heq
      have h₁ := (Scope.mem_of_functionNamed hs).2
      have h₂ := (Scope.mem_of_functionNamed hn).2
      rw [Name.same_comm] at h₁
      exact (Name.same_congr h₂ name).symm.trans h₁
    · rw [Scope.functionNamed_congr hsame] at hs
      cases hs.symm.trans hn
      rfl
  · rw [hinner]
    rcases List.mem_cons.mp hb with rfl | hb
    · simp [hs]
    · exact h.known b hb

end Globals.Matches

theorem repeatsDeclaration_iff {t : Table} (sound : t.Sound) {name : Name} {s : Symbol}
    (hs : t.inner.functionNamed name = some s) (params : List Ty) (returns : Ty) :
    repeatsDeclaration t name params (some returns) = true ↔
      s.id ∉ t.defined ∧ s.signature = ⟨params, returns⟩ := by
  have hn := Table.functionNamed_of_inner hs
  obtain ⟨-, ⟨ps, r, hshape, hr, hps⟩, -⟩ := sound.functionNamed hn
  have hnative : ∀ p ∈ s.paramTypes, p.native = true := by
    intro p hp
    simp only [Symbol.paramTypes, Symbol.params?, hshape, Option.getD_some, List.mem_map] at hp
    obtain ⟨q, hq, rfl⟩ := hp
    exact Ty.native_of_isWritten (hps q hq)
  have hreturns : s.returns? = some r := by simp [Symbol.returns?, hshape]
  unfold repeatsDeclaration
  rw [hn]
  simp [hreturns, Symbol.signature, Table.isDefined, alikeAll_iff hnative,
    Ty.agrees_iff (Ty.native_of_isWritten hr), and_assoc]

theorem decides_bind {G : Globals} {c d : Context} (h : G.Matches c.table) (sound : c.table.Sound)
    {returns : Ty} (hr : returns.isWritten = true) {name : Name} {params : List (Ty × Name)}
    {own : Option Symbol} (bound : c.bind returns name params = (own, d)) (Γ : Env) :
    (own.isSome = true ∧ d.table.env = Γ) ↔ Declares G name ⟨params.map (·.1), returns⟩ Γ := by
  have hparams : (signatureOf params).map (·.1) = params.map (·.1) := by
    simp [signatureOf, Function.comp_def]
  have hfun := h.inner_fun? name
  rcases c.bind_cases returns name params with ⟨hn, he⟩ | ⟨s, hs, ⟨hrep, he⟩ | ⟨hrep, he⟩⟩
  · cases bound.symm.trans he
    rw [hn] at hfun
    rw [Ty.given?_of_isWritten hr, Table.env_addFunction, h.env]
    constructor
    · rintro ⟨-, rfl⟩
      exact .fresh hfun
    · intro hd
      cases hd with
      | fresh => exact ⟨rfl, rfl⟩
      | repeated hf => cases hfun.symm.trans hf
  · cases bound.symm.trans he
    rw [hs] at hfun
    rw [Ty.given?_of_isWritten hr, repeatsDeclaration_iff sound hs, hparams] at hrep
    rw [h.env]
    constructor
    · rintro ⟨-, rfl⟩
      refine .repeated (hfun.trans (congrArg some hrep.2)) fun b hb => ?_
      have := mt (h.bodied name s hs).mpr hrep.1
      simp only [not_exists, not_and, Bool.not_eq_true] at this
      exact this b hb
    · intro hd
      cases hd with
      | fresh hf => cases hfun.symm.trans hf
      | repeated => exact ⟨rfl, rfl⟩
  · cases bound.symm.trans he
    rw [hs] at hfun
    refine ⟨fun hc => absurd hc.1 (by simp), fun hd => ?_⟩
    have hno := mt (repeatsDeclaration_iff sound hs (params.map (·.1)) returns).mpr
      (by simpa [hparams, Ty.given?_of_isWritten hr] using hrep)
    cases hd with
    | fresh hf => cases hfun.symm.trans hf
    | repeated hf unbodied =>
      refine absurd ⟨fun hd => ?_, Option.some.inj (hfun.symm.trans hf)⟩ hno
      obtain ⟨b, hb, hsame⟩ := (h.bodied name s hs).mp hd
      exact absurd hsame (by simp [unbodied b hb])

theorem Globals.Matches.bind {G : Globals} {c d : Context} (h : G.Matches c.table)
    (sound : c.table.Sound) {returns : Ty} {name : Name} {params : List (Ty × Name)}
    {own : Option Symbol} (bound : c.bind returns name params = (own, d)) :
    Globals.Matches { G with env := d.table.env } d.table := by
  rcases c.bind_cases returns name params with ⟨-, he⟩ | ⟨s, -, ⟨-, he⟩ | ⟨-, he⟩⟩
  · cases bound.symm.trans he
    exact h.addFunction sound name _ _ _
  · cases bound.symm.trans he
    exact h.steady (.of_table rfl)
  · cases bound.symm.trans he
    exact h.steady (.of_table rfl)

def Introduces (Γ : Env) (p : Ty × Name) (Γ' : Env) : Prop :=
  Γ.inner.var? p.2 = none ∧ Γ' = Γ.addVar p.2 p.1

theorem chain_introduces_iff {params : List (Ty × Name)} {Γ Γ' : Env} :
    Chain Introduces Γ params Γ' ↔
      (∀ p ∈ params, Γ.inner.var? p.2 = none) ∧
        params.Pairwise (fun p q => p.2.same q.2 = false) ∧
        Γ' = { Γ with
          inner := { Γ.inner with vars := Γ.inner.vars ++ params.map fun p => (p.2, p.1) } } := by
  induction params generalizing Γ with
  | nil =>
    constructor
    · intro h
      cases h
      simp
    · rintro ⟨-, -, rfl⟩
      simpa using Chain.nil (R := Introduces) Γ
  | cons p params ih =>
    have hvar (name : Name) : (Γ.addVar p.2 p.1).inner.var? name = none ↔
        Γ.inner.var? name = none ∧ p.2.same name = false := by
      simp [Env.addVar, Frame.var?, List.find?_append, List.find?_singleton]
    constructor
    · intro h
      cases h with
      | cons head tail =>
        obtain ⟨hf, rfl⟩ := head
        obtain ⟨hfresh, hpair, rfl⟩ := ih.mp tail
        refine ⟨?_, ?_, by simp [Env.addVar]⟩
        · simpa [hf] using fun a b hp => ((hvar b).mp (hfresh (a, b) hp)).1
        · exact .cons (fun q hq => ((hvar q.2).mp (hfresh q hq)).2) hpair
    · rintro ⟨hfresh, hpair, rfl⟩
      rw [List.pairwise_cons] at hpair
      refine .cons ⟨hfresh p (by simp), rfl⟩
        (ih.mpr ⟨fun q hq => ?_, hpair.2, by simp [Env.addVar]⟩)
      exact (hvar q.2).mpr ⟨hfresh q (by simp [hq]), hpair.1 q hq⟩

theorem reported_eq_nil_iff (source : Source) {c d : Context} :
    reported source c d = [] ↔ ¬Blamed (reported .node c d) := by
  simp only [reported, List.map_eq_nil_iff, Blamed, List.mem_map, Event.reported.injEq, true_and,
    exists_eq_right, not_exists]
  exact List.eq_nil_iff_forall_not_mem

theorem decides_declareAll {params : List (Ty × Name)} (h : ∀ p ∈ params, p.1.isWritten = true)
    (c : Context) (Γ : Env) :
    (reported .parameter c (c.declareAll params) = [] ∧ (c.declareAll params).table.env = Γ) ↔
      Chain Introduces c.table.env params Γ := by
  induction params generalizing c with
  | nil =>
    constructor
    · rintro ⟨-, rfl⟩
      exact .nil _
    · intro h
      cases h
      simp [Context.declareAll, reported]
  | cons p params ih =>
    obtain ⟨type, name⟩ := p
    have hstored : type.Stored := .plain (h (type, name) (by simp))
    have hrest : ∀ p ∈ params, p.1.isWritten = true := fun p hp => h p (by simp [hp])
    have hdeclare := decides_declare c name hstored c.line
    rw [Context.declareAll, reported_trans (steps_extends.declare c name c.line hstored).log
      (steps_extends.declareAll hrest _).log, List.append_eq_nil_iff, and_assoc, ih hrest,
      reported_eq_nil_iff, blamed_declare, Bool.not_eq_false]
    constructor
    · rintro ⟨hd, tail⟩
      exact .cons ((hdeclare _).mp ⟨hd, rfl⟩) tail
    · intro hc
      cases hc with
      | cons head tail =>
        obtain ⟨hd, rfl⟩ := (hdeclare _).mpr head
        exact ⟨hd, tail⟩

theorem decides_inside {params : List (Ty × Name)} (h : ∀ p ∈ params, p.1.isWritten = true)
    (c : Context) (name : Name) (Γ : Env) :
    (reported .parameter c (c.inside name params) = [] ∧ (c.inside name params).table.env = Γ) ↔
      params.Pairwise (fun p q => p.2.same q.2 = false) ∧ Γ = c.table.env.enterBody params := by
  have hall := (decides_declareAll h (c.enter name) Γ).trans chain_introduces_iff
  refine hall.trans ⟨fun hc => hc.2, fun hc => ⟨fun p _ => rfl, hc⟩⟩

theorem decides_body {name : Name} {s : Symbol} {items : List Action}
    (h : ∀ a ∈ items, a.DecidesStep) {c d : Context} {t : List Event} {ns : List Node}
    (sound : c.table.Sound) (visible : c.table.functionNamed name = some s)
    (run : Run (.body name (some s) items) c t ns d) :
    Plain t ∧ (∀ Γ, ((∀ n ∈ ns, n.error = false) ∧ d.table.env = Γ) ↔
      Chain Executes c.table.env items Γ) ∧
      ∀ i, i ∈ d.table.defined ↔ i ∈ c.table.defined ∨ (items ≠ [] ∧ i = s.id) := by
  induction items generalizing c t ns with
  | nil =>
    cases run
    exact ⟨.nil, fun Γ => chain_nil_iff, by simp⟩
  | cons a items ih =>
    cases run with
    | @line _ _ _ _ _ _ _ e _ _ _ _ _ head mark tail =>
      obtain ⟨hsteady, hplain, hstep⟩ := h a (by simp) sound head
      -- A statement declares no function, so the name still means the function of the body.
      have hseen := (hsteady.functionNamed head.extends name).trans visible
      cases mark.symm.trans (Context.mark?_of_functionNamed hseen s)
      have hsound := steps_sound.mark mark (head.sound sound)
      obtain ⟨hplain', hrest, hdefined⟩ := ih (fun b hb => h b (by simp [hb])) hsound
        ((e.table.functionNamed_mark s name).trans hseen) tail
      have hmarked : Plain [.marked s s] := by simp [Plain]
      simp only [Table.env_mark] at hrest
      refine ⟨(hplain.append hmarked).append hplain', chain_cons_iff hstep hrest, fun i => ?_⟩
      rw [hdefined, Table.mem_defined_mark, hsteady.defined]
      simp only [ne_eq, reduceCtorEq, not_false_eq_true, true_and, or_assoc]
      refine or_congr_right ⟨?_, .inl⟩
      rintro (hi | ⟨-, hi⟩) <;> exact hi

def Action.DecidesItem (action : Action) : Prop :=
  ∀ {G : Globals} {c d : Context} {t : List Event} {n : Node}, c.table.Sound → G.Matches c.table →
    Run (.one action) c t [n] d →
      ∃ G', (diagnosticsOf t = [] → G'.Matches d.table) ∧
        ∀ G'', (diagnosticsOf t = [] ∧ G'' = G') ↔ Admits G action G''

theorem decidesItem_statement {action : Action} (unlined : action.isLined = false)
    (hk : action.kind ≠ .function) (h : action.DecidesStep) : action.DecidesItem := by
  intro G c d t n sound hG run
  obtain ⟨hsteady, hplain, hstep⟩ := h sound run
  have hquiet : diagnosticsOf t = [] ↔ n.error = false := by
    rw [hplain.diagnosticsOf_eq_nil, ← (run.accounted sound).one, Bool.not_eq_true]
  refine ⟨{ G with env := d.table.env }, fun _ => hG.steady hsteady, fun G'' => ?_⟩
  rw [hG.env] at hstep
  rw [hquiet]
  constructor
  · rintro ⟨hn, rfl⟩
    exact .statement ((hstep _).mp ⟨hn, rfl⟩)
  · intro ha
    cases ha with
    | lined => cases unlined
    | statement hs =>
      obtain ⟨hn, rfl⟩ := (hstep _).mpr hs
      exact ⟨hn, rfl⟩
    | prototype | definition => exact absurd rfl hk

theorem decidesItem_prototype (returns : Ty) (name : Name) (params : List (Ty × Name)) :
    (Action.function returns name params none).DecidesItem := by
  intro G c d t n sound hG run
  cases run with
  | check operands _ _ => cases operands
  | @prototype _ _ _ own _ _ proper bound =>
    have hbind := decides_bind hG sound proper.1 bound
    have hquiet : diagnosticsOf (reported .node c d ++ accepted own name none) = [] ↔
        own.isSome = true := by
      rw [diagnosticsOf_append, diagnosticsOf_accepted, List.append_nil,
        diagnosticsOf_reported_eq_nil, reported_eq_nil_iff, blamed_bind bound]
      cases own <;> simp
    refine ⟨{ G with env := d.table.env }, fun _ => hG.bind sound bound, fun G'' => ?_⟩
    rw [hquiet]
    constructor
    · rintro ⟨hn, rfl⟩
      exact .prototype ((hbind _).mp ⟨hn, rfl⟩)
    · intro ha
      cases ha with
      | statement hs =>
        cases hs with
        | expression h => cases h
      | prototype hd =>
        obtain ⟨hn, rfl⟩ := (hbind _).mpr hd
        exact ⟨hn, rfl⟩

structure BodyDecided (s : Symbol) (lines : List Action) (c : Context) (t : List Event)
    (d : Context) : Prop where
  plain : Plain t
  decides : ∀ Γ, (¬Blamed t ∧ d.table.env = Γ) ↔ Chain Executes c.table.env lines Γ
  defined : ∀ i, i ∈ d.table.defined ↔ i ∈ c.table.defined ∨ i = s.id

theorem BodyDecided.empty {name : Name} {s : Symbol} {c d : Context} {marks : List Event}
    (visible : c.table.functionNamed name = some s)
    (mark : c.mark? name (some s) = some (marks, d)) : BodyDecided s [] c marks d := by
  cases mark.symm.trans (Context.mark?_of_functionNamed visible s)
  refine ⟨by simp [Plain], fun Γ => ⟨?_, fun h => ?_⟩, fun i => Table.mem_defined_mark⟩
  · rintro ⟨-, rfl⟩
    simpa using Chain.nil (R := Executes) c.table.env
  · cases h
    simp [Blamed]

theorem BodyDecided.lines {name : Name} {s : Symbol} {a : Action} {as : List Action}
    (h : ∀ x ∈ a :: as, x.DecidesStep) {c d : Context} {t : List Event} {ns : List Node}
    (sound : c.table.Sound) (visible : c.table.functionNamed name = some s)
    (run : Run (.body name (some s) (a :: as)) c t ns d) : BodyDecided s (a :: as) c t d := by
  obtain ⟨hplain, hdecides, hdefined⟩ := decides_body h sound visible run
  have hblamed : ¬Blamed t ↔ ∀ n ∈ ns, n.error = false := by
    rw [← (run.accounted sound).error]
    simp
  refine ⟨hplain, fun Γ => ?_, by simpa using hdefined⟩
  rw [hblamed]
  exact hdecides Γ

theorem decides_definition {G : Globals} {c d e f : Context} (hG : G.Matches c.table)
    (sound : c.table.Sound) {returns : Ty} {name : Name} {params : List (Ty × Name)}
    {lines : List Action} (proper : (Action.function returns name params (some lines)).Proper)
    {own : Option Symbol} (bound : c.bind returns name params = (own, d)) {t : List Event}
    (hext : (d.enter name).Extends e) (leave : e.leave? = some f)
    (body : ∀ s, own = some s → BodyDecided s lines (d.inside name params) t e) :
    ∃ G', (diagnosticsOf (reported .node c d ++ accepted own name (some lines) ++
          reported .parameter d (d.inside name params) ++ t) = [] → G'.Matches f.table) ∧
      ∀ G'', (diagnosticsOf (reported .node c d ++ accepted own name (some lines) ++
          reported .parameter d (d.inside name params) ++ t) = [] ∧ G'' = G') ↔
        Admits G (.function returns name params (some lines)) G'' := by
  have hbind := decides_bind hG sound proper.1 bound
  have hquiet : diagnosticsOf (reported .node c d ++ accepted own name (some lines) ++
      reported .parameter d (d.inside name params) ++ t) = [] ↔
        own.isSome = true ∧ reported .parameter d (d.inside name params) = [] ∧
          diagnosticsOf t = [] := by
    simp only [diagnosticsOf_append, diagnosticsOf_accepted, List.append_nil,
      List.append_eq_nil_iff, diagnosticsOf_reported_eq_nil, and_assoc]
    rw [reported_eq_nil_iff .node, blamed_bind bound]
    cases own <;> simp
  have hadmits {G'' : Globals} (ha : Admits G (.function returns name params (some lines)) G'') :
      ∃ Γ Γ', Declares G name ⟨params.map (·.1), returns⟩ Γ ∧
        params.Pairwise (fun p q => p.2.same q.2 = false) ∧
        Chain Executes (Γ.enterBody params) lines Γ' ∧ G'' = ⟨Γ, name :: G.bodied⟩ := by
    cases ha with
    | statement hs =>
      cases hs with
      | expression h => cases h
    | definition hd hp hb => exact ⟨_, _, hd, hp, hb, rfl⟩
  rw [hquiet]
  cases own with
  | none =>
    refine ⟨G, fun h => absurd h.1 (by simp),
      fun G'' => ⟨fun h => absurd h.1.1 (by simp), fun ha => ?_⟩⟩
    obtain ⟨Γ, -, hd, -⟩ := hadmits ha
    exact absurd ((hbind Γ).mpr hd).1 (by simp)
  | some s =>
    have hbody := body s rfl
    have hinside := decides_inside proper.2 d name
    have henv := hext.env_leave leave
    obtain ⟨hinner, -, hdefined⟩ := Context.inner_leave hext leave
    have hmarked : ∀ i, i ∈ f.table.defined ↔ i ∈ d.table.defined ∨ i = s.id := by
      intro i
      rw [hdefined, hbody.defined]
      have : (d.inside name params).table.defined = d.table.defined :=
        (Steady.declareAll params (d.enter name)).defined
      rw [this]
    have hd := steps_sound.bind proper bound sound
    refine ⟨⟨f.table.env, name :: G.bodied⟩, fun _ => ?_, fun G'' => ?_⟩
    · exact (hG.bind sound bound).mark hd (bind_visible bound rfl) hinner hmarked
    · rw [hbody.plain.diagnosticsOf_eq_nil, henv]
      constructor
      · rintro ⟨⟨-, hp, ht⟩, rfl⟩
        obtain ⟨hpair, henv'⟩ := (hinside _).mp ⟨hp, rfl⟩
        have hlines := (hbody.decides _).mp ⟨ht, rfl⟩
        rw [henv'] at hlines
        exact .definition ((hbind _).mp ⟨rfl, rfl⟩) hpair hlines
      · intro ha
        obtain ⟨Γ, Γ', hd, hpair, hlines, rfl⟩ := hadmits ha
        obtain ⟨-, rfl⟩ := (hbind Γ).mpr hd
        obtain ⟨hp, henv'⟩ := (hinside _).mpr ⟨hpair, rfl⟩
        rw [← henv'] at hlines
        exact ⟨⟨rfl, hp, ((hbody.decides _).mpr hlines).1⟩, rfl⟩

theorem decidesItem_definition (returns : Ty) (name : Name) (params : List (Ty × Name))
    {lines : List Action} (h : ∀ a ∈ lines, a.DecidesStep) :
    (Action.function returns name params (some lines)).DecidesItem := by
  intro G c d t n sound hG run
  cases run with
  | check operands _ _ => cases operands
  | emptyBody proper bound mark leave =>
    have hext := (extends_inside proper _).trans (steps_extends.mark mark)
    refine decides_definition hG sound proper bound hext leave fun s hs => ?_
    subst hs
    exact .empty (inside_functionNamed proper bound) mark
  | function proper bound lines leave =>
    have hext := (extends_inside proper _).trans lines.extends
    refine decides_definition hG sound proper bound hext leave fun s hs => ?_
    subst hs
    exact .lines h (sound_inside proper bound sound) (inside_functionNamed proper bound) lines

theorem Action.Fits.decidesItem {action : Action} (h : action.Fits strict .item) :
    action.DecidesItem := by
  generalize hp : Position.item = position at h
  induction h with
  | lined line _ ih =>
    intro G c d t n sound hG run
    cases run with
    | check operands _ _ => cases operands
    | lined inner =>
      have hs : (c.advanceTo line).table.Sound := sound
      have hm : G.Matches (c.advanceTo line).table := hG
      obtain ⟨G', hmatches, hadmits⟩ := ih hp hs hm inner
      refine ⟨G', hmatches, fun G'' => (hadmits G'').trans ⟨.lined line, fun ha => ?_⟩⟩
      cases ha with
      | lined _ ha => exact ha
      | statement hs =>
        cases hs with
        | lined _ hs => exact .statement hs
        | expression h =>
          cases h with
          | lined _ h => exact .statement (.expression h)
  | @intro position action unlined here proper inside ih =>
    subst hp
    by_cases hk : action.kind = .function
    · cases action with
      | lined => cases unlined
      | function returns name params body =>
        cases body with
        | none => exact decidesItem_prototype returns name params
        | some lines =>
          have hlines : ∀ a ∈ lines, a.Fits strict .statement := fun a ha =>
            inside (.statement, a) (by simpa [parts] using ha)
          exact decidesItem_definition returns name params fun a ha =>
            (hlines a ha).decidesStep (hlines a ha).allowed.2
      | _ => cases hk
    · have hfits : action.Fits strict .item := .intro unlined here proper inside
      exact decidesItem_statement unlined hk (hfits.decidesStep hk)

theorem decidesItem_all {items : List Action} (h : ∀ a ∈ items, a.DecidesItem) {G : Globals}
    {c d : Context} {t : List Event} {ns : List Node} (sound : c.table.Sound)
    (hG : G.Matches c.table) (run : Run (.all items) c t ns d) :
    diagnosticsOf t = [] ↔ ∃ G', Chain Admits G items G' := by
  induction items generalizing G c t ns with
  | nil =>
    cases run
    exact ⟨fun _ => ⟨G, .nil G⟩, fun _ => rfl⟩
  | cons a items ih =>
    cases run with
    | cons head tail =>
      obtain ⟨G', hmatches, hadmits⟩ := h a (by simp) sound hG head
      rw [diagnosticsOf_append, List.append_eq_nil_iff]
      have htail (hq : diagnosticsOf _ = []) := ih (fun b hb => h b (by simp [hb]))
        (head.sound sound) (hmatches hq) tail
      constructor
      · rintro ⟨hq, hq'⟩
        obtain ⟨G'', hchain⟩ := (htail hq).mp hq'
        exact ⟨G'', .cons ((hadmits G').mp ⟨hq, rfl⟩) hchain⟩
      · rintro ⟨G'', hchain⟩
        cases hchain with
        | cons ha has =>
          obtain ⟨hq, rfl⟩ := (hadmits _).mpr ha
          exact ⟨hq, (htail hq).mpr ⟨G'', has⟩⟩

instance (position : Position) (kind : Kind) : Decidable (strict position kind) :=
  match position with
  | .expression => inferInstanceAs (Decidable (kind.isExpression = true))
  | .size => inferInstanceAs (Decidable False)
  | .statement | .header => inferInstanceAs (Decidable (kind ≠ .flawed ∧ kind ≠ .function))
  | .item => inferInstanceAs (Decidable (kind ≠ .flawed))

theorem strict_flawless {position : Position} {kind : Kind} (h : strict position kind) :
    flawless position kind := by
  cases position with
  | expression =>
    rintro rfl
    cases h
  | size => exact absurd h id
  | statement | header => exact h.1
  | item => exact h

/-- A program that conforms to the format, with values in expressions, functions at the top alone
and no action for the size of an array, is built to its end, and nothing is reported of it exactly
when it is well typed. -/
theorem builds_quietly_iff_wellTyped (reportAll : Bool) (program : List Value)
    (conforms : ∀ v ∈ program, Conforms strict .item v) :
    ∃ nodes d, exec (buildAll (program.map Action.ofValue)) { reportAll } = (.ok nodes, d) ∧
      (d.log.diagnostics = [] ↔ WellTyped (program.map Action.ofValue)) := by
  have hfits : ∀ a ∈ program.map Action.ofValue, a.Fits strict .item := by
    intro a ha
    obtain ⟨v, hv, rfl⟩ := List.mem_map.mp ha
    exact (conforms v hv).fits rfl
  have htotal : ∀ a ∈ program.map Action.ofValue, a.Total := fun a ha =>
    Action.Fits.total ((hfits a ha).imp strict_flawless fun _ _ => strict_flawless)
  obtain ⟨t, nodes, d, run⟩ := exists_run_all htotal { reportAll }
  have hitems := decidesItem_all (fun a ha => (hfits a ha).decidesItem) Table.Sound.empty
    Globals.Matches.empty run
  have hlog : d.log.diagnostics = diagnosticsOf t := run.diagnostics
  refine ⟨nodes, d, exec_of_run run, ?_⟩
  rw [hlog]
  exact hitems

def halving : List Value :=
  [.object [("node", .string "function"), ("returns", .string "float"), ("name", .string "half"),
      ("params", .list [.list [.string "float", .string "x"]]),
      ("body", .list [.object [("node", .string "return"),
        ("operand", .object [("node", .string "op"), ("op", .string "/"),
          ("operands", .list [.object [("node", .string "var"), ("name", .string "x")],
            .object [("node", .string "const"), ("type", .string "int"),
              ("value", .string "2")]])])]])],
    .object [("node", .string "declaration"), ("type", .string "int"), ("line", .int 4),
      ("bindings", .list [.object [("name", .string "y"),
        ("literal", .object [("type", .string "int"), ("value", .string "3")])]])],
    .object [("node", .string "call"), ("name", .string "half"),
      ("args", .list [.object [("node", .string "var"), ("name", .string "y")]])]]

theorem builds_quietly_iff_wellTyped_halving :
    (∀ v ∈ halving, Conforms strict .item v) ∧ WellTyped (halving.map Action.ofValue) ∧
      ∃ nodes d, exec (buildAll (halving.map Action.ofValue)) {} = (.ok nodes, d) ∧
        d.log.diagnostics = [] := by
  obtain ⟨hcheck, hquiet⟩ : (halving.all fun v => v.conforms strict 4 .item) = true ∧
      (exec (buildAll (halving.map Action.ofValue)) {}).2.log.diagnostics = [] := by decide +kernel
  have conforms := Conforms.forall_of_check hcheck
  obtain ⟨nodes, d, hbuilt, hiff⟩ := builds_quietly_iff_wellTyped true halving conforms
  rw [hbuilt] at hquiet
  exact ⟨conforms, hiff.mp hquiet, nodes, d, hbuilt, hquiet⟩

end Treewright
