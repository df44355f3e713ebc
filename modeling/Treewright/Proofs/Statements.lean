import Treewright.Proofs.Expressions
set_option autoImplicit false

namespace Treewright

open Build

def Action.DecidesStep (action : Action) : Prop :=
  ∀ {c d : Context} {t : List Event} {n : Node}, c.table.Sound → Run (.one action) c t [n] d →
    Steady c d ∧ Plain t ∧
      ∀ Γ, (n.error = false ∧ d.table.env = Γ) ↔ Executes c.table.env action Γ

section Chains

variable {α : Type} {R : Env → α → Env → Prop}

theorem chain_nil_iff {Γ Γ' : Env} :
    ((∀ n ∈ ([] : List Node), n.error = false) ∧ Γ = Γ') ↔ Chain R Γ [] Γ' := by
  constructor
  · rintro ⟨-, rfl⟩
    exact .nil _
  · rintro ⟨⟩
    simp

theorem chain_cons_iff {Γ₀ Γ₁ Γ₂ : Env} {a : α} {items : List α} {n : Node} {ns : List Node}
    (hstep : ∀ Γ, (n.error = false ∧ Γ₁ = Γ) ↔ R Γ₀ a Γ)
    (hrest : ∀ Γ, ((∀ m ∈ ns, m.error = false) ∧ Γ₂ = Γ) ↔ Chain R Γ₁ items Γ) (Γ : Env) :
    ((∀ m ∈ n :: ns, m.error = false) ∧ Γ₂ = Γ) ↔ Chain R Γ₀ (a :: items) Γ := by
  constructor
  · rintro ⟨hn, rfl⟩
    simp only [List.mem_cons, forall_eq_or_imp] at hn
    exact .cons ((hstep _).mp ⟨hn.1, rfl⟩) ((hrest _).mp ⟨hn.2, rfl⟩)
  · intro h
    cases h with
    | cons ha has =>
      obtain ⟨hn, rfl⟩ := (hstep _).mpr ha
      obtain ⟨hns, rfl⟩ := (hrest _).mpr has
      exact ⟨by simpa using ⟨hn, hns⟩, rfl⟩

end Chains

theorem decidesStep_all {items : List Action} (h : ∀ a ∈ items, a.DecidesStep) {c d : Context}
    {t : List Event} {ns : List Node} (sound : c.table.Sound) (run : Run (.all items) c t ns d) :
    Steady c d ∧ Plain t ∧ ∀ Γ, ((∀ n ∈ ns, n.error = false) ∧ d.table.env = Γ) ↔
      Chain Executes c.table.env items Γ := by
  induction items generalizing c t ns with
  | nil =>
    cases run
    exact ⟨.of_table rfl, .nil, fun Γ => chain_nil_iff⟩
  | cons a items ih =>
    cases run with
    | cons head tail =>
      obtain ⟨hsteady, hplain, hstep⟩ := h a (by simp) sound head
      obtain ⟨hsteady', hplain', hrest⟩ :=
        ih (fun b hb => h b (by simp [hb])) (head.sound sound) tail
      exact ⟨hsteady.trans hsteady', hplain.append hplain', chain_cons_iff hstep hrest⟩

theorem decidesStep_blocks {blocks : List (String × List Action)}
    (h : ∀ b ∈ blocks, ∀ a ∈ b.2, a.DecidesStep) {c d : Context} {t : List Event} {ns : List Node}
    (sound : c.table.Sound) (run : Run (.blocks blocks) c t ns d) :
    Steady c d ∧ Plain t ∧ d.table.env = c.table.env ∧
      ((∀ n ∈ ns, n.error = false) ↔
        ∀ b ∈ blocks, ∃ Γ, Chain Executes c.table.env.enter b.2 Γ) := by
  induction blocks generalizing c t ns with
  | nil =>
    cases run
    exact ⟨.of_table rfl, .nil, rfl, by simp⟩
  | cons b blocks ih =>
    cases run with
    | block inside leave others =>
      obtain ⟨hsteady, hplain, hlines⟩ :=
        decidesStep_all (h _ List.mem_cons_self) (sound.enter .nothing) inside
      have hout := steps_sound.scope inside.sound leave sound
      obtain ⟨hsteady', hplain', henv', hrest⟩ :=
        ih (fun b' hb' => h b' (by simp [hb'])) hout others
      have henv := inside.extends.env_leave leave
      rw [henv] at henv' hrest
      refine ⟨(hsteady.scope inside.extends leave).trans hsteady', hplain.append hplain', henv', ?_⟩
      have hblock {title : String} {ms : List Node} :
          (Build.block title ms).error = false ↔ ∀ m ∈ ms, m.error = false := by
        rw [← Bool.not_eq_true, show (Build.block title ms).error = Node.anyError ms from rfl,
          anyError_iff]
        simp
      simp only [List.mem_cons, forall_eq_or_imp, hblock, hrest]
      refine and_congr_left fun _ => ?_
      constructor
      · intro hn
        exact ⟨_, (hlines _).mp ⟨hn, rfl⟩⟩
      · rintro ⟨Γ, hc⟩
        exact ((hlines Γ).mpr hc).1

theorem Table.env_inner_var? (t : Table) (name : Name) :
    t.env.inner.var? name = none ↔ t.inner.variableNamed name = none := by
  rw [show t.env.inner = t.inner.frame from rfl, Scope.frame_var?, Option.map_eq_none_iff]

theorem decides_declare (c : Context) (name : Name) {type : Ty} (h : type.Stored) (line : Int)
    (Γ : Env) :
    ((c.declare name type line).1 = true ∧ (c.declare name type line).2.table.env = Γ) ↔
      c.table.env.inner.var? name = none ∧ Γ = c.table.env.addVar name type := by
  rw [Table.env_inner_var?]
  rcases c.declare_cases name type line with ⟨hn, he⟩ | ⟨hs, he⟩
  · rw [he, hn]
    simp only [true_and]
    rw [Table.env_addVariable _ _ h]
    exact eq_comm
  · rw [he]
    simp only [Bool.false_eq_true, false_and, false_iff, not_and]
    intro hn
    simp [hn] at hs

theorem Verdict.Accounts.decides {v : Verdict} {before P : Prop} (h : v.Accounts before)
    (hp : ¬before → (v.failed = false ↔ P)) : v.failed = false ↔ ¬before ∧ P := by
  by_cases hb : before
  · simp [h.mpr (.inl hb), hb]
  · simp [hb, hp hb]

theorem decides_boundNode {type : Ty} (proper : type.isWritten = true) (name : Name)
    (value : Option Node) (clean : ∀ v ∈ value, v.operand.Clean) (c : Context) (Γ : Env) :
    ((boundNode type name value c).1.error = false ∧
        (boundNode type name value c).2.table.env = Γ) ↔
      (∀ v ∈ value, v.error = false ∧ v.type = type) ∧
        c.table.env.inner.var? name = none ∧ Γ = c.table.env.addVar name type := by
  rw [← decides_declare c name (.plain proper) c.line Γ]
  cases value with
  | none =>
    change ((!(c.declare name type c.line).1 || false) = false ∧
      (c.declare name type c.line).2.table.env = Γ) ↔ _
    simp
  | some v =>
    have hclean := clean v rfl
    have hverdict : (checkInitial type v.operand).failed = false ↔
        v.error = false ∧ v.type = type := by
      rw [(accounts_checkInitial hclean type).decides fun hn => checkInitial_passes hclean
        (Bool.eq_false_iff.mpr hn) (Ty.native_of_isWritten proper), Bool.not_eq_true]
      rfl
    change ((!(c.declare name type c.line).1 || (checkInitial type v.operand).failed) = false ∧
      (c.declare name type c.line).2.table.env = Γ) ↔ _
    rw [Bool.or_eq_false_iff, hverdict]
    simp [and_assoc, and_left_comm]

theorem binds_iff {type : Ty} {Γ Γ' : Env} {name : Name} {value : Option Action} :
    Binds type Γ (name, value) Γ' ↔
      (∀ a ∈ value, HasType Γ a type) ∧ Γ.inner.var? name = none ∧ Γ' = Γ.addVar name type := by
  constructor
  · rintro (⟨hf⟩ | ⟨hv, hf⟩)
    · simpa using hf
    · simpa using ⟨hv, hf⟩
  · rintro ⟨hv, hf, rfl⟩
    cases value with
    | none => exact .plain hf
    | some a => exact .given (hv a rfl) hf

theorem decides_bindings {type : Ty} {items : List (Name × Option Action)}
    (h : ∀ b ∈ items, ∀ a ∈ b.2.toList, a.DecidesType) {c d : Context} {t : List Event}
    {ns : List Node} (sound : c.table.Sound) (run : Run (.bindings type items) c t ns d) :
    Steady c d ∧ Plain t ∧ ∀ Γ, ((∀ n ∈ ns, n.error = false) ∧ d.table.env = Γ) ↔
      Chain (Binds type) c.table.env items Γ := by
  induction items generalizing c t ns with
  | nil =>
    cases run
    exact ⟨.of_table rfl, .nil, fun Γ => chain_nil_iff⟩
  | cons b items ih =>
    cases run with
    | @binding _ name value _ vs _ n _ d' e _ _ _ proper given bound others =>
      obtain ⟨htable, hplain, htypes⟩ := decidesType_all (h _ List.mem_cons_self) sound given
      have hsound := steps_sound.boundNode proper bound (given.sound sound)
      obtain ⟨hsteady, hplain', hrest⟩ := ih (fun b' hb' => h b' (by simp [hb'])) hsound others
      have hclean : ∀ v ∈ vs.head?, v.operand.Clean := fun v hv =>
        (given.accounted sound).clean v (List.mem_of_mem_head? hv)
      have hbound := decides_boundNode proper name vs.head? hclean d'
      rw [bound, htable] at hbound
      have hd := Steady.boundNode bound
      have hvalue : (∀ v ∈ vs.head?, v.error = false ∧ v.type = type) ↔
          ∀ a ∈ value, HasType c.table.env a type := decidesType_option given htypes type
      simp only [hvalue] at hbound
      exact ⟨((Steady.of_table htable).trans hd).trans hsteady,
        (hplain.append (plain_reported d' e)).append hplain',
        chain_cons_iff (fun Γ => (hbound Γ).trans binds_iff.symm) hrest⟩

theorem unfailed_all {ns : List Node} : Node.anyError ns = false ↔ ∀ n ∈ ns, n.error = false := by
  simp [Node.anyError_eq_any]

theorem unfailed_head? {ns : List Node} (h : ns.length ≤ 1) :
    Node.optionError ns.head? = false ↔ ∀ n ∈ ns, n.error = false := by
  rw [← Bool.not_eq_true, optionError_head? h]
  simp

theorem decides_test {n : Node} (clean : n.operand.Clean) :
    (checkTest n.operand).failed = false ↔ n.error = false ∧ n.type = .bool := by
  rw [(accounts_checkTest clean).decides fun hn =>
      checkTest_passes clean (Bool.eq_false_iff.mpr hn),
    Bool.not_eq_true]
  rfl

theorem decides_assignment {target value : Node} (clean : target.operand.Clean) :
    (checkAssignment target.operand value.operand).2.failed = false ↔
      (target.error = false ∧ value.error = false) ∧ target.type.Accepts value.type := by
  rw [(accounts_checkAssignment _ _).decides fun hn => checkAssignment_passes clean
    (Bool.eq_false_iff.mpr (not_or.mp hn).1) (Bool.eq_false_iff.mpr (not_or.mp hn).2), not_or,
    Bool.not_eq_true, Bool.not_eq_true]
  rfl

theorem executes_expression {Γ Γ' : Env} {e : Action} (unlined : e.isLined = false)
    (hk : e.kind.isExpression = true) : Executes Γ e Γ' ↔ Γ' = Γ ∧ ∃ t, HasType Γ e t := by
  constructor
  · intro h
    cases h with
    | lined => cases unlined
    | expression h => exact ⟨rfl, _, h⟩
    | _ => cases hk
  · rintro ⟨rfl, t, h⟩
    exact .expression h

theorem executes_conditional {Γ Γ' : Env} {condition : Action} {accepted : List Action}
    {rejected : Option (List Action)} :
    Executes Γ (.conditional condition accepted rejected) Γ' ↔
      Γ' = Γ ∧ HasType Γ condition .bool ∧
        ∀ b ∈ branches accepted rejected, ∃ Δ, Chain Executes Γ.enter b.2 Δ := by
  constructor
  · intro h
    cases h with
    | expression h => cases h
    | ifThen hc ha => exact ⟨rfl, hc, by simpa [branches] using ⟨_, ha⟩⟩
    | ifElse hc ha hr => exact ⟨rfl, hc, by simpa [branches] using ⟨⟨_, ha⟩, _, hr⟩⟩
  · rintro ⟨rfl, hc, hb⟩
    cases rejected with
    | none =>
      obtain ⟨Δ, ha⟩ : ∃ Δ, Chain Executes Γ'.enter accepted Δ := by simpa [branches] using hb
      exact .ifThen hc ha
    | some lines =>
      obtain ⟨⟨Δ, ha⟩, Δ', hr⟩ : (∃ Δ, Chain Executes Γ'.enter accepted Δ) ∧
          ∃ Δ, Chain Executes Γ'.enter lines Δ := by simpa [branches] using hb
      exact .ifElse hc ha hr

theorem executes_assign {Γ Γ' : Env} {target value : Action} :
    Executes Γ (.assign target value) Γ' ↔
      Γ' = Γ ∧ ∃ t s, HasType Γ target t ∧ HasType Γ value s ∧ t.Accepts s := by
  constructor
  · intro h
    cases h with
    | expression h => cases h
    | assign ht hv ha => exact ⟨rfl, _, _, ht, hv, ha⟩
  · rintro ⟨rfl, t, s, ht, hv, ha⟩
    exact .assign ht hv ha

theorem executes_ret {Γ Γ' : Env} {operand : Option Action} :
    Executes Γ (.ret operand) Γ' ↔ Γ' = Γ ∧ ∀ e ∈ operand, ∃ t, HasType Γ e t := by
  constructor
  · intro h
    cases h with
    | expression h => cases h
    | ret => simp
    | retValue h => exact ⟨rfl, by simpa using ⟨_, h⟩⟩
  · rintro ⟨rfl, h⟩
    cases operand with
    | none => exact .ret
    | some e =>
      obtain ⟨t, h⟩ := h e rfl
      exact .retValue h

theorem DecidesType.decidesStep {action : Action} (unlined : action.isLined = false)
    (hk : action.kind.isExpression = true) (h : action.DecidesType) : action.DecidesStep := by
  intro c d t n sound run
  obtain ⟨htable, hplain, htype⟩ := h sound run
  refine ⟨.of_table htable, hplain, fun Γ => ?_⟩
  rw [executes_expression unlined hk, htable]
  constructor
  · rintro ⟨hn, rfl⟩
    exact ⟨rfl, _, (htype _).mp ⟨hn, rfl⟩⟩
  · rintro ⟨rfl, type, ht⟩
    exact ⟨((htype type).mpr ht).1, rfl⟩

theorem decidesStep_declaration {type : Ty} {kind symbolType : String}
    {items : List (Name × Option Action)} (h : ∀ b ∈ items, ∀ a ∈ b.2.toList, a.DecidesType) :
    (Action.declaration type kind symbolType items).DecidesStep := by
  intro c d t n sound run
  cases run with
  | check operands _ _ => cases operands
  | declaration proper inner =>
    obtain ⟨hsteady, hplain, hbinds⟩ := decides_bindings h sound inner
    refine ⟨hsteady, hplain, fun Γ => ?_⟩
    refine (and_congr_left fun _ => unfailed_all).trans
      ((hbinds Γ).trans ⟨.declaration _ _, fun h => ?_⟩)
    cases h with
    | declaration _ _ h => exact h
    | expression h => cases h

theorem decidesStep_arrayDecl {type : Ty} (proper : type.isWritten = true) (name : Name)
    (size : String) : (Action.arrayDecl type name size).DecidesStep := by
  intro c d t n sound run
  have ho : (Action.arrayDecl type name size).operands? = some [] := rfl
  obtain ⟨t', nodes, e, -, inner, rfl, hn, rfl⟩ := run.of_operands ho
  cases hn
  cases inner
  refine ⟨.declare c name _ c.line, Plain.nil.append (plain_checked _ _ _), fun Γ => ?_⟩
  have hdeclare := decides_declare c name (.array size proper) c.line Γ
  change (!(c.declare name (.array type (.string size)) c.line).1) = false ∧ _ ↔ _
  rw [Bool.not_eq_false']
  refine hdeclare.trans ⟨?_, fun h => ?_⟩
  · rintro ⟨hf, rfl⟩
    exact .arrayDecl type size hf
  · cases h with
    | arrayDecl _ _ hf => exact ⟨hf, rfl⟩
    | expression h => cases h

theorem decidesStep_assign {target value : Action} (ht : target.DecidesType)
    (hv : value.DecidesType) : (Action.assign target value).DecidesStep := by
  intro c d t n sound run
  have ho : (Action.assign target value).operands? = some [target, value] := rfl
  obtain ⟨t', nodes, e, -, inner, rfl, hn, rfl⟩ := run.of_operands ho
  cases hn
  obtain ⟨htable, hplain, htypes⟩ := decidesType_all (by simpa using ⟨ht, hv⟩) sound inner
  have clean := (inner.accounted sound).clean
  have hl := length_of_exec_buildAll (exec_of_run inner)
  obtain ⟨m, v, rfl⟩ := List.length_eq_two.mp hl
  refine ⟨.of_table htable, hplain.append (plain_checked _ _ _), fun Γ => ?_⟩
  change (checkAssignment m.operand v.operand).2.failed = false ∧ e.table.env = Γ ↔ _
  rw [decides_assignment (clean m (by simp)), executes_assign, htable]
  have hpair (a b : Ty) : (((m.error = false ∧ v.error = false) ∧ m.type = a ∧ v.type = b) ↔
      HasType c.table.env target a ∧ HasType c.table.env value b) := by
    simpa using htypes [a, b]
  constructor
  · rintro ⟨⟨hn, ha⟩, rfl⟩
    obtain ⟨ht, hv⟩ := (hpair _ _).mp ⟨hn, rfl, rfl⟩
    exact ⟨rfl, _, _, ht, hv, ha⟩
  · rintro ⟨rfl, a, b, ht, hv, ha⟩
    obtain ⟨hn, rfl, rfl⟩ := (hpair a b).mpr ⟨ht, hv⟩
    exact ⟨⟨hn, ha⟩, rfl⟩

theorem decidesStep_ret {operand : Option Action} (h : ∀ a ∈ operand.toList, a.DecidesType) :
    (Action.ret operand).DecidesStep := by
  intro c d t n sound run
  have ho : (Action.ret operand).operands? = some operand.toList := rfl
  obtain ⟨t', nodes, e, -, inner, rfl, hn, rfl⟩ := run.of_operands ho
  cases hn
  obtain ⟨htable, hplain, htypes⟩ := decidesType_all h sound inner
  refine ⟨.of_table htable, hplain.append (plain_checked _ _ _), fun Γ => ?_⟩
  change Node.optionError nodes.head? = false ∧ d.table.env = Γ ↔ _
  rw [unfailed_head? (length_of_run_option inner), executes_ret, htable]
  constructor
  · rintro ⟨hn, rfl⟩
    obtain ⟨types, hs⟩ : ∃ types, List.Forall₂ (HasType c.table.env) operand.toList types :=
      ⟨_, (htypes _).mp ⟨hn, rfl⟩⟩
    refine ⟨rfl, ?_⟩
    cases operand with
    | none => simp
    | some a =>
      cases hs with
      | cons ha _ => simpa using ⟨_, ha⟩
  · rintro ⟨rfl, h⟩
    cases operand with
    | none => exact ⟨((htypes []).mpr .nil).1, rfl⟩
    | some a =>
      obtain ⟨type, ha⟩ := h a rfl
      exact ⟨((htypes [type]).mpr (.cons ha .nil)).1, rfl⟩

theorem decidesStep_nop : Action.nop.DecidesStep := by
  intro c d t n sound run
  have ho : Action.nop.operands? = some [] := rfl
  obtain ⟨t', nodes, e, -, inner, rfl, hn, rfl⟩ := run.of_operands ho
  cases hn
  cases inner
  refine ⟨.of_table rfl, Plain.nil.append (plain_checked _ _ _), fun Γ => ⟨?_, fun h => ?_⟩⟩
  · rintro ⟨-, rfl⟩
    exact .nop
  · cases h with
    | nop => exact ⟨rfl, rfl⟩
    | expression h => cases h

theorem decidesStep_block {lines : List Action} (h : ∀ a ∈ lines, a.DecidesStep) :
    (Action.block lines).DecidesStep := by
  intro c d t n sound run
  cases run with
  | check operands _ _ => cases operands
  | scope inner =>
    obtain ⟨hsteady, hplain, henv, hlines⟩ := decidesStep_blocks (by simpa using h) sound inner
    refine ⟨hsteady, hplain, fun Γ => ?_⟩
    rw [henv]
    simp only [List.mem_singleton, forall_eq] at hlines
    rw [hlines]
    constructor
    · rintro ⟨⟨Δ, h⟩, rfl⟩
      exact .block h
    · intro h
      cases h with
      | block h => exact ⟨⟨_, h⟩, rfl⟩
      | expression h => cases h

theorem decidesStep_conditional {condition : Action} {accepted : List Action}
    {rejected : Option (List Action)} (hc : condition.DecidesType)
    (h : ∀ b ∈ branches accepted rejected, ∀ a ∈ b.2, a.DecidesStep) :
    (Action.conditional condition accepted rejected).DecidesStep := by
  intro c d t n sound run
  cases run with
  | check operands _ _ => cases operands
  | @conditional _ _ _ n b _ bs _ d e _ _ _ test inside made =>
    obtain ⟨htable, hplain, htype⟩ := hc sound test
    obtain ⟨hsteady, hplain', henv, hblocks⟩ := decidesStep_blocks h (test.sound sound) inside
    obtain ⟨rfl, rfl⟩ := Prod.ext_iff.mp made
    have htest := decides_test ((test.accounted sound).clean n (by simp))
    have hbs := length_of_run_branches inside
    refine ⟨(Steady.of_table htable).trans (hsteady.trans (.of_table rfl)),
      (hplain.append hplain').append (plain_reported _ _), fun Γ => ?_⟩
    change ((checkTest n.operand).failed || b.error || Node.optionError bs.head?) = false ∧
      e.table.env = Γ ↔ _
    rw [htable] at henv hblocks
    simp only [List.mem_cons, forall_eq_or_imp] at hblocks
    rw [Bool.or_eq_false_iff, Bool.or_eq_false_iff, unfailed_head? hbs,
      and_assoc (b := b.error = false), hblocks, htest, htype, henv, executes_conditional, and_comm,
      eq_comm]

theorem decidesStep_loop {init update : Option Action} {test : Action} {body : List Action}
    (hi : ∀ a ∈ init.toList, a.DecidesStep) (ht : test.DecidesType)
    (hu : ∀ a ∈ update.toList, a.DecidesStep) (hb : ∀ a ∈ body, a.DecidesStep) :
    (Action.loop init test update body).DecidesStep := by
  intro c d t n sound run
  cases run with
  | check operands _ _ => cases operands
  | @loop _ _ _ _ n b _ is us _ c₁ c₂ c₃ c₄ d _ t₁ t₂ t₃ t₄ first condition next inside leave
      made =>
    have s₁ := first.sound (sound.enter .nothing)
    have s₂ := condition.sound s₁
    obtain ⟨hsteady₁, hplain₁, hinit⟩ := decidesStep_all hi (sound.enter .nothing) first
    obtain ⟨htable, hplain₂, htype⟩ := ht s₁ condition
    obtain ⟨hsteady₃, hplain₃, hupdate⟩ := decidesStep_all hu s₂ next
    obtain ⟨hsteady₄, hplain₄, henv, hbody⟩ :=
      decidesStep_blocks (by simpa using hb) (next.sound s₂) inside
    have hextends :=
      ((first.extends.trans condition.extends).trans next.extends).trans inside.extends
    have hsteady := ((hsteady₁.trans (.of_table htable)).trans hsteady₃).trans hsteady₄
    have htest := decides_test ((condition.accounted s₁).clean n (by simp))
    obtain ⟨rfl, rfl⟩ := Prod.ext_iff.mp made
    refine ⟨(hsteady.scope hextends leave).trans (.of_table rfl),
      (((hplain₁.append hplain₂).append hplain₃).append hplain₄).append (plain_reported _ _),
      fun Γ => ?_⟩
    simp only [List.mem_singleton, forall_eq] at hbody
    change ((checkTest n.operand).failed || Node.optionError is.head? || n.error ||
      Node.optionError us.head? || b.error) = false ∧ d.table.env = Γ ↔ _
    rw [hextends.env_leave leave]
    simp only [Bool.or_eq_false_iff, unfailed_head? (length_of_run_option first),
      unfailed_head? (length_of_run_option next), htest, hbody]
    rw [htable] at hupdate
    constructor
    · rintro ⟨⟨⟨⟨⟨hn, his⟩, -⟩, hus⟩, Δ, hb⟩, rfl⟩
      exact .loop ((hinit _).mp ⟨his, rfl⟩) ((htype _).mp hn) ((hupdate _).mp ⟨hus, rfl⟩) hb
    · intro h
      cases h with
      | expression h => cases h
      | loop hi ht hu hb =>
        obtain ⟨his, rfl⟩ := (hinit _).mpr hi
        obtain ⟨hn, hty⟩ := (htype _).mpr ht
        obtain ⟨hus, rfl⟩ := (hupdate _).mpr hu
        exact ⟨⟨⟨⟨⟨⟨hn, hty⟩, his⟩, hn⟩, hus⟩, _, hb⟩, rfl⟩

theorem Action.Fits.decidesStep {position : Position} {action : Action}
    (h : action.Fits strict position) (hk : action.kind ≠ .function) : action.DecidesStep := by
  induction h with
  | @lined _ action line _ ih =>
    intro c d t n sound run
    cases run with
    | check operands _ _ => cases operands
    | lined inner =>
      have hs : (c.advanceTo line).table.Sound := sound
      obtain ⟨hsteady, hplain, hstep⟩ := ih hk hs inner
      have hc : Steady c (c.advanceTo line) := .of_table rfl
      refine ⟨hc.trans hsteady, hplain, fun Γ => (hstep Γ).trans ⟨.lined line, fun h => ?_⟩⟩
      cases h with
      | lined _ h => exact h
      | expression h =>
        cases h with
        | lined _ h => exact .expression h
  | @intro position action unlined here proper inside ih =>
    by_cases he : action.kind.isExpression = true
    · have h : action.Fits strict .expression := .intro unlined he proper inside
      exact DecidesType.decidesStep unlined he h.decidesType
    have expression {a : Action} (ha : (Position.expression, a) ∈ action.parts) : a.DecidesType :=
      (inside _ ha).decidesType
    have statement {a : Action} (ha : (Position.statement, a) ∈ action.parts) : a.DecidesStep :=
      ih _ ha (inside _ ha).allowed.2
    have header {a : Action} (ha : (Position.header, a) ∈ action.parts) : a.DecidesStep :=
      ih _ ha (inside _ ha).allowed.2
    cases action with
    | faulty before fault => cases position <;> simp [strict, kind, Kind.isExpression] at here
    | lined => cases unlined
    | declaration type kind symbolType items =>
      exact decidesStep_declaration fun b hb a ha => expression (mem_parts_binding hb ha)
    | arrayDecl type name size => exact decidesStep_arrayDecl proper name size
    | sizedArray type name size => exact absurd (inside (.size, size) (by simp [parts])).allowed id
    | assign target value =>
      exact decidesStep_assign (expression (by simp [parts])) (expression (by simp [parts]))
    | block lines => exact decidesStep_block fun a ha => statement (by simpa [parts] using ha)
    | conditional condition accepted rejected =>
      exact decidesStep_conditional (expression (by simp [parts])) fun b hb a ha =>
        statement (mem_parts_branches hb ha)
    | loop init test update body =>
      refine decidesStep_loop (fun a ha => header ?_) (expression (by simp [parts]))
        (fun a ha => header ?_) fun a ha => statement ?_
      · simp [parts, Option.mem_toList.mp ha]
      · simp [parts, Option.mem_toList.mp ha]
      · simp [parts, ha]
    | function => exact absurd rfl hk
    | ret operand =>
      exact decidesStep_ret fun a ha => expression (by simp [parts, Option.mem_toList.mp ha])
    | nop => exact decidesStep_nop
    | _ => exact absurd rfl he

end Treewright
