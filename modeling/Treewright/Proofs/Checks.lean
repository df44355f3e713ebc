import Treewright.Proofs.Scopes
import Treewright.Proofs.Typing
set_option autoImplicit false

namespace Treewright

/-- What a check may rely on: a type without foreign parts, missing only after a failure. -/
structure Operand.Clean (o : Operand) : Prop where
  native : o.type.native = true
  failed : o.type = .any → o.failed = true

theorem Operand.Clean.spoiled_eq {o : Operand} (h : o.Clean) : o.spoiled = o.failed := by
  cases hf : o.failed with
  | true => simp [spoiled, hf]
  | false =>
    have ha : o.type ≠ .any := fun ha => by simp [h.failed ha] at hf
    simp [spoiled, hf, Ty.isError, ha]

theorem Operand.Clean.ne_any {o : Operand} (h : o.Clean) (hf : o.failed = false) :
    o.type ≠ .any := by
  intro ha
  rw [h.failed ha] at hf
  cases hf

theorem Operand.Clean.of_isWritten {type : Ty} (h : type.isWritten = true) (failed : Bool) :
    (Operand.mk type failed).Clean where
  native := Ty.native_of_isWritten h
  failed ha := absurd ha (Ty.ne_any_of_isWritten h)

namespace Fold

inductive Takes (fixed : Bool) (f : Fold) (index : Nat) (o : Operand) : Fold → Prop where
  | spoiled (h : f.failed = true ∨ o.failed = true) :
      Takes fixed f index o { f with failed := true }
  | skipped (ok : f.failed = false ∧ o.failed = false) (h : f.expected = .any ∨ o.type = .any) :
      Takes fixed f index o f
  | agreed (ok : f.failed = false ∧ o.failed = false) (hv : o.type ≠ .void)
      (h : f.expected.agrees o.type = true) : Takes fixed f index o f
  | coerced (ok : f.failed = false ∧ o.failed = false) (h : f.expected = .float ∧ o.type = .int) :
      Takes fixed f index o { f with coerced := f.coerced ++ [index] }
  | widened (ok : f.failed = false ∧ o.failed = false) (hfixed : fixed = false)
      (h : o.type = .float ∧ f.expected = .int) :
      Takes fixed f index o { f with coerced := List.range index, expected := o.type }
  | rejected (ok : f.failed = false ∧ o.failed = false) (hp : f.expected ≠ .any ∧ o.type ≠ .any)
      (h : o.type = .void ∨ f.expected.agrees o.type = false ∧
        ¬(f.expected = .float ∧ o.type = .int) ∧
        ¬(fixed = false ∧ o.type = .float ∧ f.expected = .int)) (expected actual : Ty) :
      Takes fixed f index o (f.reject expected actual)

theorem takes_step (fixed : Bool) (f : Fold) (index : Nat) (o : Operand) :
    Takes fixed f index o (f.step fixed index o) := by
  unfold step
  split
  · rename_i h
    exact .spoiled (by simpa using h)
  · rename_i hok
    have ok : f.failed = false ∧ o.failed = false := by simpa using hok
    split
    · rename_i h
      exact .skipped ok (by simpa using h)
    · rename_i hp
      have hp : f.expected ≠ .any ∧ o.type ≠ .any := by simpa using hp
      split
      · rename_i hv
        exact .rejected ok hp (.inl hv) _ _
      · rename_i hv
        split
        · rename_i h
          exact .agreed ok hv h
        · rename_i ha
          split
          · rename_i h
            exact .coerced ok (by simpa using h)
          · rename_i hc
            split
            · rename_i h
              simp only [Bool.and_eq_true, Bool.not_eq_true', Ty.canCoerce_iff] at h
              exact .widened ok h.1 h.2
            · rename_i hw
              refine .rejected ok hp (.inr ⟨by simpa using ha, by simpa using hc, ?_⟩) _ _
              simpa only [Bool.and_eq_true, Bool.not_eq_true', Ty.canCoerce_iff] using hw

def Accounts (f : Fold) (before : Prop) : Prop :=
  f.failed = true ↔ before ∨ f.mismatch.isSome = true

theorem accounts_step {f : Fold} {before : Prop} (h : f.Accounts before) (fixed : Bool)
    (index : Nat) (o : Operand) : (f.step fixed index o).Accounts (before ∨ o.failed = true) := by
  unfold Accounts at h ⊢
  have ht := takes_step fixed f index o
  generalize f.step fixed index o = g at ht ⊢
  cases ht with
  | spoiled hs =>
    have : before ∨ o.failed = true ∨ f.mismatch.isSome = true := by
      rcases hs with hf | ho
      · exact (h.mp hf).imp_right .inr
      · exact .inr (.inl ho)
    simpa [or_assoc] using this
  | skipped ok _ | agreed ok _ _ | coerced ok _ | widened ok _ _ => simpa [ok.2] using h
  | rejected ok _ _ expected actual => simp [reject]

theorem accounts_run {f : Fold} {before : Prop} (h : f.Accounts before) (fixed : Bool) (index : Nat)
    (operands : List Operand) :
    (run fixed f index operands).Accounts (before ∨ ∃ o ∈ operands, o.failed = true) := by
  induction operands generalizing f before index with
  | nil => simpa [run] using h
  | cons o operands ih =>
    have hs := ih (accounts_step h fixed index o) (index + 1)
    simpa [run, or_assoc] using hs

theorem problems_ne_nil {f : Fold} {op : Op} : f.problems op ≠ [] ↔ f.mismatch.isSome = true := by
  unfold problems
  split
  · rename_i h
    simp [h]
  · rename_i h
    simp [h]

theorem expected_run (fixed : Bool) (f : Fold) (index : Nat) (operands : List Operand) :
    (run fixed f index operands).expected = f.expected ∨
      fixed = false ∧ (run fixed f index operands).expected = .float := by
  induction operands generalizing f index with
  | nil => exact .inl rfl
  | cons o operands ih =>
    have hstep : (f.step fixed index o).expected = f.expected ∨
        fixed = false ∧ (f.step fixed index o).expected = .float := by
      have ht := takes_step fixed f index o
      generalize f.step fixed index o = g at ht ⊢
      cases ht with
      | widened _ hfixed h => exact .inr ⟨hfixed, h.1⟩
      | _ => exact .inl rfl
    rw [run]
    rcases ih (f.step fixed index o) (index + 1) with h | h
    · rw [h]
      exact hstep
    · exact .inr h

end Fold

theorem accounts_checkOperands (given : Option Ty) (operands : List Operand) :
    (checkOperands given operands).Accounts (∃ o ∈ operands, o.failed = true) := by
  have h (expected : Ty) : ({ expected } : Fold).Accounts False := by simp [Fold.Accounts]
  simpa [checkOperands] using Fold.accounts_run (h _) given.isSome 0 operands

namespace Ty

theorem joins_float_cons {types : List Ty} {type : Ty} :
    Joins (.float :: types) type ↔ type = .float ∧ ∀ t ∈ types, t = .int ∨ t = .float := by
  constructor
  · rintro (⟨-, h⟩ | ⟨rfl, -, h⟩)
    · have ht := h .float (by simp)
      exact ⟨ht.symm, fun t hm => .inr ((h t (by simp [hm])).trans ht.symm)⟩
    · exact ⟨rfl, fun t hm => h t (by simp [hm])⟩
  · rintro ⟨rfl, h⟩
    exact .inr ⟨rfl, by simp, by simpa using h⟩

theorem joins_congr {types types' : List Ty} (h : ∀ t, t ∈ types ↔ t ∈ types') (type : Ty) :
    Joins types type ↔ Joins types' type := by
  simp only [Joins, h]

end Ty

namespace Fold

theorem run_of_failed {f : Fold} (h : f.failed = true) (fixed : Bool) (index : Nat)
    (operands : List Operand) : run fixed f index operands = f := by
  have keeps : { f with failed := true } = f := by rw [← h]
  induction operands generalizing index with
  | nil => rfl
  | cons o operands ih =>
    have step_eq : f.step fixed index o = f := by rw [step, h]; exact keeps
    rw [run, step_eq, ih]

theorem run_joins {f : Fold} (ok : f.failed = false) (native : f.expected.native = true)
    (present : f.expected ≠ .any) (nonvoid : f.expected ≠ .void) (index : Nat)
    {operands : List Operand} (clean : ∀ o ∈ operands, o.Clean)
    (unfailed : ∀ o ∈ operands, o.failed = false) (type : Ty) :
    (run false f index operands).failed = false ∧ (run false f index operands).expected = type ↔
      Ty.Joins (f.expected :: operands.map (·.type)) type := by
  induction operands generalizing f index with
  | nil =>
    simp only [run, ok, true_and, Ty.Joins, List.map_nil, List.mem_singleton, forall_eq]
    constructor
    · rintro rfl
      exact .inl ⟨nonvoid, rfl⟩
    · rintro (⟨-, h⟩ | ⟨rfl, h, -⟩)
      · exact h
      · exact h.symm
  | cons o operands ih =>
    have ho := unfailed o (by simp)
    have hany := (clean o (by simp)).ne_any ho
    have hclean : ∀ x ∈ operands, x.Clean := fun x hx => clean x (by simp [hx])
    have hunfailed : ∀ x ∈ operands, x.failed = false := fun x hx => unfailed x (by simp [hx])
    have ht := takes_step false f index o
    rw [run]
    generalize f.step false index o = g at ht ⊢
    cases ht with
    | spoiled h => simp [ok, ho] at h
    | skipped _ h => exact absurd h (not_or.mpr ⟨present, hany⟩)
    | agreed _ _ h =>
      refine (ih ok native present nonvoid (index + 1) hclean hunfailed).trans ?_
      refine Ty.joins_congr (fun t => ?_) type
      simp [(Ty.agrees_iff native o.type).mp h]
    | coerced _ h =>
      refine (ih (f := { f with coerced := f.coerced ++ [index] }) ok native present nonvoid
        (index + 1) hclean hunfailed).trans ?_
      simp [h.1, h.2, Ty.joins_float_cons]
    | widened _ _ h =>
      -- The fold goes on as if the float had come first.
      have hvoid : o.type ≠ .void := by simp [h.1]
      refine (ih (f := { f with coerced := List.range index, expected := o.type }) ok
        (clean o (by simp)).native hany hvoid (index + 1) hclean hunfailed).trans ?_
      have hswap : Ty.Joins (f.expected :: (o :: operands).map (·.type)) type ↔
          Ty.Joins (.float :: .int :: operands.map (·.type)) type := by
        refine Ty.joins_congr (fun t => ?_) type
        simp only [h.1, h.2, List.map_cons, List.mem_cons]
        exact or_left_comm
      rw [hswap]
      simp [h.1, Ty.joins_float_cons]
    | rejected _ _ h expected actual =>
      have hfail : (run false (f.reject expected actual) (index + 1) operands).failed = true := by
        rw [run_of_failed rfl]
        rfl
      rw [hfail]
      simp only [Bool.true_eq_false, false_and, false_iff]
      rintro (⟨hv, hall⟩ | ⟨rfl, -, hnum⟩)
      · have he := hall f.expected (by simp)
        have ht := hall o.type (by simp)
        rcases h with h | ⟨h, -⟩
        · exact hv (ht ▸ h)
        · have := (Ty.agrees_iff native o.type).mpr (he.trans ht.symm)
          simp [h] at this
      · have he := hnum f.expected (by simp)
        have ht := hnum o.type (by simp)
        rcases h with h | ⟨h, hc, hw⟩
        · simp [h] at ht
        · have hne : f.expected ≠ o.type := by
            intro heq
            simp [(Ty.agrees_iff native o.type).mpr heq] at h
          rcases he with he | he <;> rcases ht with ht | ht
          · exact hne (he.trans ht.symm)
          · exact hw ⟨rfl, ht, he⟩
          · exact hc ⟨he, ht⟩
          · exact hne (he.trans ht.symm)

theorem run_fixed {f : Fold} (ok : f.failed = false) (expected : f.expected = .bool) (index : Nat)
    {operands : List Operand} (clean : ∀ o ∈ operands, o.Clean)
    (unfailed : ∀ o ∈ operands, o.failed = false) :
    (run true f index operands).failed = false ↔ ∀ o ∈ operands, o.type = .bool := by
  induction operands generalizing f index with
  | nil => simp [run, ok]
  | cons o operands ih =>
    have ho := unfailed o (by simp)
    have hany := (clean o (by simp)).ne_any ho
    have hclean : ∀ x ∈ operands, x.Clean := fun x hx => clean x (by simp [hx])
    have hunfailed : ∀ x ∈ operands, x.failed = false := fun x hx => unfailed x (by simp [hx])
    have hagrees : f.expected.agrees o.type = true ↔ o.type = .bool := by
      rw [expected, Ty.agrees_iff rfl]
      exact eq_comm
    have ht := takes_step true f index o
    rw [run]
    generalize f.step true index o = g at ht ⊢
    cases ht with
    | spoiled h => simp [ok, ho] at h
    | skipped _ h => simp [expected, hany] at h
    | agreed _ _ h =>
      rw [ih ok expected (index + 1) hclean hunfailed]
      simp [hagrees.mp h]
    | coerced _ h => simp [expected] at h
    | widened _ hfixed _ => cases hfixed
    | rejected _ _ h expected' actual =>
      have hfail : (run true (f.reject expected' actual) (index + 1) operands).failed = true := by
        rw [run_of_failed rfl]
        rfl
      rw [hfail]
      simp only [Bool.true_eq_false, List.mem_cons, forall_eq_or_imp, false_iff, not_and]
      intro hb
      rcases h with h | ⟨h, -⟩
      · simp [hb] at h
      · simp [hagrees.mpr hb] at h

end Fold

theorem checkOperands_joins {operands : List Operand} (hne : operands ≠ [])
    (clean : ∀ o ∈ operands, o.Clean) (unfailed : ∀ o ∈ operands, o.failed = false) (type : Ty) :
    (checkOperands none operands).failed = false ∧ (checkOperands none operands).expected = type ↔
      Ty.Joins (operands.map (·.type)) type := by
  obtain ⟨o, rest, rfl⟩ := List.exists_cons_of_ne_nil hne
  have ho := unfailed o (by simp)
  have hclean := clean o (by simp)
  have hany := hclean.ne_any ho
  by_cases hv : o.type = .void
  · have hfail : (checkOperands none (o :: rest)).failed = true := by
      have first : (Fold.step false { expected := o.type } 0 o).failed = true := by
        simp [Fold.step, ho, hv, Fold.reject]
      exact (congrArg Fold.failed (Fold.run_of_failed first false 1 rest)).trans first
    rw [hfail]
    simp only [Bool.true_eq_false, false_and, false_iff]
    rintro (⟨hn, hall⟩ | ⟨-, -, hnum⟩)
    · exact hn ((hall o.type (by simp)) ▸ hv)
    · have := hnum o.type (by simp)
      simp [hv] at this
  · have h := Fold.run_joins (f := { expected := o.type }) rfl hclean.native hany hv 0 clean
      unfailed type
    rw [show checkOperands none (o :: rest) = Fold.run false { expected := o.type } 0 (o :: rest)
      from rfl, h]
    exact Ty.joins_congr (by simp) type

theorem checkOperands_bool {operands : List Operand} (clean : ∀ o ∈ operands, o.Clean)
    (unfailed : ∀ o ∈ operands, o.failed = false) :
    (checkOperands (some .bool) operands).failed = false ↔ ∀ o ∈ operands, o.type = .bool :=
  Fold.run_fixed rfl rfl 0 clean unfailed

theorem expected_checkOperands {operands : List Operand} (hne : operands ≠ [])
    (clean : ∀ o ∈ operands, o.Clean) :
    (checkOperands none operands).expected.native = true ∧
      ((checkOperands none operands).expected = .any →
        (checkOperands none operands).failed = true) := by
  obtain ⟨o, rest, rfl⟩ := List.exists_cons_of_ne_nil hne
  have ho := clean o (by simp)
  have he : (checkOperands none (o :: rest)).expected = o.type ∨
      (checkOperands none (o :: rest)).expected = .float :=
    (Fold.expected_run false { expected := o.type } 0 (o :: rest)).imp_right And.right
  rcases he with he | he
  · rw [he]
    refine ⟨ho.native, fun ha => (accounts_checkOperands none (o :: rest)).mpr (.inl ?_)⟩
    exact ⟨o, by simp, ho.failed ha⟩
  · rw [he]
    exact ⟨rfl, fun ha => by cases ha⟩

theorem expected_checkOperands_bool (operands : List Operand) :
    (checkOperands (some .bool) operands).expected = .bool := by
  rcases Fold.expected_run true { expected := .bool } 0 operands with h | ⟨h, -⟩
  · exact h
  · cases h

def Verdict.Accounts (v : Verdict) (before : Prop) : Prop :=
  v.failed = true ↔ before ∨ v.problems ≠ []

theorem accounts_checkInitial {value : Operand} (clean : value.Clean) (declared : Ty) :
    (checkInitial declared value).Accounts (value.failed = true) := by
  unfold checkInitial Verdict.Accounts
  rw [clean.spoiled_eq]
  cases value.failed with
  | true => simp
  | false => cases declared.agrees value.type <;> simp

theorem checkInitial_passes {value : Operand} (clean : value.Clean)
    (unfailed : value.failed = false) {declared : Ty} (native : declared.native = true) :
    (checkInitial declared value).failed = false ↔ value.type = declared := by
  have ha := Ty.agrees_iff native value.type
  unfold checkInitial
  rw [clean.spoiled_eq, unfailed]
  cases h : declared.agrees value.type with
  | true => simp [(ha.mp h).symm]
  | false =>
    rw [h] at ha
    simpa [eq_comm] using ha

theorem accounts_checkAssignment (target value : Operand) :
    (checkAssignment target value).2.Accounts (target.failed = true ∨ value.failed = true) := by
  unfold checkAssignment Verdict.Accounts
  cases target.failed with
  | true => simp
  | false =>
    cases value.failed with
    | true => simp
    | false => cases target.type.isAssignable value.type <;> simp

theorem checkAssignment_passes {target value : Operand} (clean : target.Clean)
    (ht : target.failed = false) (hv : value.failed = false) :
    (checkAssignment target value).2.failed = false ↔ target.type.Accepts value.type := by
  have ha := Ty.isAssignable_iff clean.native value.type
  unfold checkAssignment Ty.Accepts
  rw [ht, hv]
  cases h : target.type.isAssignable value.type with
  | true =>
    rw [h] at ha
    simpa [eq_comm] using ha
  | false =>
    rw [h] at ha
    simpa [eq_comm] using ha

theorem accounts_checkTest {condition : Operand} (clean : condition.Clean) :
    (checkTest condition).Accounts (condition.failed = true) := by
  unfold checkTest Verdict.Accounts
  rw [clean.spoiled_eq]
  cases condition.failed with
  | true => simp
  | false => by_cases hb : condition.type = .bool <;> simp [hb]

theorem checkTest_passes {condition : Operand} (clean : condition.Clean)
    (unfailed : condition.failed = false) :
    (checkTest condition).failed = false ↔ condition.type = .bool := by
  unfold checkTest
  rw [clean.spoiled_eq, unfailed]
  by_cases hb : condition.type = .bool <;> simp [hb]

theorem accounts_checkIndex {index : Operand} (clean : index.Clean) :
    (checkIndex index).Accounts (index.failed = true) := by
  unfold checkIndex Verdict.Accounts
  rw [clean.spoiled_eq]
  cases index.failed with
  | true => simp
  | false => by_cases hi : index.type = .int <;> simp [hi]

theorem checkIndex_passes {index : Operand} (clean : index.Clean)
    (unfailed : index.failed = false) :
    (checkIndex index).failed = false ↔ index.type = .int := by
  unfold checkIndex
  rw [clean.spoiled_eq, unfailed]
  by_cases hi : index.type = .int <;> simp [hi]

theorem Operand.Clean.of_stored {type : Ty} (h : type.Stored) (failed : Bool) :
    (Operand.mk type failed).Clean := by
  cases h with
  | plain hw => exact .of_isWritten hw failed
  | @array element size hw =>
    have hn : element.native = true := Ty.native_of_isWritten hw
    exact ⟨hn, fun ha => by cases ha⟩

theorem checkVariable_spec {table : Table} (sound : table.Sound) (name : Name) :
    (checkVariable table name).2.Accounts False ∧
      (Operand.mk (checkVariable table name).1 (checkVariable table name).2.failed).Clean := by
  unfold checkVariable Verdict.Accounts
  cases h : table.lookup name with
  | none => exact ⟨by simp, ⟨rfl, fun _ => rfl⟩⟩
  | some type => exact ⟨by simp, .of_stored (sound.lookup h) false⟩

theorem checkArray_spec {table : Table} (sound : table.Sound) (name : Name) (failed : Bool) :
    (checkArray table name).2.Accounts False ∧
      (Operand.mk (checkArray table name).1
        ((checkArray table name).2.failed || failed)).Clean := by
  unfold checkArray Verdict.Accounts
  cases h : table.lookup name with
  | none => exact ⟨by simp, ⟨rfl, fun _ => rfl⟩⟩
  | some type =>
    have hstored := sound.lookup h
    cases hstored with
    | array size hw => exact ⟨by simp, .of_isWritten hw _⟩
    | plain hw =>
      cases type with
      | array element size => simp [Ty.isWritten] at hw
      | _ => exact ⟨by simp, ⟨rfl, fun _ => rfl⟩⟩

theorem accounts_checkArguments (all : Bool) (name : Name) (index : Nat) {params : List Ty}
    {args : List Operand} (clean : ∀ a ∈ args, a.Clean) (hl : params.length = args.length) :
    (checkArguments all name index params args).failed = true ↔
      (∃ a ∈ args, a.failed = true) ∨
        (checkArguments all name index params args).problems ≠ [] := by
  induction params generalizing index args with
  | nil =>
    rw [List.length_eq_zero_iff.mp hl.symm]
    simp [checkArguments]
  | cons param params ih =>
    obtain ⟨arg, args, rfl⟩ := List.exists_cons_of_length_eq_add_one hl.symm
    have hclean : ∀ a ∈ args, a.Clean := fun a ha => clean a (by simp [ha])
    have hrest := ih (index + 1) hclean (by simpa using hl)
    rw [checkArguments, (clean arg (by simp)).spoiled_eq]
    cases harg : arg.failed with
    | true => simp [harg]
    | false =>
      simp only [Bool.false_eq_true, if_false, List.mem_cons, exists_eq_or_imp, harg, false_or]
      cases param.agrees arg.type with
      | true => simpa using hrest
      | false =>
        cases param.canCoerce arg.type with
        | true => simpa using hrest
        | false => cases all <;> simp

theorem checkArguments_passes (all : Bool) (name : Name) (index : Nat) {params : List Ty}
    {args : List Operand} (native : ∀ p ∈ params, p.native = true) (clean : ∀ a ∈ args, a.Clean)
    (unfailed : ∀ a ∈ args, a.failed = false) (hl : params.length = args.length) :
    (checkArguments all name index params args).failed = false ↔
      List.Forall₂ Ty.Accepts params (args.map (·.type)) := by
  induction params generalizing index args with
  | nil =>
    rw [List.length_eq_zero_iff.mp hl.symm]
    simp [checkArguments]
  | cons param params ih =>
    obtain ⟨arg, args, rfl⟩ := List.exists_cons_of_length_eq_add_one hl.symm
    have hclean : ∀ a ∈ args, a.Clean := fun a ha => clean a (by simp [ha])
    have hunfailed : ∀ a ∈ args, a.failed = false := fun a ha => unfailed a (by simp [ha])
    have hrest := ih (index + 1) (fun p hp => native p (by simp [hp])) hclean hunfailed
      (by simpa using hl)
    have hagrees := Ty.agrees_iff (native param (by simp)) arg.type
    rw [checkArguments, (clean arg (by simp)).spoiled_eq, unfailed arg (by simp)]
    simp only [Bool.false_eq_true, if_false, List.map_cons, List.forall₂_cons]
    cases ha : param.agrees arg.type with
    | true =>
      have haccepts : param.Accepts arg.type := .inl (hagrees.mp ha).symm
      simpa [haccepts] using hrest
    | false =>
      have hne : arg.type ≠ param := by
        intro he
        rw [hagrees.mpr he.symm] at ha
        cases ha
      cases hc : param.canCoerce arg.type with
      | true =>
        have haccepts : param.Accepts arg.type := .inr ((Ty.canCoerce_iff _ _).mp hc)
        simpa [haccepts] using hrest
      | false =>
        have hnot : ¬param.Accepts arg.type := by
          rintro (he | he)
          · exact hne he
          · rw [(Ty.canCoerce_iff _ _).mpr he] at hc
            cases hc
        cases all <;> simp [hnot]

theorem checkCall_spec (all : Bool) {table : Table} (sound : table.Sound) (name : Name)
    {args : List Operand} (clean : ∀ a ∈ args, a.Clean) :
    ((checkCall all table name args).2.failed = true ↔
        (∃ a ∈ args, a.failed = true) ∨ (checkCall all table name args).2.problems ≠ []) ∧
      (Operand.mk (checkCall all table name args).1
        (checkCall all table name args).2.failed).Clean := by
  unfold checkCall
  cases h : table.functionNamed name with
  | none => exact ⟨by simp, ⟨rfl, fun _ => rfl⟩⟩
  | some symbol =>
    simp only
    split
    · exact ⟨by simp, ⟨rfl, fun _ => rfl⟩⟩
    · rename_i hl
      obtain ⟨-, ⟨params, returns, hshape, hreturns, -⟩, -⟩ := sound.functionNamed h
      refine ⟨accounts_checkArguments all name 0 clean (by simpa using hl), ?_⟩
      have hr : symbol.returns?.getD .void = returns := by simp [Symbol.returns?, hshape]
      rw [hr]
      exact .of_isWritten hreturns _

theorem kind_ne {problems : List Problem} {kind other : ErrorKind}
    (h : ∀ p ∈ problems, p.kind = kind) (hne : kind ≠ other) : ∀ p ∈ problems, p.kind ≠ other :=
  fun p hp => h p hp ▸ hne

theorem kind_fold (fold : Fold) (op : Op) :
    ∀ p ∈ fold.problems op, p.kind = .incompatibleOperands := by
  unfold Fold.problems
  split <;> simp [Problem.kind]

theorem kind_checkVariable (table : Table) (name : Name) :
    ∀ p ∈ (checkVariable table name).2.problems, p.kind = .undeclaredVariable := by
  unfold checkVariable
  split <;> simp [Problem.kind]

theorem kind_checkAssignment (target value : Operand) :
    ∀ p ∈ (checkAssignment target value).2.problems, p.kind = .incompatibleAssignment := by
  unfold checkAssignment
  split
  · simp
  · split <;> simp [Problem.kind]

theorem kind_checkInitial (type : Ty) (value : Operand) :
    ∀ p ∈ (checkInitial type value).problems, p.kind = .incompatibleAssignment := by
  unfold checkInitial
  split
  · simp
  · split <;> simp [Problem.kind]

theorem kind_checkTest (condition : Operand) :
    ∀ p ∈ (checkTest condition).problems, p.kind = .incompatibleTest := by
  unfold checkTest
  split
  · simp
  · split <;> simp [Problem.kind]

theorem kind_checkAccess (table : Table) (name : Name) (index : Operand) :
    ∀ p ∈ (checkArray table name).2.problems ++ (checkIndex index).problems,
      p.kind ∈ [.undeclaredVariable, .nonArrayIndex, .incompatibleIndex] := by
  simp only [List.mem_append]
  rintro p (hp | hp)
  · unfold checkArray at hp
    split at hp <;> simp_all [Problem.kind]
  · unfold checkIndex at hp
    split at hp
    · cases hp
    · split at hp <;> simp_all [Problem.kind]

theorem kind_checkArguments (all : Bool) (name : Name) (index : Nat) (params : List Ty)
    (args : List Operand) :
    ∀ p ∈ (checkArguments all name index params args).problems, p.kind = .incompatibleParam := by
  induction params generalizing index args with
  | nil => simp [checkArguments]
  | cons param params ih =>
    cases args with
    | nil => simp [checkArguments]
    | cons arg args =>
      have rest := ih (index + 1) args
      rw [checkArguments]
      split
      · exact rest
      · split
        · exact rest
        · split
          · exact rest
          · cases all with
            | true => simpa [Problem.kind] using rest
            | false => simp [Problem.kind]

theorem kind_checkCall (all : Bool) (table : Table) (name : Name) (args : List Operand) :
    ∀ p ∈ (checkCall all table name args).2.problems,
      p.kind ∈ [.undeclaredVariable, .wrongParamCount, .incompatibleParam] := by
  unfold checkCall
  split
  · simp [Problem.kind]
  · rename_i symbol _
    simp only
    split
    · simp [Problem.kind]
    · intro p hp
      simp [kind_checkArguments all name 0 symbol.paramTypes args p hp]

end Treewright
