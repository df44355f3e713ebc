import Mathlib.Data.List.FinRange
import Mathlib.Order.Bounds.Basic
import Treewright.Proofs.Coercions
import Treewright.Proofs.Expressions
set_option autoImplicit false

namespace Treewright

open Build

namespace Ty

def Acceptable (types : List Ty) : Prop :=
  (∃ type, type ≠ .void ∧ ∀ t ∈ types, t = type) ∨ ∀ t ∈ types, t = .int ∨ t = .float

/-- The type that acceptable types have in common; no types have none. -/
def join (types : List Ty) : Ty :=
  if .float ∈ types ∧ ∀ t ∈ types, t = .int ∨ t = .float then .float else types.headD .any

theorem join_eq_of_joins {types : List Ty} {type : Ty} (hne : types ≠ []) (h : Joins types type) :
    join types = type := by
  obtain ⟨first, rest, rfl⟩ := List.exists_cons_of_ne_nil hne
  rcases h with ⟨-, same⟩ | ⟨rfl, float, numbers⟩
  · by_cases h : .float ∈ first :: rest ∧ ∀ t ∈ first :: rest, t = .int ∨ t = .float
    · rw [join, if_pos h]
      exact same .float h.1
    · rw [join, if_neg h]
      exact same first (by simp)
  · rw [join, if_pos ⟨float, numbers⟩]

theorem acceptable_of_joins {types : List Ty} {type : Ty} (h : Joins types type) :
    Acceptable types := by
  rcases h with ⟨valued, same⟩ | ⟨-, -, numbers⟩
  · exact .inl ⟨type, valued, same⟩
  · exact .inr numbers

theorem exists_joins_of_acceptable {types : List Ty} (h : Acceptable types) :
    ∃ type, Joins types type := by
  rcases h with ⟨type, valued, same⟩ | numbers
  · exact ⟨type, .inl ⟨valued, same⟩⟩
  · by_cases float : .float ∈ types
    · exact ⟨.float, .inr ⟨rfl, float, numbers⟩⟩
    · -- Without a float among them the numbers are integers.
      have same : ∀ t ∈ types, t = .int := fun t ht =>
        (numbers t ht).resolve_right fun hf => float (hf ▸ ht)
      exact ⟨.int, .inl ⟨by simp, same⟩⟩

theorem joins_join {types : List Ty} (hne : types ≠ []) (h : Acceptable types) :
    Joins types (join types) := by
  obtain ⟨type, joins⟩ := exists_joins_of_acceptable h
  rwa [join_eq_of_joins hne joins]

theorem acceptable_concat {types : List Ty} {type t : Ty} (joins : Joins types type)
    (pair : Acceptable [type, t]) : Acceptable (types ++ [t]) := by
  simp only [Acceptable, List.mem_append, List.mem_cons, List.not_mem_nil, or_false] at pair ⊢
  rcases joins with ⟨-, same⟩ | ⟨rfl, -, numbers⟩
  · rcases pair with ⟨own, valued, both⟩ | both
    · refine .inl ⟨own, valued, fun s hs => ?_⟩
      rcases hs with hs | rfl
      · rw [same s hs]
        exact both type (.inl rfl)
      · exact both s (.inr rfl)
    · refine .inr fun s hs => ?_
      rcases hs with hs | rfl
      · rw [same s hs]
        exact both type (.inl rfl)
      · exact both s (.inr rfl)
  · refine .inr fun s hs => ?_
    rcases hs with hs | rfl
    · exact numbers s hs
    · rcases pair with ⟨own, -, both⟩ | both
      · exact .inr ((both s (.inr rfl)).trans (both .float (.inl rfl)).symm)
      · exact both s (.inr rfl)

end Ty

namespace Fold

theorem run_append (fixed : Bool) (f : Fold) (index : Nat) (before after : List Operand) :
    run fixed f index (before ++ after) =
      run fixed (run fixed f index before) (index + before.length) after := by
  induction before generalizing f index with
  | nil => simp [run]
  | cons o before ih =>
    rw [List.cons_append, run, ih, run, List.length_cons, Nat.add_assoc, Nat.add_comm 1]

theorem step_of_failed {f : Fold} {o : Operand} (h : o.failed = true) (fixed : Bool) (index : Nat) :
    f.step fixed index o = { f with failed := true } := by
  simp [step, h]

theorem step_rejects {f : Fold} {o : Operand} (ok : f.failed = false) (unfailed : o.failed = false)
    (native : f.expected.native = true) (present : f.expected ≠ .any) (typed : o.type ≠ .any)
    (valued : f.expected ≠ .void) (apart : ¬Ty.Acceptable [f.expected, o.type]) (index : Nat) :
    f.step false index o = f.reject f.expected o.type := by
  have unlike : f.expected ≠ o.type := fun h => apart (.inl ⟨f.expected, valued, by simp [h]⟩)
  have disagrees : f.expected.agrees o.type = false := by
    rw [Bool.eq_false_iff, ne_eq, Ty.agrees_iff native]
    exact unlike
  have narrow : f.expected.canCoerce o.type = false := by
    rw [Bool.eq_false_iff, ne_eq, Ty.canCoerce_iff]
    rintro ⟨float, int⟩
    exact apart (.inr (by simp [float, int]))
  have wide : o.type.canCoerce f.expected = false := by
    rw [Bool.eq_false_iff, ne_eq, Ty.canCoerce_iff]
    rintro ⟨float, int⟩
    exact apart (.inr (by simp [float, int]))
  by_cases void : o.type = .void
  · simp [step, ok, unfailed, Ty.isError, present, void, valued]
  · simp [step, ok, unfailed, Ty.isError, present, typed, void, disagrees, narrow, wide]

end Fold

section Operands

variable {before after operands : List Operand} {o : Operand}

def foldBefore (before : List Operand) (o : Operand) : Fold :=
  Fold.run false { expected := startType none (before ++ [o]) } 0 before

theorem checkOperands_split :
    checkOperands none (before ++ o :: after) =
      Fold.run false ((foldBefore before o).step false before.length o) (before.length + 1)
        after := by
  have start : startType none (before ++ o :: after) = startType none (before ++ [o]) := by
    cases before <;> rfl
  change Fold.run false { expected := startType none (before ++ o :: after) } 0 _ = _
  rw [Fold.run_append, start, foldBefore, Fold.run, Nat.zero_add]

theorem foldBefore_eq (hne : before ≠ []) : foldBefore before o = checkOperands none before := by
  obtain ⟨first, rest, rfl⟩ := List.exists_cons_of_ne_nil hne
  rfl

theorem checkOperands_of_joins (hne : operands ≠ []) (clean : ∀ o ∈ operands, o.Clean)
    (unfailed : ∀ o ∈ operands, o.failed = false)
    (together : Ty.Acceptable (operands.map (·.type))) :
    (checkOperands none operands).failed = false ∧
      (checkOperands none operands).expected = Ty.join (operands.map (·.type)) :=
  (checkOperands_joins hne clean unfailed _).mpr (Ty.joins_join (by simpa using hne) together)

/-- Acceptable operands are checked without a mismatch, and the integers among them are marked if
the common type is the float. -/
theorem checkOperands_accepts (hne : operands ≠ []) (clean : ∀ o ∈ operands, o.Clean)
    (unfailed : ∀ o ∈ operands, o.failed = false)
    (together : Ty.Acceptable (operands.map (·.type))) :
    (checkOperands none operands).mismatch = none ∧
      ∀ i, i ∈ (checkOperands none operands).coerced ↔
        Ty.join (operands.map (·.type)) = .float ∧ (operands.map (·.type))[i]? = some .int := by
  obtain ⟨passed, expected⟩ := checkOperands_of_joins hne clean unfailed together
  have ungiven : ∀ t ∈ (none : Option Ty), t = .bool := by simp
  have marks := marks_checkOperands ungiven clean
  constructor
  · have accounts := accounts_checkOperands none operands
    rw [Fold.Accounts, passed] at accounts
    cases h : (checkOperands none operands).mismatch with
    | none => rfl
    | some types => exact absurd (accounts.mpr (.inr (by simp [h]))) Bool.false_ne_true
  · intro i
    rw [← expected, List.getElem?_map]
    constructor
    · intro hi
      obtain ⟨o, ho, -, int⟩ := marks.sound i hi
      exact ⟨(marks.marked_iff passed ho int).mp hi, by simp [ho, int]⟩
    · rintro ⟨float, hi⟩
      obtain ⟨o, ho, int⟩ := Option.map_eq_some_iff.mp hi
      exact (marks.marked_iff passed ho int).mpr float

theorem foldBefore_of_acceptable (clean : ∀ x ∈ before ++ [o], x.Clean)
    (unfailed : ∀ x ∈ before, x.failed = false)
    (together : Ty.Acceptable (before.map (·.type))) :
    (foldBefore before o).failed = false ∧ (foldBefore before o).mismatch = none := by
  by_cases hne : before = []
  · subst hne
    exact ⟨rfl, rfl⟩
  · have clean' : ∀ x ∈ before, x.Clean := fun x hx => clean x (by simp [hx])
    rw [foldBefore_eq hne]
    exact ⟨(checkOperands_of_joins hne clean' unfailed together).1,
      (checkOperands_accepts hne clean' unfailed together).1⟩

theorem checkOperands_spoiled (clean : ∀ x ∈ before ++ [o], x.Clean)
    (unfailed : ∀ x ∈ before, x.failed = false)
    (together : Ty.Acceptable (before.map (·.type))) (failed : o.failed = true) :
    (checkOperands none (before ++ o :: after)).failed = true ∧
      (checkOperands none (before ++ o :: after)).mismatch = none := by
  obtain ⟨-, fits⟩ := foldBefore_of_acceptable clean unfailed together
  rw [checkOperands_split, Fold.step_of_failed failed, Fold.run_of_failed rfl]
  exact ⟨rfl, fits⟩

theorem step_foldBefore_rejects (clean : ∀ x ∈ before ++ [o], x.Clean)
    (unfailed : ∀ x ∈ before ++ [o], x.failed = false)
    (together : Ty.Acceptable (before.map (·.type)))
    (apart : ¬Ty.Acceptable ((before ++ [o]).map (·.type))) :
    (foldBefore before o).step false before.length o =
      (foldBefore before o).reject (Ty.join (before.map (·.type))) o.type := by
  have ho := unfailed o (by simp)
  have typed := (clean o (by simp)).ne_any ho
  by_cases hne : before = []
  · -- A single type is not acceptable only if it is void.
    subst hne
    have void : o.type = .void := by
      by_contra hv
      exact apart (.inl ⟨o.type, hv, by simp⟩)
    simp [foldBefore, Fold.run, Fold.step, startType, ho, void, Ty.isError, Ty.join]
  · have clean' : ∀ x ∈ before, x.Clean := fun x hx => clean x (by simp [hx])
    have unfailed' : ∀ x ∈ before, x.failed = false := fun x hx => unfailed x (by simp [hx])
    obtain ⟨passed, expected⟩ := checkOperands_of_joins hne clean' unfailed' together
    obtain ⟨native, present⟩ := expected_checkOperands hne clean'
    have joins := Ty.joins_join (by simpa using hne) together
    have valued : Ty.join (before.map (·.type)) ≠ .void := by
      rcases joins with ⟨valued, -⟩ | ⟨float, -⟩
      · exact valued
      · simp [float]
    rw [foldBefore_eq hne, ← expected]
    refine Fold.step_rejects passed ho native ?_ typed (expected ▸ valued) ?_ _
    · intro missing
      rw [present missing] at passed
      cases passed
    · -- What the operands so far have in common would take the next one in.
      rw [expected]
      intro pair
      rw [List.map_append] at apart
      exact apart (Ty.acceptable_concat joins pair)

theorem checkOperands_rejects (clean : ∀ x ∈ before ++ [o], x.Clean)
    (unfailed : ∀ x ∈ before ++ [o], x.failed = false)
    (together : Ty.Acceptable (before.map (·.type)))
    (apart : ¬Ty.Acceptable ((before ++ [o]).map (·.type))) :
    (checkOperands none (before ++ o :: after)).failed = true ∧
      (checkOperands none (before ++ o :: after)).mismatch =
        some (Ty.join (before.map (·.type)), o.type) := by
  rw [checkOperands_split, step_foldBefore_rejects clean unfailed together apart,
    Fold.run_of_failed rfl]
  exact ⟨rfl, rfl⟩

end Operands

/-- The positions of the children that a node widens. -/
def Node.widened : Node → List Nat
  | .mk _ (.operation _ _ _ _ _ coerced _) => coerced
  | .mk _ (.call _ _ _ coerced _) => coerced
  | _ => []

section Operations

variable {nodes : List Node}

theorem exec_operation (style : Style) (op : Op) (hne : nodes ≠ []) (c : Context) :
    exec (operation style op nodes) c =
      (.ok (operationNode style op nodes c).1, (operationNode style op nodes c).2) := by
  have filled : nodes.isEmpty = false := by simpa using hne
  rw [operation, filled]
  rfl

theorem operationNode_plain (op : Op) (nodes : List Node) (c : Context) :
    let fold := checkOperands none (nodes.map Node.operand)
    let made := operationNode .plain op nodes c
    made.1.error = fold.failed ∧ made.1.type = (if fold.failed then .any else fold.expected) ∧
      made.1.widened = fold.coerced ∧ made.2 = c.report (fold.problems op) := by
  rw [operationNode_eq (by simp)]
  exact ⟨rfl, rfl, rfl, rfl⟩

variable {before : List Node} {n : Node}

theorem operands_unfailed (h : ∀ n ∈ nodes, n.error = false) :
    ∀ o ∈ nodes.map Node.operand, o.failed = false := by
  simpa [Node.operand] using h

theorem operationNode_accepts (op : Op) (hne : nodes ≠ []) (clean : ∀ n ∈ nodes, n.operand.Clean)
    (unfailed : ∀ n ∈ nodes, n.error = false) (together : Ty.Acceptable (nodes.map Node.type))
    (c : Context) :
    let made := operationNode .plain op nodes c
    made.1.error = false ∧ made.1.type = Ty.join (nodes.map Node.type) ∧
      (∀ i, i ∈ made.1.widened ↔
        Ty.join (nodes.map Node.type) = .float ∧ (nodes.map Node.type)[i]? = some .int) ∧
      made.2 = c := by
  have hne' : nodes.map Node.operand ≠ [] := by simpa using hne
  have unfailed' := operands_unfailed unfailed
  rw [← map_type_operand] at together ⊢
  obtain ⟨passed, expected⟩ := checkOperands_of_joins hne' (operands_clean clean) unfailed' together
  obtain ⟨fits, marked⟩ := checkOperands_accepts hne' (operands_clean clean) unfailed' together
  obtain ⟨error, type, widened, after⟩ := operationNode_plain op nodes c
  refine ⟨error.trans passed, ?_, fun i => ?_, ?_⟩
  · rw [type, passed, expected]
    rfl
  · rw [widened, marked]
  · rw [after, Fold.problems, fits]
    rfl

theorem operationNode_rejects (op : Op) (after : List Node)
    (clean : ∀ x ∈ before ++ [n], x.operand.Clean)
    (unfailed : ∀ x ∈ before ++ [n], x.error = false)
    (together : Ty.Acceptable (before.map Node.type))
    (apart : ¬Ty.Acceptable ((before ++ [n]).map Node.type)) (c : Context) :
    let made := operationNode .plain op (before ++ n :: after) c
    made.1.error = true ∧
      made.2 = c.report [.operands op (Ty.join (before.map Node.type)) n.type] := by
  have hmap : (before ++ [n]).map Node.operand = before.map Node.operand ++ [n.operand] := by simp
  have unfailed' := operands_unfailed unfailed
  have clean' := operands_clean clean
  rw [← map_type_operand] at together apart ⊢
  rw [hmap] at clean' unfailed' apart
  obtain ⟨failed, mismatch⟩ := checkOperands_rejects clean' unfailed' together apart
  obtain ⟨error, -, -, report⟩ := operationNode_plain op (before ++ n :: after) c
  rw [List.map_append, List.map_cons] at error report
  refine ⟨error.trans failed, report.trans ?_⟩
  rw [Fold.problems, mismatch]
  rfl

theorem operationNode_spoiled (op : Op) (after : List Node)
    (clean : ∀ x ∈ before ++ [n], x.operand.Clean)
    (unfailed : ∀ x ∈ before, x.error = false)
    (together : Ty.Acceptable (before.map Node.type)) (failed : n.error = true) (c : Context) :
    let made := operationNode .plain op (before ++ n :: after) c
    made.1.error = true ∧ made.2 = c := by
  have hmap : (before ++ [n]).map Node.operand = before.map Node.operand ++ [n.operand] := by simp
  have unfailed' := operands_unfailed unfailed
  have clean' := operands_clean clean
  rw [← map_type_operand] at together
  rw [hmap] at clean'
  obtain ⟨fails, fits⟩ := checkOperands_spoiled clean' unfailed' together failed
  obtain ⟨error, -, -, report⟩ := operationNode_plain op (before ++ n :: after) c
  rw [List.map_append, List.map_cons] at error report
  refine ⟨error.trans fails, report.trans ?_⟩
  rw [Fold.problems, fits]
  rfl

theorem operationNode_joins (op : Op) (hne : nodes ≠ []) (clean : ∀ n ∈ nodes, n.operand.Clean)
    (unfailed : ∀ n ∈ nodes, n.error = false) (c : Context) (type : Ty) :
    (operationNode .plain op nodes c).1.error = false ∧
        (operationNode .plain op nodes c).1.type = type ↔
      Ty.Joins (nodes.map Node.type) type :=
  passes_operation clean unfailed (by simp) op hne type

theorem type_of_error (op : Op) (c : Context)
    (h : (operationNode .plain op nodes c).1.error = true) :
    (operationNode .plain op nodes c).1.type = .any := by
  obtain ⟨error, type, -, -⟩ := operationNode_plain op nodes c
  rw [type, ← error, h]
  rfl

theorem ofFn_get_perm (σ : Equiv.Perm (Fin nodes.length)) :
    (List.ofFn (nodes.get ∘ σ)).Perm nodes := by
  simpa only [List.ofFn_get] using σ.ofFn_comp_perm nodes.get

theorem ne_nil_of_perm {others : List Node} (perm : others.Perm nodes) (hne : nodes ≠ []) :
    others ≠ [] := by
  rintro rfl
  exact hne (List.nil_perm.mp perm)

theorem operationNode_perm (op : Op) {others : List Node} (perm : others.Perm nodes)
    (hne : nodes ≠ []) (clean : ∀ n ∈ nodes, n.operand.Clean)
    (unfailed : ∀ n ∈ nodes, n.error = false) (c : Context) :
    (operationNode .plain op others c).1.error = (operationNode .plain op nodes c).1.error ∧
      (operationNode .plain op others c).1.type = (operationNode .plain op nodes c).1.type := by
  have hne' := ne_nil_of_perm perm hne
  have clean' : ∀ n ∈ others, n.operand.Clean := fun n hn => clean n (perm.mem_iff.mp hn)
  have unfailed' : ∀ n ∈ others, n.error = false := fun n hn => unfailed n (perm.mem_iff.mp hn)
  have same (type : Ty) : _ ↔ _ := calc
    _ ↔ Ty.Joins (others.map Node.type) type := operationNode_joins op hne' clean' unfailed' c type
    _ ↔ Ty.Joins (nodes.map Node.type) type :=
      Ty.joins_congr (fun _ => (perm.map Node.type).mem_iff) type
    _ ↔ _ := (operationNode_joins op hne clean unfailed c type).symm
  cases h : (operationNode .plain op nodes c).1.error with
  | false => exact (same _).mpr ⟨h, rfl⟩
  | true =>
    have failed : (operationNode .plain op others c).1.error = true := by
      rw [← Bool.not_eq_false]
      intro passed
      rw [((same _).mp ⟨passed, rfl⟩).1] at h
      cases h
    exact ⟨failed, (type_of_error op c failed).trans (type_of_error op c h).symm⟩

theorem mem_widened_iff (op : Op) (hne : nodes ≠ []) (clean : ∀ n ∈ nodes, n.operand.Clean)
    (unfailed : ∀ n ∈ nodes, n.error = false) (c : Context)
    (passed : (operationNode .plain op nodes c).1.error = false) (i : Nat) :
    i ∈ (operationNode .plain op nodes c).1.widened ↔
      (operationNode .plain op nodes c).1.type = .float ∧
        (nodes.map Node.type)[i]? = some .int := by
  have joins := (operationNode_joins op hne clean unfailed c _).mp ⟨passed, rfl⟩
  obtain ⟨-, type, widened, -⟩ :=
    operationNode_accepts op hne clean unfailed (Ty.acceptable_of_joins joins) c
  rw [widened, type]

theorem widened_permuted (op : Op) (hne : nodes ≠ []) (clean : ∀ n ∈ nodes, n.operand.Clean)
    (unfailed : ∀ n ∈ nodes, n.error = false) (σ : Equiv.Perm (Fin nodes.length)) (c : Context)
    (passed : (operationNode .plain op nodes c).1.error = false) (i : Fin nodes.length) :
    i.val ∈ (operationNode .plain op (List.ofFn (nodes.get ∘ σ)) c).1.widened ↔
      (σ i).val ∈ (operationNode .plain op nodes c).1.widened := by
  have perm := ofFn_get_perm σ
  have place : ((List.ofFn (nodes.get ∘ σ)).map Node.type)[i.val]? =
      (nodes.map Node.type)[(σ i).val]? := by
    simp
  obtain ⟨error, type⟩ := operationNode_perm op perm hne clean unfailed c
  rw [mem_widened_iff op hne clean unfailed c passed, ← type, ← place]
  exact mem_widened_iff op (ne_nil_of_perm perm hne) (fun n hn => clean n (perm.mem_iff.mp hn))
    (fun n hn => unfailed n (perm.mem_iff.mp hn)) c (error.trans passed) i

end Operations

/-- The places up to which the types do not go together. -/
def Ty.partings (types : List Ty) : Set Nat :=
  { m | m < types.length ∧ ¬Acceptable (types.take (m + 1)) }

theorem Ty.acceptable_take {types : List Ty} {i : Nat} (hi : i ≤ types.length)
    (h : ∀ m ∈ partings types, i ≤ m) : Acceptable (types.take i) := by
  cases i with
  | zero => exact .inr (by simp)
  | succ k =>
    by_contra parts
    exact absurd (h k ⟨hi, parts⟩) k.not_succ_le_self

theorem Ty.acceptable_of_partings {types : List Ty} (h : partings types = ∅) :
    Acceptable types := by
  have together := acceptable_take types.length.le_refl (by simp [h])
  rwa [List.take_length] at together

def failures (nodes : List Node) : Set Nat := { j | ∃ n, nodes[j]? = some n ∧ n.error = true }

theorem unfailed_take {nodes : List Node} {i : Nat} (h : ∀ j ∈ failures nodes, i ≤ j) :
    ∀ n ∈ nodes.take i, n.error = false := by
  intro n hn
  obtain ⟨k, hk⟩ := List.mem_iff_getElem?.mp hn
  rw [List.getElem?_take] at hk
  split at hk
  · rename_i before
    rw [← Bool.not_eq_true]
    intro failed
    exact absurd (h k ⟨n, hk, failed⟩) (Nat.not_le.mpr before)
  · cases hk

theorem unfailed_of_failures {nodes : List Node} (h : failures nodes = ∅) :
    ∀ n ∈ nodes, n.error = false := by
  have unfailed : ∀ n ∈ nodes.take nodes.length, n.error = false := unfailed_take (by simp [h])
  rwa [List.take_length] at unfailed

theorem split_at_getElem? {nodes : List Node} {i : Nat} {n : Node} (h : nodes[i]? = some n) :
    nodes = nodes.take i ++ n :: nodes.drop (i + 1) ∧ nodes.take (i + 1) = nodes.take i ++ [n] := by
  obtain ⟨hi, rfl⟩ := List.getElem?_eq_some_iff.mp h
  rw [List.getElem_cons_drop, List.take_append_drop, List.take_add_one, h]
  exact ⟨rfl, rfl⟩

section

variable {nodes : List Node} (op : Op) (clean : ∀ n ∈ nodes, n.operand.Clean)
include clean

theorem operationNode_of_parting {m : Nat}
    (least : IsLeast (Ty.partings (nodes.map Node.type)) m) {type : Ty}
    (found : (nodes.map Node.type)[m]? = some type) (later : ∀ j ∈ failures nodes, m < j)
    (c : Context) :
    (operationNode .plain op nodes c).1.error = true ∧
      (operationNode .plain op nodes c).2 =
        c.report [.operands op (Ty.join ((nodes.map Node.type).take m)) type] := by
  obtain ⟨⟨hm, parts⟩, first⟩ := least
  rw [List.getElem?_map] at found
  obtain ⟨n, hn, rfl⟩ := Option.map_eq_some_iff.mp found
  obtain ⟨split, upto⟩ := split_at_getElem? hn
  have together := Ty.acceptable_take hm.le fun k hk => first hk
  have unfailed : ∀ n ∈ nodes.take (m + 1), n.error = false := unfailed_take later
  have clean' : ∀ n ∈ nodes.take (m + 1), n.operand.Clean := fun n hn =>
    clean n (List.mem_of_mem_take hn)
  rw [← List.map_take] at together parts ⊢
  rw [upto] at parts unfailed clean'
  have rejects := operationNode_rejects op (nodes.drop (m + 1)) clean' unfailed together parts c
  rwa [← split] at rejects

theorem operationNode_of_failure {j : Nat} (least : IsLeast (failures nodes) j)
    (later : ∀ m ∈ Ty.partings (nodes.map Node.type), j ≤ m) (c : Context) :
    (operationNode .plain op nodes c).1.error = true ∧
      (operationNode .plain op nodes c).2 = c := by
  obtain ⟨⟨n, hn, failed⟩, first⟩ := least
  obtain ⟨split, upto⟩ := split_at_getElem? hn
  have hj : j ≤ (nodes.map Node.type).length := by
    rw [List.length_map]
    exact (List.getElem?_eq_some_iff.mp hn).1.le
  have together := Ty.acceptable_take hj later
  have unfailed : ∀ n ∈ nodes.take j, n.error = false := unfailed_take fun k hk => first hk
  have clean' : ∀ n ∈ nodes.take (j + 1), n.operand.Clean := fun n hn =>
    clean n (List.mem_of_mem_take hn)
  rw [← List.map_take] at together
  rw [upto] at clean'
  have spoiled := operationNode_spoiled op (nodes.drop (j + 1)) clean' unfailed together failed c
  rwa [← split] at spoiled

end

/-- An operation has the common type of its operands. Where there is none, it reports the first type
that does not go with those before it, unless a failed operand comes no later. The order of sound
operands is of no account. -/
theorem operation_type_is_join (op : Op) {nodes : List Node} (hne : nodes ≠ [])
    (clean : ∀ n ∈ nodes, n.operand.Clean) (c : Context) :
    let types := nodes.map Node.type
    ∃ node d, exec (operation .plain op nodes) c = (.ok node, d) ∧
      (Ty.partings types = ∅ → failures nodes = ∅ →
        node.error = false ∧ node.type = Ty.join types ∧
          (∀ i, i ∈ node.widened ↔ Ty.join types = .float ∧ types[i]? = some .int) ∧ d = c) ∧
      (∀ m type, IsLeast (Ty.partings types) m → types[m]? = some type →
        (∀ j ∈ failures nodes, m < j) →
        node.error = true ∧ d = c.report [.operands op (Ty.join (types.take m)) type]) ∧
      (∀ j, IsLeast (failures nodes) j → (∀ m ∈ Ty.partings types, j ≤ m) →
        node.error = true ∧ d = c) ∧
      (failures nodes = ∅ → ∀ σ : Equiv.Perm (Fin nodes.length), ∃ node' d',
        exec (operation .plain op (List.ofFn (nodes.get ∘ σ))) c = (.ok node', d') ∧
          node'.error = node.error ∧ node'.type = node.type ∧
          (node.error = false → ∀ i : Fin nodes.length,
            i.val ∈ node'.widened ↔ (σ i).val ∈ node.widened)) := by
  intro types
  refine ⟨_, _, exec_operation .plain op hne c, fun joined sound => ?_,
    fun m type least found later => operationNode_of_parting op clean least found later c,
    fun j least later => operationNode_of_failure op clean least later c, fun sound σ => ?_⟩
  · exact operationNode_accepts op hne clean (unfailed_of_failures sound)
      (Ty.acceptable_of_partings joined) c
  · have perm := ofFn_get_perm σ
    have unfailed := unfailed_of_failures sound
    obtain ⟨error, type⟩ := operationNode_perm op perm hne clean unfailed c
    exact ⟨_, _, exec_operation .plain op (ne_nil_of_perm perm hne) c, error, type,
      widened_permuted op hne clean unfailed σ c⟩

theorem operation_type_is_join_mixed :
    let nodes := [Ty.int, .float, .bool, .void].map fun type => Node.mk {} (.constant type "1")
    (∀ n ∈ nodes, n.operand.Clean) ∧ IsLeast (Ty.partings (nodes.map Node.type)) 2 ∧
      ∃ node d, exec (operation .plain .plus nodes) {} = (.ok node, d) ∧ node.error = true ∧
        d = Context.report {} [.operands .plus .float .bool] := by
  intro nodes
  have clean : ∀ n ∈ nodes, n.operand.Clean := by
    intro n hn
    obtain ⟨type, ht, rfl⟩ := List.mem_map.mp hn
    have written : ∀ type ∈ [Ty.int, .float, .bool, .void], type.isWritten = true := by decide
    exact .of_isWritten (written type ht) _
  have least : IsLeast (Ty.partings (nodes.map Node.type)) 2 := by
    refine ⟨⟨by decide, ?_⟩, fun m hm => ?_⟩
    · simp [nodes, Ty.Acceptable, Node.type]
    · obtain ⟨-, parts⟩ := hm
      by_contra early
      refine parts (.inr ?_)
      obtain rfl | rfl : m = 0 ∨ m = 1 := by omega
      · simp [nodes, Node.type]
      · simp [nodes, Node.type]
  have sound : failures nodes = ∅ := by
    rw [Set.eq_empty_iff_forall_notMem]
    rintro j ⟨n, hn, failed⟩
    obtain ⟨type, -, rfl⟩ := List.mem_map.mp (List.mem_of_getElem? hn)
    cases failed
  obtain ⟨node, d, built, -, parting, -⟩ := operation_type_is_join .plus (by simp [nodes]) clean {}
  exact ⟨clean, least, node, d, built, parting 2 .bool least rfl (by simp [sound])⟩

end Treewright
