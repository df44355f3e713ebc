import Treewright.Proofs.Confinement
set_option autoImplicit false

namespace Treewright

open Build

namespace Ty

/-- The types differ at most in the sizes of arrays. -/
inductive SameButSizes : Ty → Ty → Prop where
  | same (t : Ty) : SameButSizes t t
  | array {a b : Ty} (h : SameButSizes a b) (m n : Value) : SameButSizes (.array a m) (.array b n)
  | pointer {a b : Ty} (h : SameButSizes a b) : SameButSizes (.pointer a) (.pointer b)
  | reference {a b : Ty} (h : SameButSizes a b) : SameButSizes (.reference a) (.reference b)

theorem SameButSizes.phrase_eq {a b : Ty} (h : a.SameButSizes b) : a.phrase = b.phrase := by
  induction h with
  | same t => rfl
  | array _ _ _ ih | pointer _ ih | reference _ ih => rw [phrase, phrase, ih]

theorem native_of_array {element : Ty} {size : Value} (h : (array element size).native = true) :
    element.native = true := by
  cases size <;> simp_all [native]

theorem sameButSizes_of_phrase_eq {a b : Ty} (ha : a.native = true) (hb : b.native = true)
    (h : a.phrase = b.phrase) : a.SameButSizes b := by
  induction a generalizing b with
  | foreign value => simp [native] at ha
  | array element size ih =>
    cases b
    case array other size' =>
      have same : element.phrase = other.phrase := by simpa [phrase] using h
      exact .array (ih (native_of_array ha) (native_of_array hb) same) size size'
    case foreign => simp [native] at hb
    all_goals simp [phrase, String.ext_iff] at h
  | pointer target ih =>
    cases b
    case pointer other => exact .pointer (ih ha hb (by simpa [phrase] using h))
    case foreign => simp [native] at hb
    all_goals simp [phrase, String.ext_iff] at h
  | reference target ih =>
    cases b
    case reference other => exact .reference (ih ha hb (by simpa [phrase] using h))
    case foreign => simp [native] at hb
    all_goals simp [phrase, String.ext_iff] at h
  | _ => cases b <;> simp_all [phrase, native, String.ext_iff, SameButSizes.same]

theorem phrase_eq_iff {a b : Ty} (ha : a.native = true) (hb : b.native = true) :
    a.phrase = b.phrase ↔ a.SameButSizes b :=
  ⟨sameButSizes_of_phrase_eq ha hb, SameButSizes.phrase_eq⟩

end Ty

/-- The kinds of diagnostics that hold two types against each other. -/
def mismatchKinds : List ErrorKind :=
  [.incompatibleOperands, .incompatibleAssignment, .incompatibleParam]

namespace Problem

/-- The type that was expected, and the one that was found. -/
def contrast? : Problem → Option (Ty × Ty)
  | .operands _ expected actual | .assignment expected actual | .param _ expected actual =>
    some (expected, actual)
  | _ => none

/-- What the message of a mismatch says before it names the two types. -/
def opening : Problem → String
  | .operands op _ _ => op.phrase ++ " operation expected"
  | .assignment _ _ => Op.assign.phrase ++ " operation expected"
  | .param name _ _ => "parameter " ++ name.written ++ " expected"
  | _ => ""

structure Contrasts (p : Problem) : Prop where
  reported : p.kind ∈ mismatchKinds → p.contrast?.isSome = true
  native : ∀ e a, p.contrast? = some (e, a) → e.native = true ∧ a.native = true
  differ : ∀ e a, p.contrast? = some (e, a) → e ≠ a

namespace Contrasts

theorem of_kind {p : Problem} {kind : ErrorKind} (hk : p.kind = kind) (h : kind ∉ mismatchKinds) :
    p.Contrasts := by
  subst hk
  have none : p.contrast? = none := by
    cases p <;> simp_all [Problem.kind, mismatchKinds, contrast?]
  exact ⟨fun hk => absurd hk h, by simp [none], by simp [none]⟩

theorem of_types {p : Problem} {expected actual : Ty} (h : p.contrast? = some (expected, actual))
    (he : expected.native = true) (ha : actual.native = true) (hne : expected ≠ actual) :
    p.Contrasts where
  reported _ := by rw [h]; rfl
  native e a hc := by
    cases h.symm.trans hc
    exact ⟨he, ha⟩
  differ e a hc := by
    cases h.symm.trans hc
    exact hne

end Contrasts

theorem message_of_contrast {p : Problem} {expected actual : Ty}
    (h : p.contrast? = some (expected, actual)) :
    p.message = p.opening ++ " " ++ expected.phrase ++ " but received " ++ actual.phrase := by
  cases p <;> cases h <;> rfl

end Problem

theorem Ty.ne_of_agrees_false {target source : Ty} (h : target.native = true)
    (ha : ¬target.agrees source = true) : target ≠ source :=
  fun he => ha ((Ty.agrees_iff h source).mpr he)

/-- The fold over the operands expects a type without foreign parts, and a mismatch that it found is
between two different ones. -/
structure Fold.Contrasts (f : Fold) : Prop where
  native : f.expected.native = true
  mismatch : ∀ e a, f.mismatch = some (e, a) → e.native = true ∧ a.native = true ∧ e ≠ a

namespace Fold.Contrasts

variable {f : Fold}

theorem reject (h : f.Contrasts) {e a : Ty} (he : e.native = true) (ha : a.native = true)
    (hne : e ≠ a) : (f.reject e a).Contrasts where
  native := h.native
  mismatch e' a' hm := by
    cases hm
    exact ⟨he, ha, hne⟩

theorem step (h : f.Contrasts) {o : Operand} (ho : o.type.native = true) (fixed : Bool)
    (index : Nat) : (f.step fixed index o).Contrasts := by
  unfold Fold.step
  split
  · exact ⟨h.native, h.mismatch⟩
  split
  · exact h
  split
  · -- An operand without a value never meets the type that it has.
    split
    · exact h.reject rfl rfl (by simp)
    · exact h.reject h.native rfl ‹_›
  split
  · exact h
  rename_i ha
  split
  · exact ⟨h.native, h.mismatch⟩
  split
  · exact ⟨ho, h.mismatch⟩
  · exact h.reject h.native ho (Ty.ne_of_agrees_false h.native ha)

theorem problems (h : f.Contrasts) (op : Op) : ∀ p ∈ f.problems op, p.Contrasts := by
  intro p hp
  unfold Fold.problems at hp
  split at hp
  · rename_i e a hm
    obtain ⟨he, ha, hne⟩ := h.mismatch e a hm
    rw [List.mem_singleton.mp hp]
    exact .of_types rfl he ha hne
  · cases hp

end Fold.Contrasts

theorem contrasts_checkOperands (style : Style) {operands : List Operand}
    (ho : ∀ o ∈ operands, o.Clean) :
    (checkOperands (Form.operandType style none) operands).Contrasts := by
  refine Fold.run_of_step (fun f index o hm hf => hf.step (ho o hm).native _ index) 0
    ⟨?_, fun _ _ hm => by cases hm⟩
  cases style with
  | connective => rfl
  | _ =>
    cases operands with
    | nil => rfl
    | cons o operands => exact (ho o (by simp)).native

theorem contrasts_checkInitial {declared : Ty} (hd : declared.native = true) {value : Operand}
    (hv : value.Clean) : ∀ p ∈ (checkInitial declared value).problems, p.Contrasts := by
  unfold checkInitial
  split
  · simp
  split
  · simp
  · rename_i ha
    simp only [List.mem_singleton, forall_eq]
    exact .of_types rfl hd hv.native (Ty.ne_of_agrees_false hd ha)

theorem contrasts_checkAssignment {target value : Operand} (ht : target.Clean) (hv : value.Clean) :
    ∀ p ∈ (checkAssignment target value).2.problems, p.Contrasts := by
  unfold checkAssignment
  split
  · simp
  split
  · simp
  · rename_i ha
    simp only [List.mem_singleton, forall_eq]
    refine .of_types rfl ht.native hv.native fun he => ha ?_
    exact (Ty.isAssignable_iff ht.native _).mpr (.inl he)

theorem contrasts_checkArguments (all : Bool) (name : Name) (index : Nat) {params : List Ty}
    (hp : ∀ p ∈ params, p.native = true) {args : List Operand} (ha : ∀ a ∈ args, a.Clean) :
    ∀ p ∈ (checkArguments all name index params args).problems, p.Contrasts := by
  induction params generalizing index args with
  | nil => simp [checkArguments]
  | cons param params ih =>
    cases args with
    | nil => simp [checkArguments]
    | cons arg args =>
      obtain ⟨hparam, hparams⟩ := List.forall_mem_cons.mp hp
      obtain ⟨harg, hargs⟩ := List.forall_mem_cons.mp ha
      have hrest := ih (index + 1) hparams hargs
      rw [checkArguments]
      split
      · exact hrest
      split
      · exact hrest
      rename_i hagrees
      split
      · exact hrest
      have hproblem : (Problem.param name param arg.type).Contrasts :=
        .of_types rfl hparam harg.native (Ty.ne_of_agrees_false hparam hagrees)
      split
      · exact List.forall_mem_cons.mpr ⟨hproblem, hrest⟩
      · exact List.forall_mem_singleton.mpr hproblem

theorem contrasts_checkCall (all : Bool) {table : Table} (sound : table.Sound) (name : Name)
    {args : List Operand} (ha : ∀ a ∈ args, a.Clean) :
    ∀ p ∈ (checkCall all table name args).2.problems, p.Contrasts := by
  unfold checkCall
  cases h : table.functionNamed name with
  | none =>
    exact List.forall_mem_singleton.mpr
      (.of_kind (rfl : _ = ErrorKind.undeclaredVariable) (by decide))
  | some symbol =>
    simp only
    split
    · exact List.forall_mem_singleton.mpr
        (.of_kind (rfl : _ = ErrorKind.wrongParamCount) (by decide))
    · obtain ⟨-, ⟨params, returns, hshape, -, hparams⟩, -⟩ := sound.functionNamed h
      have ht : symbol.paramTypes = params.map (·.2) := by
        simp [Symbol.paramTypes, Symbol.params?, hshape]
      rw [ht]
      refine contrasts_checkArguments all name 0 (fun p hp => ?_) ha
      obtain ⟨q, hq, rfl⟩ := List.mem_map.mp hp
      exact Ty.native_of_isWritten (hparams q hq)

def Context.Contrasts (c : Context) : Prop := ∀ d ∈ c.log.diagnostics, d.problem.Contrasts

namespace Context.Contrasts

variable {c : Context}

theorem report (h : c.Contrasts) {problems : List Problem} (hp : ∀ p ∈ problems, p.Contrasts) :
    (c.report problems).Contrasts := by
  intro d hd
  simp only [Context.report, Log.diagnostics_reportAll, List.mem_append, List.mem_map] at hd
  rcases hd with hd | ⟨p, hm, rfl⟩
  · exact h d hd
  · exact hp p hm

theorem declare (h : c.Contrasts) (name : Name) (type : Ty) (line : Int) :
    (c.declare name type line).2.Contrasts := by
  rcases c.declare_cases name type line with ⟨-, he⟩ | ⟨-, he⟩
  · rw [he]
    exact h
  · rw [he]
    exact h.report (List.forall_mem_singleton.mpr
      (.of_kind (rfl : _ = ErrorKind.multipleDefinition) (by decide)))

theorem declareFunction (h : c.Contrasts) (name : Name) (params : List (Ty × Value)) (returns : Ty)
    (line : Int) : (c.declareFunction name params returns line).2.Contrasts := by
  rcases c.declareFunction_cases name params returns line with ⟨-, he⟩ | ⟨s, -, ⟨-, he⟩ | ⟨-, he⟩⟩
  · rw [he]
    exact h
  · rw [he]
    exact h
  · rw [he]
    exact h.report (List.forall_mem_singleton.mpr
      (.of_kind (rfl : _ = ErrorKind.multipleDefinitionFn) (by decide)))

theorem test (h : c.Contrasts) (condition : Operand) :
    (c.report (checkTest condition).problems).Contrasts :=
  h.report fun p hp => .of_kind (kind_checkTest condition p hp) (by decide)

end Context.Contrasts

theorem contrasts_operation (style : Style) (hs : ∀ target, style ≠ .cast target) (op : Op)
    {ns : List Node} (hn : ∀ n ∈ ns, n.operand.Clean) {c : Context} (h : c.Contrasts) :
    (operationNode style op ns c).2.Contrasts := by
  have ho : ∀ o ∈ ns.map Node.operand, o.Clean := by simpa using hn
  rw [operationNode_eq hs]
  exact h.report ((contrasts_checkOperands style ho).problems op)

theorem contrasts_made {action : Action} {items : List Action} (ho : action.operands? = some items)
    {ns : List Node} (hl : ns.length = items.length) (hn : ∀ n ∈ ns, n.operand.Clean) {c : Context}
    (sound : c.table.Sound) (h : c.Contrasts) : (action.made ns c).2.Contrasts := by
  cases action <;> simp only [Action.operands?, reduceCtorEq, Option.some.injEq] at ho
  case arrayDecl type name size => exact h.declare name _ c.line
  case «variable» name =>
    exact h.report fun p hp => .of_kind (kind_checkVariable _ name p hp) (by decide)
  case operation op operands => exact contrasts_operation _ (styleOf_ne_cast op ns.length) _ hn h
  case paren operand => exact contrasts_operation .paren (by simp) _ hn h
  case cast target operand =>
    subst ho
    obtain ⟨n, rfl⟩ := List.length_eq_one_iff.mp hl
    have hnone : ∀ p ∈ ([] : List Problem), p.Contrasts := by simp
    exact h.report hnone
  case assign target value =>
    subst ho
    obtain ⟨t, v, rfl⟩ := List.length_eq_two.mp hl
    exact h.report (contrasts_checkAssignment (hn t (by simp)) (hn v (by simp)))
  case call name args =>
    have ha : ∀ a ∈ ns.map Node.operand, a.Clean := by simpa using hn
    exact h.report (contrasts_checkCall c.reportAll sound name ha)
  case access name index =>
    subst ho
    obtain ⟨i, rfl⟩ := List.length_eq_one_iff.mp hl
    refine h.report fun p hp => ?_
    have hk := kind_checkAccess _ name _ p hp
    simp only [List.mem_cons, List.not_mem_nil, or_false] at hk
    rcases hk with hk | hk | hk <;> exact .of_kind hk (by decide)
  case address operand | reference operand =>
    subst ho
    obtain ⟨n, rfl⟩ := List.length_eq_one_iff.mp hl
    exact h
  case constant | ret | nop => exact h

theorem contrasts_bound {type : Ty} (ht : type.isWritten = true) (name : Name) {value : Option Node}
    (hv : ∀ n ∈ value, n.operand.Clean) {c : Context} (h : c.Contrasts) :
    (boundNode type name value c).2.Contrasts := by
  refine (h.declare name type c.line).report ?_
  cases value with
  | none => simp
  | some n => exact contrasts_checkInitial (Ty.native_of_isWritten ht) (hv n rfl)

theorem invariant_contrasts :
    Invariant (fun c => c.Confined ∧ c.Contrasts) (Node.Every (·.operand.Confined)) where
  advance h line := ⟨invariant_confined.advance h.1 line, by
    simpa [Context.Contrasts, Context.advanceTo] using h.2⟩
  enter h name := ⟨invariant_confined.enter h.1 name, h.2⟩
  leave h hl := by
    refine ⟨invariant_confined.leave h.1 hl, ?_⟩
    obtain ⟨scope, outer, -, rfl⟩ := Context.leave?_eq hl
    exact h.2
  param h name _ ht := ⟨invariant_confined.param h.1 name ht, h.2.declare name _ _⟩
  declareFunction h name _ _ hp hr :=
    ⟨invariant_confined.declareFunction h.1 name hp hr, h.2.declareFunction name _ _ _⟩
  define h _ _ hd := ⟨invariant_confined.define h.1 hd, h.2⟩
  made ho proper ns hl hn c h := by
    obtain ⟨hnode, hc⟩ := invariant_confined.made ho proper hl hn h.1
    exact ⟨hnode, hc, contrasts_made ho hl (fun n hm => (hn n hm).here.clean) h.1.sound h.2⟩
  bound ht name value hv c h := by
    obtain ⟨hnode, hc⟩ := invariant_confined.bound ht name hv h.1
    exact ⟨hnode, hc, contrasts_bound ht name (fun n hm => (hv n hm).here.clean) h.2⟩
  declaration := invariant_confined.declaration
  block := invariant_confined.block
  conditional hn hb _ hr _ h := by
    obtain ⟨hnode, hc⟩ := invariant_confined.conditional hn hb hr h.1
    exact ⟨hnode, hc, h.2.test _⟩
  loop hi _ hn hu _ hb _ h := by
    obtain ⟨hnode, hc⟩ := invariant_confined.loop hi hn hu hb h.1
    exact ⟨hnode, hc, h.2.test _⟩
  function := invariant_confined.function
  nop := invariant_confined.nop

/-- Let any documents be built, well or up to a fault. A mismatch that was reported is between two
different types, and its message names them both. It names them by two different texts exactly when
they do not differ in the sizes of arrays alone. -/
theorem mismatch_names_apart_iff (reportAll : Bool) (program : List Value) :
    ∀ d ∈ (exec (buildAll (program.map .ofValue)) { reportAll }).2.log.diagnostics,
      d.kind ∈ mismatchKinds → ∃ expected actual,
        d.problem.contrast? = some (expected, actual) ∧
        d.message = d.problem.opening ++ " " ++ expected.phrase ++ " but received " ++
          actual.phrase ∧
        expected ≠ actual ∧
        (expected.phrase ≠ actual.phrase ↔ ¬expected.SameButSizes actual) := by
  intro d hd hk
  have hstart : Context.Confined { reportAll } := ⟨.empty, by simp, by simp⟩
  have hnone : Context.Contrasts { reportAll } := by simp [Context.Contrasts]
  obtain ⟨⟨-, hall⟩, -⟩ := invariant_contrasts.documents program ⟨hstart, hnone⟩
  have hc := hall d hd
  obtain ⟨⟨expected, actual⟩, htypes⟩ := Option.isSome_iff_exists.mp (hc.reported hk)
  obtain ⟨he, ha⟩ := hc.native expected actual htypes
  exact ⟨expected, actual, htypes, Problem.message_of_contrast htypes,
    hc.differ expected actual htypes, (Ty.phrase_eq_iff he ha).not⟩

def arrayOf (name size : String) : Value :=
  .object [("node", .string "array_decl"), ("type", .string "int"), ("name", .string name),
    ("size", .string size)]

def mention (name : String) : Value := .object [("node", .string "var"), ("name", .string name)]

def addressOf (operand : Value) : Value :=
  .object [("node", .string "address"), ("operand", operand)]

/-- Two arrays of different sizes, whose addresses are added, and a function of a number that is
called with such an address. -/
def twoArrays : List Value :=
  [arrayOf "a" "3", arrayOf "b" "4",
    .object [("node", .string "op"), ("op", .string "+"),
      ("operands", .list [addressOf (mention "a"), addressOf (mention "b")])],
    .object [("node", .string "function"), ("returns", .string "void"), ("name", .string "g"),
      ("params", .list [.list [.string "float", .string "x"]]), ("body", .list [])],
    .object [("node", .string "call"), ("name", .string "g"),
      ("args", .list [addressOf (mention "a")])]]

/-- The addresses are named alike in the sum, where they differ in a size alone, and the address and
the number are told apart in the call. -/
theorem mismatch_names_apart_iff_addresses :
    let built := exec (buildAll (twoArrays.map .ofValue)) {}
    built.2.log.diagnostics.map (·.message) =
        ["addition operation expected pointer to array of integer but received pointer to array " ++
            "of integer",
          "parameter g expected float but received pointer to array of integer"] ∧
      ∀ d ∈ built.2.log.diagnostics, d.kind ∈ mismatchKinds ∧ ∃ expected actual,
        d.problem.contrast? = some (expected, actual) ∧
        d.message = d.problem.opening ++ " " ++ expected.phrase ++ " but received " ++
          actual.phrase ∧
        expected ≠ actual ∧
        (expected.phrase ≠ actual.phrase ↔ ¬expected.SameButSizes actual) := by
  obtain ⟨messages, kinds⟩ :
      (exec (buildAll (twoArrays.map .ofValue)) {}).2.log.diagnostics.map (·.message) =
        ["addition operation expected pointer to array of integer but received pointer to array " ++
            "of integer",
          "parameter g expected float but received pointer to array of integer"] ∧
      ((exec (buildAll (twoArrays.map .ofValue)) {}).2.log.diagnostics.all
        fun d => d.kind ∈ mismatchKinds) = true := by decide +kernel
  have apart := mismatch_names_apart_iff true twoArrays
  generalize exec (buildAll (twoArrays.map .ofValue)) {} = built at messages kinds apart ⊢
  refine ⟨messages, fun d hd => ?_⟩
  have hk : d.kind ∈ mismatchKinds := of_decide_eq_true (List.all_eq_true.mp kinds d hd)
  exact ⟨hk, apart d hd hk⟩

/-- One array is assigned to another of a different size. The message expects what it received. -/
theorem sizes_go_unsaid :
    let program := [arrayOf "a" "3", arrayOf "b" "4", .object [("node", .string "assign"),
      ("target", mention "a"), ("value", mention "b")]]
    let built := exec (buildAll (program.map .ofValue)) {}
    built.2.log.diagnostics =
        [⟨1, .assignment (.array .int (.string "3")) (.array .int (.string "4"))⟩] ∧
      built.2.log.diagnostics.map (fun d => (d.kind, d.message)) =
        [(.incompatibleAssignment,
          "attribution operation expected array of integer but received array of integer")] ∧
      (Ty.array .int (.string "3")).phrase = (Ty.array .int (.string "4")).phrase := by
  decide +kernel

end Treewright
