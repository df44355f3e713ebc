import Treewright.Proofs.Account
import Treewright.Proofs.Simulation
import Treewright.Proofs.Widening
set_option autoImplicit false

namespace Treewright

open Build

namespace Fold

theorem getElem?_concat {seen : List Operand} {o o' : Operand} {i : Nat}
    (h : (seen ++ [o])[i]? = some o') :
    i < seen.length ∧ seen[i]? = some o' ∨ i = seen.length ∧ o = o' := by
  by_cases hlt : i < seen.length
  · rw [List.getElem?_append_left hlt] at h
    exact .inl ⟨hlt, h⟩
  · rw [List.getElem?_append_right (by omega), List.getElem?_singleton] at h
    split at h
    · exact .inr ⟨by omega, Option.some.inj h⟩
    · cases h

/-- What the marks of a fold say of the operands that it has seen, if it started with a type. -/
structure Marks (start : Ty) (seen : List Operand) (f : Fold) : Prop where
  native : f.expected.native = true
  sound : ∀ i ∈ f.coerced, ∃ o, seen[i]? = some o ∧ o.failed = false ∧ o.type = .int
  /-- Without a failure an operand has the expected type, or is widened to it. -/
  precise : f.failed = false → ∀ i o, seen[i]? = some o → o.failed = false ∧
    (o.type = f.expected ∧ i ∉ f.coerced ∨ o.type = .int ∧ f.expected = .float ∧ i ∈ f.coerced)
  float : f.expected = .float → start = .float ∨ ∃ o ∈ seen, o.type = .float

namespace Marks

variable {start : Ty} {seen : List Operand} {f : Fold}

theorem lt_length (h : f.Marks start seen) {i : Nat} (hi : i ∈ f.coerced) : i < seen.length := by
  obtain ⟨o, ho, -⟩ := h.sound i hi
  exact (List.getElem?_eq_some_iff.mp ho).1

theorem expected_ne_any (h : f.Marks start seen) (ok : f.failed = false)
    (clean : ∀ o ∈ seen, o.Clean) (hne : seen ≠ []) : f.expected ≠ .any := by
  obtain ⟨o, rest, rfl⟩ := List.exists_cons_of_ne_nil hne
  obtain ⟨unfailed, ⟨same, -⟩ | ⟨-, float, -⟩⟩ := h.precise ok 0 o rfl
  · rw [← same]
    exact (clean o (by simp)).ne_any unfailed
  · simp [float]

theorem sound_append (h : f.Marks start seen) (o : Operand) :
    ∀ i ∈ f.coerced, ∃ o', (seen ++ [o])[i]? = some o' ∧ o'.failed = false ∧ o'.type = .int := by
  intro i hi
  obtain ⟨o', ho', rest⟩ := h.sound i hi
  exact ⟨o', by rw [List.getElem?_append_left (h.lt_length hi)]; exact ho', rest⟩

theorem float_append (h : f.Marks start seen) (o : Operand) (hf : f.expected = .float) :
    start = .float ∨ ∃ o' ∈ seen ++ [o], o'.type = .float := by
  obtain hs | ⟨o', ho', ht⟩ := h.float hf
  · exact .inl hs
  · exact .inr ⟨o', by simp [ho'], ht⟩

theorem fail (h : f.Marks start seen) (o : Operand) (mismatch : Option (Ty × Ty)) :
    Marks start (seen ++ [o]) { f with failed := true, mismatch } where
  native := h.native
  sound := h.sound_append o
  precise failed := by cases failed
  float := h.float_append o

theorem agree (h : f.Marks start seen) {o : Operand} (ok : f.failed = false ∧ o.failed = false)
    (same : o.type = f.expected) : f.Marks start (seen ++ [o]) where
  native := h.native
  sound := h.sound_append o
  precise := by
    intro _ i o' hi
    obtain ⟨-, hi⟩ | ⟨rfl, rfl⟩ := getElem?_concat hi
    · exact h.precise ok.1 i o' hi
    · exact ⟨ok.2, .inl ⟨same, fun hm => Nat.lt_irrefl _ (h.lt_length hm)⟩⟩
  float := h.float_append o

theorem coerce (h : f.Marks start seen) {o : Operand} (ok : f.failed = false ∧ o.failed = false)
    (float : f.expected = .float) (int : o.type = .int) :
    Marks start (seen ++ [o]) { f with coerced := f.coerced ++ [seen.length] } where
  native := h.native
  sound := by
    intro i hi
    obtain hi | rfl := by simpa using hi
    · exact h.sound_append o i hi
    · exact ⟨o, by simp, ok.2, int⟩
  precise := by
    intro _ i o' hi
    obtain ⟨hlt, hi⟩ | ⟨rfl, rfl⟩ := getElem?_concat hi
    · have other : i ∈ f.coerced ++ [seen.length] ↔ i ∈ f.coerced := by
        simp [Nat.ne_of_lt hlt]
      simpa only [other] using h.precise ok.1 i o' hi
    · exact ⟨ok.2, .inr ⟨int, float, by simp⟩⟩
  float := h.float_append o

theorem widen (h : f.Marks start seen) {o : Operand} (ok : f.failed = false ∧ o.failed = false)
    (float : o.type = .float) (int : f.expected = .int) :
    Marks start (seen ++ [o])
      { f with coerced := List.range seen.length, expected := o.type } := by
  have before {i : Nat} {o' : Operand} (hi : seen[i]? = some o') :
      o'.failed = false ∧ o'.type = .int := by
    obtain ⟨unfailed, ⟨same, -⟩ | ⟨-, wide, -⟩⟩ := h.precise ok.1 i o' hi
    · exact ⟨unfailed, same.trans int⟩
    · cases int.symm.trans wide
  exact
    { native := by simp [float, Ty.native]
      sound := by
        intro i hi
        have hlt : i < seen.length := List.mem_range.mp hi
        have hi := List.getElem?_eq_getElem hlt
        exact ⟨seen[i], by rw [List.getElem?_append_left hlt]; exact hi, before hi⟩
      precise := by
        intro _ i o' hi
        obtain ⟨hlt, hi⟩ | ⟨rfl, rfl⟩ := getElem?_concat hi
        · exact ⟨(before hi).1, .inr ⟨(before hi).2, float, List.mem_range.mpr hlt⟩⟩
        · exact ⟨ok.2, .inl ⟨rfl, by simp⟩⟩
      float := fun _ => .inr ⟨o, by simp, float⟩ }

theorem step (h : f.Marks start seen) (clean : ∀ o ∈ seen, o.Clean) {o : Operand} (ho : o.Clean)
    (first : seen = [] → f.expected = .any → o.type = .any) (fixed : Bool) :
    (f.step fixed seen.length o).Marks start (seen ++ [o]) := by
  have takes := takes_step fixed f seen.length o
  generalize f.step fixed seen.length o = g at takes ⊢
  cases takes with
  | spoiled _ => exact h.fail o f.mismatch
  | rejected _ _ _ expected actual => exact h.fail o (some (expected, actual))
  | skipped ok missing =>
    -- A type is missing only where something failed.
    have present := ho.ne_any ok.2
    obtain missing | missing := missing
    · by_cases hne : seen = []
      · exact absurd (first hne missing) present
      · exact absurd missing (h.expected_ne_any ok.1 clean hne)
    · exact absurd missing present
  | agreed ok _ agrees => exact h.agree ok ((Ty.agrees_iff h.native o.type).mp agrees).symm
  | coerced ok types => exact h.coerce ok types.1 types.2
  | widened ok _ types => exact h.widen ok types.1 types.2

theorem run (h : f.Marks start seen) (clean : ∀ o ∈ seen, o.Clean) {operands : List Operand}
    (ho : ∀ o ∈ operands, o.Clean)
    (first : seen = [] → f.expected = .any → ∀ o ∈ operands.head?, o.type = .any) (fixed : Bool) :
    (Fold.run fixed f seen.length operands).Marks start (seen ++ operands) := by
  induction operands generalizing f seen with
  | nil => simpa [Fold.run] using h
  | cons o operands ih =>
    have stepped := h.step clean (ho o (by simp)) (fun hs ha => first hs ha o rfl) fixed
    have clean' : ∀ x ∈ seen ++ [o], x.Clean := by
      intro x hx
      obtain hx | rfl := by simpa using hx
      · exact clean x hx
      · exact ho x (by simp)
    have rest := ih stepped clean' (fun x hx => ho x (by simp [hx])) (by simp)
    simpa [Fold.run] using rest

theorem marked_iff (h : f.Marks start seen) (ok : f.failed = false) {i : Nat} {o : Operand}
    (hi : seen[i]? = some o) (int : o.type = .int) : i ∈ f.coerced ↔ f.expected = .float := by
  obtain ⟨-, ⟨same, unmarked⟩ | ⟨-, float, marked⟩⟩ := h.precise ok i o hi
  · exact iff_of_false unmarked fun float => by cases int.symm.trans (same.trans float)
  · exact iff_of_true marked float

theorem expected_of_float (h : f.Marks start seen) (ok : f.failed = false) {o : Operand}
    (ho : o ∈ seen) (float : o.type = .float) : f.expected = .float := by
  obtain ⟨i, hi⟩ := List.mem_iff_getElem?.mp ho
  obtain ⟨-, ⟨same, -⟩ | ⟨-, expected, -⟩⟩ := h.precise ok i o hi
  · exact same.symm.trans float
  · exact expected

end Marks
end Fold

def startType (given : Option Ty) (operands : List Operand) : Ty :=
  given.getD ((operands.head?.map (·.type)).getD .any)

theorem exists_float_of_startType {given : Option Ty} (hg : ∀ t ∈ given, t = .bool)
    {operands : List Operand} (h : startType given operands = .float) :
    ∃ o ∈ operands, o.type = .float := by
  cases given with
  | some t => simp [startType, hg t rfl] at h
  | none =>
    cases operands with
    | nil => simp [startType] at h
    | cons o operands => exact ⟨o, by simp, h⟩

theorem marks_checkOperands {given : Option Ty} (hg : ∀ t ∈ given, t = .bool)
    {operands : List Operand} (clean : ∀ o ∈ operands, o.Clean) :
    (checkOperands given operands).Marks (startType given operands) operands := by
  have native : (startType given operands).native = true := by
    cases given with
    | some t => simp [startType, hg t rfl, Ty.native]
    | none =>
      cases operands with
      | nil => rfl
      | cons o operands => exact (clean o (by simp)).native
  have fresh : Fold.Marks (startType given operands) [] { expected := startType given operands } :=
    { native
      sound := by simp
      precise := by simp
      float := .inl }
  refine fresh.run (by simp) clean (fun _ missing o ho => ?_) given.isSome
  cases given with
  | some t => simp [startType, hg t rfl] at missing
  | none => simpa [startType, Option.mem_def.mp ho] using missing

/-- The marked positions are those of integers without a failure. -/
def MarksIntegers (children : List Node) (coerced : List Nat) : Prop :=
  ∀ i ∈ coerced, ∃ n, children[i]? = some n ∧ n.error = false ∧ n.type = .int

theorem Operand.widens_iff {arg : Operand} {param : Ty} :
    arg.widens param = true ↔ arg.spoiled = false ∧ param = .float ∧ arg.type = .int := by
  simp [widens]

theorem coerced_checkArguments_sound {all : Bool} {name : Name} {i j : Nat} {params : List Ty}
    {args : List Operand} (h : j ∈ (checkArguments all name i params args).coerced) :
    ∃ arg, args[j - i]? = some arg ∧ arg.failed = false ∧ arg.type = .int := by
  induction params generalizing i args with
  | nil => simp [checkArguments] at h
  | cons param params ih =>
    cases args with
    | nil => simp [checkArguments] at h
    | cons arg args =>
      rw [(checkArguments_cons ..).1, List.mem_append] at h
      obtain h | h := h
      · split at h
        · rename_i widens
          obtain rfl := List.mem_singleton.mp h
          obtain ⟨unspoiled, -, int⟩ := Operand.widens_iff.mp widens
          simp only [Operand.spoiled, Bool.or_eq_false_iff] at unspoiled
          exact ⟨arg, by simp, unspoiled.1, int⟩
        · cases h
      · split at h
        · cases h
        · have later := (mem_coerced_checkArguments h).1
          obtain ⟨arg', found, rest⟩ := ih h
          refine ⟨arg', ?_, rest⟩
          rw [show j - i = j - (i + 1) + 1 by omega]
          simpa using found

theorem coerced_checkArguments_iff {all : Bool} {name : Name} {i j : Nat} {params : List Ty}
    {args : List Operand} (passed : (checkArguments all name i params args).failed = false)
    {arg : Operand} {param : Ty} (ha : args[j]? = some arg) (hp : params[j]? = some param) :
    i + j ∈ (checkArguments all name i params args).coerced ↔ arg.type = .int ∧ param = .float := by
  induction params generalizing i j args with
  | nil => simp at hp
  | cons first params ih =>
    cases args with
    | nil => simp at ha
    | cons own args =>
      rw [(checkArguments_cons ..).2] at passed
      simp only [Bool.or_eq_false_iff] at passed
      obtain ⟨⟨unspoiled, fits⟩, passed⟩ := passed
      rw [(checkArguments_cons ..).1, fits, Bool.false_and, if_neg Bool.false_ne_true]
      cases j with
      | zero =>
        obtain rfl : own = arg := by simpa using ha
        obtain rfl : first = param := by simpa using hp
        have rest : i ∉ (checkArguments all name (i + 1) params args).coerced := fun hm => by
          have := (mem_coerced_checkArguments hm).1
          omega
        cases widens : own.widens first with
        | true => simpa [unspoiled, and_comm] using Operand.widens_iff.mp widens
        | false =>
          have narrow : ¬(own.type = .int ∧ first = .float) := by
            intro h
            rw [Operand.widens_iff.mpr ⟨unspoiled, h.2, h.1⟩] at widens
            cases widens
          simp [rest, narrow]
      | succ j =>
        have own_place : i + (j + 1) ∉ if own.widens first then [i] else [] := by
          split <;> simp
        rw [List.mem_append, or_iff_right own_place, show i + (j + 1) = i + 1 + j by omega]
        exact ih passed (by simpa using ha) (by simpa using hp)

/-- The marks of a node by itself. For a call this leaves out what the parameters are, which the
node does not hold. -/
def Node.WidensExactly : Node → Prop
  | .mk _ (.operation _ _ operands expected _ coerced failed) =>
    MarksIntegers operands coerced ∧
      (failed = false →
        (∀ (i : Nat) (n : Node), operands[i]? = some n → n.type = .int →
          (i ∈ coerced ↔ expected = .float)) ∧
        (expected = .float ↔ ∃ n ∈ operands, n.type = .float))
  | .mk _ (.assignment target value coerced failed) =>
    (coerced = true → value.error = false ∧ value.type = .int) ∧
      (failed = false → value.type = .int → (coerced = true ↔ target.type = .float))
  | .mk _ (.call _ args _ coerced _) => MarksIntegers args.edges coerced
  | _ => True

theorem MarksIntegers.of_operands {children : List Node} {coerced : List Nat}
    (h : ∀ i ∈ coerced, ∃ o, (children.map Node.operand)[i]? = some o ∧ o.failed = false ∧
      o.type = .int) : MarksIntegers children coerced := by
  intro i hi
  obtain ⟨o, ho, unfailed, int⟩ := h i hi
  rw [List.getElem?_map] at ho
  obtain ⟨n, hn, rfl⟩ := Option.map_eq_some_iff.mp ho
  exact ⟨n, hn, unfailed, int⟩

theorem widensExactly_operation {style : Style} (hs : ∀ target, style ≠ .cast target) (op : Op)
    {nodes : List Node} (clean : ∀ n ∈ nodes, n.operand.Clean) (c : Context) :
    (operationNode style op nodes c).1.WidensExactly := by
  rw [operationNode_eq hs]
  have given : ∀ t ∈ Form.operandType style none, t = .bool := by
    cases style <;> simp [Form.operandType]
  have marks := marks_checkOperands given (operands_clean clean)
  refine ⟨.of_operands marks.sound, fun passed => ⟨fun i n hn int => ?_, fun float => ?_, ?_⟩⟩
  · have seen : (nodes.map Node.operand)[i]? = some n.operand := by
      rw [List.getElem?_map, hn]
      rfl
    exact marks.marked_iff passed seen int
  · have found : ∃ o ∈ nodes.map Node.operand, o.type = .float := by
      obtain start | found := marks.float float
      · exact exists_float_of_startType given start
      · exact found
    simpa [Node.operand] using found
  · rintro ⟨n, hn, float⟩
    exact marks.expected_of_float passed (List.mem_map_of_mem hn) float

theorem widensExactly_cast (target : Ty) (op : Op) (n : Node) (c : Context) :
    (operationNode (.cast target) op [n] c).1.WidensExactly := by
  change MarksIntegers [n] [] ∧ (n.error = false →
    (∀ (i : Nat) (m : Node), [n][i]? = some m → m.type = .int → (i ∈ [] ↔ n.type = .float)) ∧
      (n.type = .float ↔ ∃ m ∈ [n], m.type = .float))
  refine ⟨by simp [MarksIntegers], fun _ => ⟨fun i m hm int => ?_, by simp⟩⟩
  obtain rfl : n = m := List.mem_singleton.mp (List.mem_of_getElem? hm) |>.symm
  simp [int]

theorem checkAssignment_widens (target value : Operand) :
    ((checkAssignment target value).1 = true → value.failed = false ∧ value.type = .int) ∧
      ((checkAssignment target value).2.failed = false → value.type = .int →
        ((checkAssignment target value).1 = true ↔ target.type = .float)) := by
  unfold checkAssignment
  split
  · simp
  · rename_i sound
    have unfailed : value.failed = false := by
      simp only [Bool.or_eq_true, not_or, Bool.not_eq_true] at sound
      exact sound.2
    split
    · simp +contextual [unfailed]
    · simp

theorem widensExactly_assignment (target value : Node) (mark : Mark) (c : Context) :
    (Node.mk mark (Form.ofAssignment target.seen value.seen c).1).WidensExactly :=
  checkAssignment_widens target.operand value.operand

theorem widensExactly_call (name : Name) (args : List Node) (mark : Mark) (c : Context) :
    (Node.mk mark (Form.ofCall name (.mk {} (.arguments args)) (args.map Node.operand)
      c).1).WidensExactly := by
  refine MarksIntegers.of_operands ?_
  change ∀ i ∈ (checkCall c.reportAll c.table name (args.map Node.operand)).2.coerced, _
  unfold checkCall
  split
  · simp
  · dsimp only
    split
    · simp
    · intro i hi
      have found := coerced_checkArguments_sound hi
      rw [Nat.sub_zero] at found
      exact found

theorem widensExactly_made {action : Action} {items : List Action}
    (ho : action.operands? = some items) {ns : List Node} (hl : ns.length = items.length)
    (clean : ∀ n ∈ ns, n.operand.Clean) (c : Context) : (action.made ns c).1.WidensExactly := by
  cases action <;> simp only [Action.operands?, reduceCtorEq, Option.some.injEq] at ho
  case operation op operands =>
    exact widensExactly_operation (styleOf_ne_cast op ns.length) _ clean c
  case paren operand => exact widensExactly_operation (by simp) _ clean c
  case cast target operand =>
    subst ho
    obtain ⟨n, rfl⟩ := List.length_eq_one_iff.mp hl
    exact widensExactly_cast target _ n c
  case assign target value =>
    subst ho
    obtain ⟨t, v, rfl⟩ := List.length_eq_two.mp hl
    exact widensExactly_assignment t v _ c
  case call name args => exact widensExactly_call name ns _ c
  case access name index | address operand | reference operand =>
    subst ho
    obtain ⟨n, rfl⟩ := List.length_eq_one_iff.mp hl
    trivial
  case arrayDecl | «variable» | constant | ret | nop => trivial

theorem invariant_widens : Invariant (fun c => c.table.Sound)
    (Node.Every fun n => n.operand.Clean ∧ n.WidensExactly) where
  advance h _ := h
  enter h name := h.enter name
  leave h hl := h.leave hl
  param {c} h name _ ht := steps_sound.declare c name c.line (.plain ht) h
  declareFunction {c} h name _ _ hp hr := steps_sound.declareFunction c name c.line hp hr h
  define h _ _ hd := steps_sound.define hd h
  made {action items} ho proper ns hl hn c h := by
    have clean : ∀ n ∈ ns, n.operand.Clean := fun n hm => (hn n hm).here.1
    have made_clean := (accounts_made ho hl proper h clean).clean
    exact ⟨.made ⟨made_clean, widensExactly_made ho hl clean c⟩ ⟨.of_isWritten rfl _, trivial⟩ hn,
      steps_sound.made action proper ns c h⟩
  bound {type} ht name value hv c h :=
    ⟨.bound ⟨.of_isWritten ht _, trivial⟩ hv, steps_sound.declare c name c.line (.plain ht) h⟩
  declaration ht _ _ _ hn _ := .intro ⟨.of_isWritten ht _, trivial⟩ hn
  block _ _ hn := .intro ⟨.of_isWritten rfl _, trivial⟩ hn
  conditional hn hb _ hr _ h := ⟨.conditional ⟨.of_isWritten rfl _, trivial⟩ hn hb hr, h⟩
  loop hi _ hn hu _ hb _ h := ⟨.loop ⟨.of_isWritten rfl _, trivial⟩ hi hn hu hb, h⟩
  function hr _ _ _ _ hb _ :=
    .function ⟨.of_isWritten hr _, trivial⟩ ⟨.of_isWritten rfl _, trivial⟩ hb
  nop := .intro ⟨.of_isWritten rfl _, trivial⟩ fun _ hm => by cases hm

namespace Node

mutual
/-- The calls in a tree, in the order in which they are checked. -/
def callNodes : Node → List Node
  | .mk mark (.call name args type coerced failed) =>
    args.callNodes ++ [.mk mark (.call name args type coerced failed)]
  | .mk _ (.binding _ _ value _) => callNodesOption value
  | .mk _ (.declaration _ _ _ bindings) => callNodesAll bindings
  | .mk _ (.operation _ _ operands _ _ _ _) => callNodesAll operands
  | .mk _ (.assignment target value _ _) => target.callNodes ++ value.callNodes
  | .mk _ (.block _ lines) => callNodesAll lines
  | .mk _ (.conditional condition accepted rejected _) =>
    condition.callNodes ++ accepted.callNodes ++ callNodesOption rejected
  | .mk _ (.loop init test update body _) =>
    callNodesOption init ++ test.callNodes ++ callNodesOption update ++ body.callNodes
  | .mk _ (.function _ _ params body _) => callNodesOption params ++ callNodesOption body
  | .mk _ (.ret operand) => callNodesOption operand
  | .mk _ (.arguments items) => callNodesAll items
  | .mk _ (.access _ index _ _) => index.callNodes
  | .mk _ (.wrapper _ target _ _) => target.callNodes
  | .mk _ (.bare _) | .mk _ .nop | .mk _ (.constant _ _) | .mk _ (.variable _ _ _)
  | .mk _ (.arrayDecl _ _ _ _) | .mk _ (.signature _) => []

def callNodesAll : List Node → List Node
  | [] => []
  | n :: ns => n.callNodes ++ callNodesAll ns

def callNodesOption : Option Node → List Node
  | none => []
  | some n => n.callNodes
end

theorem callNodesAll_eq (ns : List Node) : callNodesAll ns = ns.flatMap callNodes := by
  induction ns with
  | nil => rfl
  | cons n ns ih => simp [callNodesAll, ih]

theorem callNodesOption_eq (n : Option Node) : callNodesOption n = n.toList.flatMap callNodes := by
  cases n <;> simp [callNodesOption]

theorem callNodes_eq {mark : Mark} {form : Form Node}
    (h : ∀ name args type coerced failed, form ≠ .call name args type coerced failed) :
    (Node.mk mark form).callNodes = form.edges.flatMap callNodes := by
  cases form with
  | call name args type coerced failed => exact absurd rfl (h name args type coerced failed)
  | _ => simp [callNodes, callNodesAll_eq, callNodesOption_eq, Form.edges]

end Node

/-- The functions that were called in a trace, as the names of the calls meant them, each with what
its check saw of the arguments. -/
def calledIn (t : List Event) : List (Option Symbol × List Operand) :=
  t.filterMap fun
    | .called function args => some (function, args)
    | _ => none

@[simp] theorem calledIn_append (t t' : List Event) :
    calledIn (t ++ t') = calledIn t ++ calledIn t' := by
  simp [calledIn]

@[simp] theorem calledIn_reported (source : Source) (c d : Context) :
    calledIn (reported source c d) = [] := by
  refine List.filterMap_eq_nil_iff.mpr fun event he => ?_
  obtain ⟨diagnostic, -, rfl⟩ := List.mem_map.mp he
  rfl

@[simp] theorem calledIn_accepted (own : Option Symbol) (name : Name)
    (body : Option (List Action)) : calledIn (accepted own name body) = [] := by
  cases own <;> rfl

/-- The call was checked against the function, over these arguments: if it did not fail, it widens
exactly the integers that meet a float among the parameters. -/
inductive ChecksCall : Option Symbol × List Operand → Node → Prop where
  | intro {mark : Mark} {name : Name} {args : List Node} {type : Ty} {coerced : List Nat}
      {failed : Bool} {function : Option Symbol} (named : ∀ f ∈ function, f.name.same name = true)
      (widens : failed = false → ∃ f, function = some f ∧ f.paramTypes.length = args.length ∧
        ∀ (i : Nat) (n : Node) (param : Ty), args[i]? = some n → f.paramTypes[i]? = some param →
          n.type = .int → (i ∈ coerced ↔ param = .float)) :
      ChecksCall (function, args.map Node.operand)
        (.mk mark (.call name (.mk {} (.arguments args)) type coerced failed))

theorem checkCall_passed {all : Bool} {table : Table} {name : Name} {args : List Operand}
    (passed : (checkCall all table name args).2.failed = false) :
    ∃ f, table.functionNamed name = some f ∧ f.paramTypes.length = args.length ∧
      (checkCall all table name args).2 = checkArguments all name 0 f.paramTypes args := by
  unfold checkCall at passed ⊢
  cases found : table.functionNamed name with
  | none => simp [found] at passed
  | some f =>
    simp only [found] at passed ⊢
    split at passed
    · cases passed
    · rename_i count
      rw [if_neg count]
      exact ⟨f, rfl, not_not.mp count, rfl⟩

theorem checksCall_made (name : Name) (items : List Action) (ns : List Node) (c : Context) :
    ChecksCall (c.table.functionNamed name, ns.map Node.operand)
      ((Action.call name items).made ns c).1 := by
  have node : ((Action.call name items).made ns c).1 =
      .mk { line := c.line } (.call name (.mk {} (.arguments ns))
        (checkCall c.reportAll c.table name (ns.map Node.operand)).1
        (checkCall c.reportAll c.table name (ns.map Node.operand)).2.coerced
        (checkCall c.reportAll c.table name (ns.map Node.operand)).2.failed) := rfl
  rw [node]
  refine .intro (fun f hf => ?_) fun passed => ?_
  · obtain ⟨scope, -, found⟩ := List.exists_of_findSome?_eq_some hf
    exact (Scope.mem_of_functionNamed found).2
  · obtain ⟨f, found, count, checked⟩ := checkCall_passed passed
    rw [checked] at passed
    refine ⟨f, found, by simpa using count, fun i n param hn hp int => ?_⟩
    have seen : (ns.map Node.operand)[i]? = some n.operand := by
      rw [List.getElem?_map, hn]
      rfl
    have marked := coerced_checkArguments_iff passed seen hp
    rw [Nat.zero_add] at marked
    rw [checked, marked]
    exact and_iff_right int

/-- The trace tells, in their order, of the checks of all calls in the nodes. It may tell of more:
the calls in the size of an array are checked and leave no node. -/
def Explains (t : List Event) (ns : List Node) : Prop :=
  ∃ checked, checked.Sublist (calledIn t) ∧
    List.Forall₂ ChecksCall checked (ns.flatMap Node.callNodes)

namespace Explains

variable {t t' : List Event} {ns ms : List Node}

theorem nil : Explains t [] := ⟨[], List.nil_sublist _, .nil⟩

theorem append (h : Explains t ns) (h' : Explains t' ms) : Explains (t ++ t') (ns ++ ms) := by
  obtain ⟨checked, told, calls⟩ := h
  obtain ⟨checked', told', calls'⟩ := h'
  refine ⟨checked ++ checked', ?_, ?_⟩
  · rw [calledIn_append]
    exact told.append told'
  · rw [List.flatMap_append]
    exact List.rel_append calls calls'

theorem of_same (h : Explains t ns) (told : (calledIn t).Sublist (calledIn t'))
    (calls : ms.flatMap Node.callNodes = ns.flatMap Node.callNodes) : Explains t' ms := by
  obtain ⟨checked, told', calls'⟩ := h
  exact ⟨checked, told'.trans told, calls ▸ calls'⟩

end Explains

theorem toList_head? {ns : List Node} (h : ns.length ≤ 1) : ns.head?.toList = ns := by
  match ns with
  | [] => rfl
  | [n] => rfl

theorem callNodes_made {action : Action} {items : List Action}
    (ho : action.operands? = some items) (hc : ∀ name args, action ≠ .call name args)
    {ns : List Node} (hl : ns.length = items.length) (c : Context) :
    (action.made ns c).1.callNodes = ns.flatMap Node.callNodes := by
  have seen : (ns.map Node.seen).map (·.1) = ns := by
    rw [List.map_map]
    exact List.map_id ns
  cases action <;> simp only [Action.operands?, reduceCtorEq, Option.some.injEq] at ho
  case operation op operands | paren operand | cast target operand =>
    change (Node.mk _ (.operation _ _ ((ns.map Node.seen).map (·.1)) _ _ _ _)).callNodes = _
    rw [seen]
    exact Node.callNodes_eq (by simp)
  case assign target value =>
    subst ho
    obtain ⟨t, v, rfl⟩ := List.length_eq_two.mp hl
    exact Node.callNodes_eq (by simp)
  case ret operand =>
    subst ho
    have alone : ns.head?.toList = ns := toList_head? (by rw [hl]; cases operand <;> simp)
    refine (Node.callNodes_eq (by simp)).trans ?_
    rw [Form.edges, alone]
  case call name args => exact absurd rfl (hc name args)
  case access name index =>
    subst ho
    obtain ⟨n, rfl⟩ := List.length_eq_one_iff.mp hl
    exact Node.callNodes_eq (by simp)
  case address operand | reference operand =>
    subst ho
    obtain ⟨n, rfl⟩ := List.length_eq_one_iff.mp hl
    exact Node.callNodes_eq (by simp [Form.ofWrapper])
  case arrayDecl | «variable» | constant | nop =>
    subst ho
    obtain rfl : ns = [] := List.length_eq_zero_iff.mp hl
    rfl

theorem callNodes_call (name : Name) (items : List Action) (ns : List Node) (c : Context) :
    ((Action.call name items).made ns c).1.callNodes =
      ns.flatMap Node.callNodes ++ [((Action.call name items).made ns c).1] := by
  rw [← Node.callNodesAll_eq]
  rfl

theorem calledIn_checked_call (name : Name) (items : List Action) (ns : List Node) (c : Context) :
    calledIn ((Action.call name items).checked ns c) =
      [(c.table.functionNamed name, ns.map Node.operand)] := by
  rw [Action.checked, calledIn_append, calledIn_reported]
  rfl

theorem Explains.statement {t t' : List Event} {mark : Mark} {form : Form Node} {ns : List Node}
    (h : Explains t ns) (told : calledIn t' = calledIn t) (edges : form.edges = ns)
    (hc : ∀ name args type coerced failed, form ≠ .call name args type coerced failed) :
    Explains t' [.mk mark form] := by
  refine h.of_same (by rw [told]) ?_
  rw [List.flatMap_singleton, Node.callNodes_eq hc, edges]

theorem Run.explains {task : Task} {c d : Context} {t : List Event} {ns : List Node}
    (h : Run task c t ns d) : Explains t ns := by
  induction h with
  | nil | noBlock | noBinding | noLine => exact .nil
  | cons _ _ ih ih' => exact ih.append ih'
  | block _ _ _ ih ih' => exact (ih.statement rfl rfl (by simp)).append ih'
  | @binding type name _ _ vs _ n _ d e _ t _ _ given bound _ ih ih' =>
    obtain ⟨rfl, rfl⟩ := Prod.ext_iff.mp bound
    have alone := toList_head? (length_of_run_option given)
    have edges : (vs.head?.map Node.seen).map (·.1) = vs.head? := by cases vs.head? <;> rfl
    refine Explains.append (ih.statement (by simp) ?_ (by simp)) ih'
    simp [Form.edges, edges, alone]
  | @line _ _ _ _ n _ _ _ _ _ t marks _ _ mark _ ih ih' =>
    have here : Explains (t ++ marks) [n] := ih.of_same (by simp) rfl
    exact here.append ih'
  | lined _ ih => exact ih
  | @check action items ns _ d t operands _ inner ih =>
    have hl := length_of_exec_buildAll (exec_of_run inner)
    by_cases hc : ∀ name args, action ≠ .call name args
    · refine ih.of_same (by simp) ?_
      rw [List.flatMap_singleton, callNodes_made operands hc hl]
    · simp only [not_forall, not_not] at hc
      obtain ⟨name, args, rfl⟩ := hc
      obtain ⟨checked, told, calls⟩ := ih
      refine ⟨checked ++ [(d.table.functionNamed name, ns.map Node.operand)], ?_, ?_⟩
      · rw [calledIn_append, calledIn_checked_call]
        exact told.append (.refl _)
      · rw [List.flatMap_singleton, callNodes_call]
        exact List.rel_append calls (.cons (checksCall_made name args ns d) .nil)
  | declaration _ _ ih => exact ih.statement rfl rfl (by simp)
  | @sizedArray type name _ text _ m _ d e t _ _ _ made _ =>
    obtain ⟨rfl, rfl⟩ := Prod.ext_iff.mp made
    exact ⟨[], List.nil_sublist _, .nil⟩
  | scope _ ih => exact ih
  | @conditional _ _ _ n b m bs _ _ e f t t' _ inside made ih ih' =>
    obtain ⟨rfl, rfl⟩ := Prod.ext_iff.mp made
    have alone := toList_head? (length_of_run_branches inside)
    refine (ih.append ih').statement (by simp) ?_ (by simp)
    simp [Form.edges, alone, Node.seen]
  | @loop _ _ _ _ n b m is us _ _ _ _ _ d e t₁ t₂ t₃ t₄ first condition next inside leave made
      ih₁ ih₂ ih₃ ih₄ =>
    obtain ⟨rfl, rfl⟩ := Prod.ext_iff.mp made
    have alone := toList_head? (length_of_run_option first)
    have alone' := toList_head? (length_of_run_option next)
    refine (((ih₁.append ih₂).append ih₃).append ih₄).statement (by simp) ?_ (by simp)
    simp [Form.edges, alone, alone', Node.seen]
  | prototype | emptyBody => exact ⟨[], List.nil_sublist _, .nil⟩
  | @function _ _ params _ _ _ ns _ _ _ _ t _ _ _ _ ih =>
    have body : Explains t [Build.block "Body" ns] := ih.statement rfl rfl (by simp)
    have parts : Explains t [.mk {} (.signature (signatureOf params)), Build.block "Body" ns] :=
      body.of_same (.refl _) rfl
    exact parts.statement (by simp) rfl (by simp)

/-- In the nodes that any documents are built into, every node widens exactly what it has to; for
calls this is said of the functions that the run of the build finds under their names. -/
theorem widens_exactly {program : List Value} {reportAll : Bool} {nodes : List Node} {d : Context}
    (built : exec (buildAll (program.map .ofValue)) { reportAll } = (.ok nodes, d)) :
    (∀ n ∈ nodes, n.Every Node.WidensExactly) ∧
      (∃ trace, Run (.all (program.map .ofValue)) { reportAll } trace nodes d) ∧
      ∀ trace, Run (.all (program.map .ofValue)) { reportAll } trace nodes d →
        Explains trace nodes := by
  refine ⟨fun n hn => ?_, ?_, fun trace run => run.explains⟩
  · have widens := (invariant_widens.documents program (c := { reportAll }) .empty).2 nodes d built
    exact (widens n hn).imp fun _ h => h.2
  · refine runs_all (fun a ha => ?_) { reportAll } nodes d built
    obtain ⟨v, -, rfl⟩ := List.mem_map.mp ha
    exact (Action.wellFormed_ofValue v).runs

/-- A sum that a float widens from behind, an integer assigned to a float, and a call with one
integer for a float and one for an integer. -/
def widenings : List Value :=
  let constant (type value : String) : Value :=
    .object [("node", .string "const"), ("type", .string type), ("value", .string value)]
  let assign (value : Value) : Value :=
    .object [("node", .string "assign"),
      ("target", .object [("node", .string "var"), ("name", .string "x")]), ("value", value)]
  [.object [("node", .string "function"), ("returns", .string "void"), ("name", .string "g"),
      ("params", .list [.list [.string "float", .string "a"], .list [.string "int", .string "b"]])],
    .object [("node", .string "declaration"), ("type", .string "float"),
      ("bindings", .list [.object [("name", .string "x")]])],
    assign (.object [("node", .string "op"), ("op", .string "+"),
      ("operands", .list [constant "int" "1", constant "int" "2", constant "float" "1.5"])]),
    assign (constant "int" "3"),
    .object [("node", .string "call"), ("name", .string "g"),
      ("args", .list [constant "int" "4", constant "int" "5"])]]

theorem widens_exactly_mixed :
    ∃ nodes d, exec (buildAll (widenings.map .ofValue)) {} = (.ok nodes, d) ∧
      (Node.mk {} (.block "Program" nodes)).text 0 =
        "void g(float a, int b);\nfloat x;\nx = ([float] 1 + [float] 2 + 1.5);\n" ++
          "x = [float] 3;\ng([float] 4, 5)" ∧
      (∀ n ∈ nodes, n.Every Node.WidensExactly) ∧
      (∃ trace, Run (.all (widenings.map .ofValue)) {} trace nodes d) ∧
      ∀ trace, Run (.all (widenings.map .ofValue)) {} trace nodes d → Explains trace nodes := by
  have code : (exec (buildAll (widenings.map .ofValue)) {}).1.toOption.map
      (fun nodes => (Node.mk {} (.block "Program" nodes)).text 0) =
        some ("void g(float a, int b);\nfloat x;\nx = ([float] 1 + [float] 2 + 1.5);\n" ++
          "x = [float] 3;\ng([float] 4, 5)") := by
    decide +kernel
  cases built : exec (buildAll (widenings.map .ofValue)) {} with
  | mk result d =>
    rw [built] at code
    cases result with
    | error fault => cases code
    | ok nodes => exact ⟨nodes, d, rfl, Option.some.inj code, widens_exactly built⟩

end Treewright
