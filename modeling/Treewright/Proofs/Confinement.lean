import Treewright.Proofs.Account
import Treewright.Proofs.Simulation
set_option autoImplicit false

namespace Treewright

open Build

/-- No part of the type stands for a failure. -/
def Ty.settled : Ty → Bool
  | .any => false
  | .array element _ => element.settled
  | .pointer target => target.settled
  | .reference target => target.settled
  | .int | .float | .bool | .void | .foreign _ => true

def Ty.Solid (t : Ty) : Prop := t = .any ∨ t.settled = true

theorem Ty.settled_of_isWritten {t : Ty} (h : t.isWritten = true) : t.settled = true := by
  cases t <;> simp_all [isWritten, settled]

theorem Ty.Stored.settled {t : Ty} (h : t.Stored) : t.settled = true := by
  cases h with
  | plain hw => exact Ty.settled_of_isWritten hw
  | array size hw =>
    rw [Ty.settled]
    exact Ty.settled_of_isWritten hw

theorem Ty.Solid.of_isWritten {t : Ty} (h : t.isWritten = true) : t.Solid :=
  .inr (Ty.settled_of_isWritten h)

structure Operand.Confined (o : Operand) : Prop where
  clean : o.Clean
  solid : o.type.Solid

namespace Operand.Confined

variable {o : Operand}

theorem of_isWritten {type : Ty} (h : type.isWritten = true) (failed : Bool) :
    (Operand.mk type failed).Confined := ⟨.of_isWritten h failed, .of_isWritten h⟩

theorem settled (h : o.Confined) (hf : o.failed = false) : o.type.settled = true :=
  h.solid.resolve_left (h.clean.ne_any hf)

theorem settled_of_spoiled (h : o.Confined) (hs : ¬o.spoiled = true) : o.type.settled = true := by
  rw [h.clean.spoiled_eq, Bool.not_eq_true] at hs
  exact h.settled hs

end Operand.Confined

/-- The types that a mismatch speaks of are settled. Only an operand without a value may be held
against the type that stands for a failure. -/
def Problem.Confined : Problem → Prop
  | .operands _ expected actual =>
    actual.settled = true ∧ (expected.settled = true ∨ expected = .any ∧ actual = .void)
  | .assignment expected actual | .param _ expected actual | .index expected actual =>
    actual.settled = true ∧ expected.settled = true
  | .test actual => actual.settled = true
  | .redeclared _ | .redeclaredFunction _ | .undeclared _ | .neverDefined _ | .paramCount _ _ _
  | .notArray | .stated _ _ => True

theorem Fold.run_of_step {I : Fold → Prop} {fixed : Bool} {operands : List Operand}
    (step : ∀ f index, ∀ o ∈ operands, I f → I (f.step fixed index o)) {f : Fold} (index : Nat)
    (h : I f) : I (f.run fixed index operands) := by
  induction operands generalizing f index with
  | nil => exact h
  | cons o operands ih =>
    rw [Fold.run]
    refine ih (fun f index o' ho' => step f index o' (by simp [ho'])) (index + 1) ?_
    exact step f index o (by simp) h

/-- The fold over the operands expects nothing, or has held an operand against the type that stands
for a failure, only when it began without a value. -/
structure Fold.Began (start : Ty) (f : Fold) : Prop where
  void : f.expected = .void → start = .void
  any : ∀ a, f.mismatch = some (.any, a) → a = .void ∧ start = .void

namespace Fold.Began

variable {start : Ty} {f : Fold}

theorem reject (h : f.Began start) {e : Ty} (he : e ≠ .any) (a : Ty) :
    (f.reject e a).Began start where
  void := h.void
  any a' hm := by
    cases hm
    exact absurd rfl he

theorem step (h : f.Began start) (fixed : Bool) (index : Nat) (o : Operand) :
    (f.step fixed index o).Began start := by
  unfold Fold.step
  split
  · exact ⟨h.void, h.any⟩
  split
  · exact h
  rename_i hp
  have he : f.expected ≠ .any := fun ha => hp (by simp [ha])
  split
  · by_cases hv : f.expected = .void
    · refine ⟨h.void, fun a hm => ?_⟩
      simp only [Fold.reject, if_pos hv, Option.some.injEq, Prod.mk.injEq, true_and] at hm
      exact ⟨hm.symm, h.void hv⟩
    · rw [if_neg hv]
      exact h.reject he .void
  rename_i hv
  split
  · exact h
  split
  · exact ⟨h.void, h.any⟩
  split
  · exact ⟨fun ht => absurd ht hv, h.any⟩
  · exact h.reject he o.type

end Fold.Began

theorem began_checkOperands (given : Option Ty) (operands : List Operand) :
    (checkOperands given operands).Began
      (given.getD ((operands.head?.map (·.type)).getD .any)) := by
  refine Fold.run_of_step (fun f index o _ hf => hf.step _ index o) 0 ⟨id, fun _ hm => ?_⟩
  cases hm

/-- An operation holds an operand against the type that stands for a failure only when its first
operand has no value. -/
theorem head_void_of_mismatch_any {style : Style} {operands : List Operand} {op : Op} {actual : Ty}
    (h : .operands op .any actual ∈
      (checkOperands (Form.operandType style none) operands).problems op) :
    actual = .void ∧ operands.head?.map (·.type) = some .void := by
  unfold Fold.problems at h
  split at h
  · rename_i e a hm
    cases List.mem_singleton.mp h
    obtain ⟨rfl, hs⟩ := (began_checkOperands _ operands).any _ hm
    refine ⟨rfl, ?_⟩
    cases style with
    | connective => cases hs
    | _ =>
      cases operands with
      | nil => cases hs
      | cons o operands => exact congrArg some hs
  · cases h

structure Fold.Confined (f : Fold) : Prop where
  solid : f.expected.Solid
  mismatch : ∀ e a, f.mismatch = some (e, a) →
    a.settled = true ∧ (e.settled = true ∨ e = .any ∧ a = .void)

namespace Fold.Confined

variable {f : Fold}

theorem reject (h : f.Confined) {e a : Ty} (ha : a.settled = true)
    (he : e.settled = true ∨ e = .any ∧ a = .void) : (f.reject e a).Confined where
  solid := h.solid
  mismatch e' a' hm := by
    cases hm
    exact ⟨ha, he⟩

theorem step (h : f.Confined) {o : Operand} (ho : o.Confined) (fixed : Bool) (index : Nat) :
    (f.step fixed index o).Confined := by
  unfold Fold.step
  split
  · exact ⟨h.solid, h.mismatch⟩
  split
  · exact h
  rename_i hp
  have hp : f.expected ≠ .any ∧ o.type ≠ .any := by simpa using hp
  have he := h.solid.resolve_left hp.1
  have ha := ho.solid.resolve_left hp.2
  split
  · refine h.reject rfl ?_
    split
    · exact .inr ⟨rfl, rfl⟩
    · exact .inl he
  split
  · exact h
  split
  · exact ⟨h.solid, h.mismatch⟩
  split
  · exact ⟨.inr ha, h.mismatch⟩
  · exact h.reject ha (.inl he)

theorem problems (h : f.Confined) (op : Op) : ∀ p ∈ f.problems op, p.Confined := by
  intro p hp
  unfold Fold.problems at hp
  split at hp
  · rename_i e a hm
    rw [List.mem_singleton.mp hp]
    exact h.mismatch e a hm
  · cases hp

end Fold.Confined

theorem confined_checkOperands (style : Style) {operands : List Operand}
    (ho : ∀ o ∈ operands, o.Confined) :
    (checkOperands (Form.operandType style none) operands).Confined := by
  refine Fold.run_of_step (fun f index o hm hf => hf.step (ho o hm) _ index) 0
    ⟨?_, fun _ _ hm => by cases hm⟩
  cases style with
  | connective => exact .inr rfl
  | _ =>
    cases operands with
    | nil => exact .inl rfl
    | cons o operands => exact (ho o (by simp)).solid

theorem confined_verdict {o : Operand} (ho : o.Confined) (passes : Prop) [Decidable passes]
    {problem : Problem} (h : o.type.settled = true → problem.Confined) :
    ∀ p ∈ (if o.spoiled then Verdict.mk true [] else if passes then ⟨false, []⟩ else
      ⟨true, [problem]⟩).problems, p.Confined := by
  split
  · simp
  · rename_i hs
    split
    · simp
    · simp only [List.mem_singleton, forall_eq]
      exact h (ho.settled_of_spoiled hs)

theorem confined_checkInitial {declared : Ty} (hd : declared.settled = true) {value : Operand}
    (hv : value.Confined) : ∀ p ∈ (checkInitial declared value).problems, p.Confined :=
  confined_verdict hv _ fun h => ⟨h, hd⟩

theorem confined_checkTest {condition : Operand} (h : condition.Confined) :
    ∀ p ∈ (checkTest condition).problems, p.Confined := confined_verdict h _ fun hs => hs

theorem confined_checkIndex {index : Operand} (h : index.Confined) :
    ∀ p ∈ (checkIndex index).problems, p.Confined := confined_verdict h _ fun hs => ⟨hs, rfl⟩

theorem confined_checkAssignment {target value : Operand} (ht : target.Confined)
    (hv : value.Confined) : ∀ p ∈ (checkAssignment target value).2.problems, p.Confined := by
  unfold checkAssignment
  split
  · simp
  · rename_i hf
    have hf : target.failed = false ∧ value.failed = false := by simpa using hf
    split
    · simp
    · simp only [List.mem_singleton, forall_eq]
      exact ⟨hv.settled hf.2, ht.settled hf.1⟩

theorem confined_checkVariable {table : Table} (sound : table.Sound) (name : Name) :
    (checkVariable table name).1.Solid ∧
      ∀ p ∈ (checkVariable table name).2.problems, p.Confined := by
  unfold checkVariable
  cases h : table.lookup name with
  | none => exact ⟨.inl rfl, by simp [Problem.Confined]⟩
  | some type => exact ⟨.inr (sound.lookup h).settled, by simp⟩

theorem confined_checkArray {table : Table} (sound : table.Sound) (name : Name) :
    (checkArray table name).1.Solid ∧ ∀ p ∈ (checkArray table name).2.problems, p.Confined := by
  unfold checkArray
  cases h : table.lookup name with
  | none => exact ⟨.inl rfl, by simp [Problem.Confined]⟩
  | some type =>
    have hs := (sound.lookup h).settled
    cases type with
    | array element size => exact ⟨.inr hs, by simp⟩
    | _ => exact ⟨.inl rfl, by simp [Problem.Confined]⟩

theorem confined_checkArguments (all : Bool) (name : Name) (index : Nat) {params : List Ty}
    (hp : ∀ p ∈ params, p.settled = true) {args : List Operand} (ha : ∀ a ∈ args, a.Confined) :
    ∀ p ∈ (checkArguments all name index params args).problems, p.Confined := by
  induction params generalizing index args with
  | nil => simp [checkArguments]
  | cons param params ih =>
    cases args with
    | nil => simp [checkArguments]
    | cons arg args =>
      have hrest := ih (index + 1) (fun p h => hp p (by simp [h]))
        (fun a (h : a ∈ args) => ha a (by simp [h]))
      rw [checkArguments]
      split
      · exact hrest
      · rename_i hs
        have hproblem : (Problem.param name param arg.type).Confined :=
          ⟨(ha arg (by simp)).settled_of_spoiled hs, hp param (by simp)⟩
        split
        · exact hrest
        · split
          · exact hrest
          · cases all with
            | true =>
              intro p h
              rcases List.mem_cons.mp h with rfl | h
              · exact hproblem
              · exact hrest p h
            | false =>
              intro p h
              rw [List.mem_singleton.mp h]
              exact hproblem

theorem confined_checkCall (all : Bool) {table : Table} (sound : table.Sound) (name : Name)
    {args : List Operand} (ha : ∀ a ∈ args, a.Confined) :
    (checkCall all table name args).1.Solid ∧
      ∀ p ∈ (checkCall all table name args).2.problems, p.Confined := by
  unfold checkCall
  cases h : table.functionNamed name with
  | none => exact ⟨.inl rfl, by simp [Problem.Confined]⟩
  | some symbol =>
    simp only
    split
    · exact ⟨.inl rfl, by simp [Problem.Confined]⟩
    · obtain ⟨-, ⟨params, returns, hshape, hreturns, hparams⟩, -⟩ := sound.functionNamed h
      have hr : symbol.returns?.getD .void = returns := by simp [Symbol.returns?, hshape]
      have ht : symbol.paramTypes = params.map (·.2) := by
        simp [Symbol.paramTypes, Symbol.params?, hshape]
      rw [hr, ht]
      refine ⟨.of_isWritten hreturns, confined_checkArguments all name 0 (fun p hp => ?_) ha⟩
      obtain ⟨q, hq, rfl⟩ := List.mem_map.mp hp
      exact Ty.settled_of_isWritten (hparams q hq)

structure Context.Confined (c : Context) : Prop where
  sound : c.table.Sound
  symbols : ∀ s ∈ c.table.symbols, s.IsVariable ∨ s.IsSignature
  problems : ∀ d ∈ c.log.diagnostics, d.problem.Confined

namespace Context.Confined

variable {c : Context}

theorem report (h : c.Confined) {problems : List Problem} (hp : ∀ p ∈ problems, p.Confined) :
    (c.report problems).Confined where
  sound := h.sound
  symbols := h.symbols
  problems d hd := by
    simp only [Context.report, Log.diagnostics_reportAll, List.mem_append, List.mem_map] at hd
    rcases hd with hd | ⟨p, hm, rfl⟩
    · exact h.problems d hd
    · exact hp p hm

theorem declare (h : c.Confined) (name : Name) {type : Ty} (line : Int) (ht : type.Stored) :
    (c.declare name type line).2.Confined := by
  have hs := steps_sound.declare c name line ht h.sound
  rcases c.declare_cases name type line with ⟨-, he⟩ | ⟨-, he⟩
  · rw [he] at hs ⊢
    refine ⟨hs, fun s hm => ?_, h.problems⟩
    rcases List.mem_append.mp hm with hm | hm
    · exact h.symbols s hm
    · rw [List.mem_singleton.mp hm]
      exact .inl ⟨type, rfl, ht⟩
  · rw [he]
    exact h.report (by simp [Problem.Confined])

theorem declareFunction (h : c.Confined) (name : Name) {params : List (Ty × Value)} {returns : Ty}
    (line : Int) (hp : ∀ p ∈ params, p.1.isWritten = true) (hr : returns.isWritten = true) :
    (c.declareFunction name params returns line).2.Confined := by
  have hs := steps_sound.declareFunction c name line hp hr h.sound
  rcases c.declareFunction_cases name params returns line with ⟨-, he⟩ | ⟨s, -, ⟨-, he⟩ | ⟨-, he⟩⟩
  · rw [he] at hs ⊢
    refine ⟨hs, fun s hm => ?_, h.problems⟩
    rcases List.mem_append.mp hm with hm | hm
    · exact h.symbols s hm
    · rw [List.mem_singleton.mp hm]
      refine .inr ⟨_, returns, by rw [Ty.given?_of_isWritten hr], hr, fun p hp' => ?_⟩
      obtain ⟨q, hq, rfl⟩ := List.mem_map.mp hp'
      exact hp q hq
  · rw [he]
    exact h
  · rw [he]
    exact h.report (by simp [Problem.Confined])

theorem define (h : c.Confined) {name : Name} {table : Table}
    (hd : c.table.define? name = some table) : ({ c with table } : Context).Confined := by
  have hs := steps_sound.define hd h.sound
  obtain ⟨s, -, rfl⟩ := Option.map_eq_some_iff.mp hd
  refine ⟨hs, ?_, h.problems⟩
  split <;> exact h.symbols

end Context.Confined

theorem solid_wrapType (wrap : Wrap) {type : Ty} (h : type.Solid) :
    (Form.wrapType wrap type).Solid := by
  by_cases ha : type = .any
  · exact .inl (by simp [Form.wrapType, ha])
  · have hs := h.resolve_left ha
    refine .inr ?_
    cases wrap <;> simp [Form.wrapType, Ty.isError, ha, Ty.settled, hs]

theorem confined_operation (style : Style) (hs : ∀ target, style ≠ .cast target) (op : Op)
    {ns : List Node} (hn : ∀ n ∈ ns, n.operand.Confined) {c : Context} (h : c.Confined) :
    (operationNode style op ns c).1.type.Solid ∧ (operationNode style op ns c).2.Confined := by
  have ho : ∀ o ∈ ns.map Node.operand, o.Confined := by simpa using hn
  have hc := confined_checkOperands style ho
  rw [operationNode_eq hs]
  refine ⟨?_, h.report (hc.problems op)⟩
  cases style with
  | cast target => exact absurd rfl (hs target)
  | _ =>
    simp only [Form.ofFold, Prod.map_fst, Node.type, operationType]
    split
    · exact .inl rfl
    · first
      | exact .inr rfl
      | exact hc.solid

theorem confined_cast {target : Ty} (ht : target.isWritten = true) (op : Op) (n : Node)
    {c : Context} (h : c.Confined) :
    (operationNode (.cast target) op [n] c).1.type.Solid ∧
      (operationNode (.cast target) op [n] c).2.Confined := by
  have hnone : ∀ p ∈ ([] : List Problem), p.Confined := by simp
  exact ⟨.of_isWritten ht, h.report hnone⟩

theorem confined_made {action : Action} {items : List Action} (ho : action.operands? = some items)
    (proper : action.Proper) {ns : List Node} (hl : ns.length = items.length)
    (hn : ∀ n ∈ ns, n.operand.Confined) {c : Context} (h : c.Confined) :
    (action.made ns c).1.type.Solid ∧ (action.made ns c).2.Confined := by
  cases action <;> simp only [Action.operands?, reduceCtorEq, Option.some.injEq] at ho
  case arrayDecl type name size =>
    exact ⟨.of_isWritten proper, h.declare name c.line (.array size proper)⟩
  case «variable» name =>
    obtain ⟨hs, hp⟩ := confined_checkVariable h.sound name
    exact ⟨hs, h.report hp⟩
  case constant type value => exact ⟨.of_isWritten proper, h⟩
  case operation op operands => exact confined_operation _ (styleOf_ne_cast op ns.length) _ hn h
  case paren operand => exact confined_operation .paren (by simp) _ hn h
  case cast target operand =>
    subst ho
    obtain ⟨n, rfl⟩ := List.length_eq_one_iff.mp hl
    exact confined_cast proper _ n h
  case assign target value =>
    subst ho
    obtain ⟨t, v, rfl⟩ := List.length_eq_two.mp hl
    exact ⟨.inr rfl, h.report (confined_checkAssignment (hn t (by simp)) (hn v (by simp)))⟩
  case ret operand =>
    subst ho
    cases operand with
    | none =>
      obtain rfl : ns = [] := List.length_eq_zero_iff.mp hl
      exact ⟨.inr rfl, h⟩
    | some a =>
      obtain ⟨n, rfl⟩ := List.length_eq_one_iff.mp hl
      exact ⟨(hn n (by simp)).solid, h⟩
  case call name args =>
    have ha : ∀ a ∈ ns.map Node.operand, a.Confined := by simpa using hn
    obtain ⟨hs, hp⟩ := confined_checkCall c.reportAll h.sound name ha
    exact ⟨hs, h.report hp⟩
  case access name index =>
    subst ho
    obtain ⟨i, rfl⟩ := List.length_eq_one_iff.mp hl
    obtain ⟨hs, hp⟩ := confined_checkArray h.sound name
    have hi := confined_checkIndex (hn i (by simp))
    refine ⟨hs, h.report fun p hm => ?_⟩
    rcases List.mem_append.mp hm with hm | hm
    · exact hp p hm
    · exact hi p hm
  case address operand | reference operand =>
    subst ho
    obtain ⟨n, rfl⟩ := List.length_eq_one_iff.mp hl
    exact ⟨solid_wrapType _ (hn n (by simp)).solid, h⟩
  case nop => exact ⟨.inr rfl, h⟩

theorem confined_bound {type : Ty} (ht : type.isWritten = true) (name : Name) {value : Option Node}
    (hv : ∀ n ∈ value, n.operand.Confined) {c : Context} (h : c.Confined) :
    (boundNode type name value c).2.Confined := by
  refine (h.declare name c.line (.plain ht)).report ?_
  cases value with
  | none => simp
  | some n => exact confined_checkInitial (Ty.settled_of_isWritten ht) (hv n rfl)

theorem invariant_confined : Invariant Context.Confined (Node.Every (·.operand.Confined)) where
  advance h line := ⟨h.sound, h.symbols, by simpa [Context.advanceTo] using h.problems⟩
  enter h name := ⟨h.sound.enter name, h.symbols, h.problems⟩
  leave h hl := by
    have hs := h.sound.leave hl
    obtain ⟨scope, outer, -, rfl⟩ := Context.leave?_eq hl
    exact ⟨hs, h.symbols, h.problems⟩
  param h name _ ht := h.declare name _ (.plain ht)
  declareFunction h name _ _ hp hr := h.declareFunction name _ hp hr
  define h _ _ hd := h.define hd
  made {action items} ho proper ns hl hn c h := by
    have hop : ∀ n ∈ ns, n.operand.Confined := fun n hm => (hn n hm).here
    obtain ⟨hsolid, hc⟩ := confined_made ho proper hl hop h
    have hclean := (accounts_made ho hl proper h.sound fun n hm => (hop n hm).clean).clean
    exact ⟨.made ⟨hclean, hsolid⟩ (.of_isWritten rfl _) hn, hc⟩
  bound ht name value hv c h :=
    ⟨.bound (.of_isWritten ht _) hv, confined_bound ht name (fun n hn => (hv n hn).here) h⟩
  declaration ht _ _ _ hn _ := .intro (.of_isWritten ht _) hn
  block _ _ hn := .intro (.of_isWritten rfl _) hn
  conditional hn hb _ hr _ h :=
    ⟨.conditional (.of_isWritten rfl _) hn hb hr, h.report (confined_checkTest hn.here)⟩
  loop hi _ hn hu _ hb _ h :=
    ⟨.loop (.of_isWritten rfl _) hi hn hu hb, h.report (confined_checkTest hn.here)⟩
  function hr _ _ _ _ hb _ := .function (.of_isWritten hr _) (.of_isWritten rfl _) hb
  nop := .intro (.of_isWritten rfl _) fun _ hm => by cases hm

/-- No type of the symbol stands for a failure in any part. -/
structure Symbol.Settled (s : Symbol) : Prop where
  type : ∀ t ∈ s.type?, t.settled = true
  params : ∀ t ∈ s.paramTypes, t.settled = true
  returns : ∀ t ∈ s.returns?, t.settled = true

theorem Symbol.IsVariable.settled {s : Symbol} (h : s.IsVariable) : s.Settled := by
  obtain ⟨type, hshape, ht⟩ := h
  refine ⟨?_, ?_, ?_⟩
  · simpa [type?, hshape, ht.given?] using ht.settled
  · simp [paramTypes, params?, hshape]
  · simp [returns?, hshape]

theorem Symbol.IsSignature.settled {s : Symbol} (h : s.IsSignature) : s.Settled := by
  obtain ⟨params, returns, hshape, hr, hp⟩ := h
  have hr := Ty.settled_of_isWritten hr
  refine ⟨?_, fun t ht => ?_, ?_⟩
  · simpa [type?, hshape] using hr
  · simp only [paramTypes, params?, hshape, Option.getD_some, List.mem_map] at ht
    obtain ⟨p, hm, rfl⟩ := ht
    exact Ty.settled_of_isWritten (hp p hm)
  · simpa [returns?, hshape] using hr

/-- Let any documents be built, well or up to a fault. Then the symbols have settled types; a node
has the type that stands for a failure only when it failed, and has it nowhere inside another type;
and of the types that a mismatch speaks of none stands for a failure, but for the type expected of
an operand without a value, which is the first of its operation. -/
theorem any_confined_to_failures (reportAll : Bool) (program : List Value) :
    let built := exec (buildAll (program.map .ofValue)) { reportAll }
    (∀ s ∈ built.2.table.symbols, s.Settled) ∧
      (∀ ns, built.1 = .ok ns → ∀ n ∈ ns, n.Every fun m =>
        (m.type = .any → m.error = true) ∧ (m.type ≠ .any → m.type.settled = true)) ∧
      (∀ d ∈ built.2.log.diagnostics, d.problem.Confined) ∧
      ∀ style op (operands : List Operand) actual,
        .operands op .any actual ∈
            (checkOperands (Form.operandType style none) operands).problems op →
          operands.head?.map (·.type) = some .void := by
  intro built
  have hstart : Context.Confined { reportAll } := ⟨.empty, by simp, by simp⟩
  obtain ⟨hc, hn⟩ := invariant_confined.documents program hstart
  refine ⟨fun s hs => ?_, fun ns hns n hm => ?_, hc.problems, fun _ _ _ _ h => ?_⟩
  · exact (hc.symbols s hs).elim (·.settled) (·.settled)
  · have hevery := hn ns built.2 (by rw [← hns]) n hm
    exact hevery.imp fun m h => ⟨h.clean.failed, h.solid.resolve_left⟩
  · exact (head_void_of_mismatch_any h).2

def valuelessSum : List Value :=
  let call : Value := .object [("node", .string "call"), ("name", .string "f")]
  [.object [("node", .string "function"), ("name", .string "f"), ("returns", .string "void"),
      ("body", .list [])],
    .object [("node", .string "op"), ("op", .string "+"), ("operands", .list [call, call])],
    .object [("node", .string "address"), ("operand",
      .object [("node", .string "var"), ("name", .string "x")])]]

/-- The sum expects the type that stands for a failure of its first operand, which has no value. The
address has that type as a whole, and both have failed. -/
theorem any_confined_to_failures_valueless :
    let built := exec (buildAll (valuelessSum.map .ofValue)) {}
    built.1.toOption.map (·.map fun n => (n.type, n.error)) =
        some [(.void, false), (.any, true), (.any, true)] ∧
      built.2.log.diagnostics.map (·.problem) =
        [.operands .plus .any .void, .undeclared (.text "x")] ∧
      (∀ s ∈ built.2.table.symbols, s.Settled) ∧
      (∀ d ∈ built.2.log.diagnostics, d.problem.Confined) ∧
      [Operand.mk .void false, .mk .void false].head?.map (·.type) = some .void := by
  refine ⟨by decide +kernel, by decide +kernel, ?_⟩
  obtain ⟨symbols, -, problems, first⟩ := any_confined_to_failures true valuelessSum
  exact ⟨symbols, problems, first .plain .plus _ .void (by decide)⟩

end Treewright
