import Mathlib.Data.List.Basic
import Treewright.Proofs.Divergence
import Treewright.Proofs.Documents
import Treewright.Proofs.Sessions
set_option autoImplicit false

namespace Treewright

open Build

/-- The argument is sound by itself, and its type does not go with the parameter. -/
def Operand.mismatches (arg : Operand) (param : Ty) : Bool :=
  !arg.spoiled && !param.isAssignable arg.type

/-- The argument is a sound integer for a float. -/
def Operand.widens (arg : Operand) (param : Ty) : Bool := !arg.spoiled && param.canCoerce arg.type

/-- An argument to be widened comes after a mismatched one. -/
def SkipsWidening (params : List Ty) (args : List Operand) : Prop :=
  ∃ x y, [x, y].Sublist (params.zip args) ∧ x.2.mismatches x.1 = true ∧ y.2.widens y.1 = true

theorem skipsWidening_cons {param : Ty} {params : List Ty} {arg : Operand} {args : List Operand} :
    SkipsWidening (param :: params) (arg :: args) ↔
      SkipsWidening params args ∨
        (arg.mismatches param = true ∧ ∃ y ∈ params.zip args, y.2.widens y.1 = true) := by
  simp only [SkipsWidening, List.zip_cons_cons, List.sublist_cons_iff]
  constructor
  · rintro ⟨x, y, h | ⟨r, hr, hs⟩, hx, hy⟩
    · exact .inl ⟨x, y, h, hx, hy⟩
    · cases hr
      exact .inr ⟨hx, y, List.singleton_sublist.mp hs, hy⟩
  · rintro (⟨x, y, h, hx, hy⟩ | ⟨hx, y, hm, hy⟩)
    · exact ⟨x, y, .inl h, hx, hy⟩
    · exact ⟨(param, arg), y, .inr ⟨[y], rfl, List.singleton_sublist.mpr hm⟩, hx, hy⟩

instance decidableSkipsWidening :
    (params : List Ty) → (args : List Operand) → Decidable (SkipsWidening params args)
  | [], _ => isFalse (by simp [SkipsWidening])
  | _ :: _, [] => isFalse (by simp [SkipsWidening])
  | _ :: params, _ :: args =>
    have := decidableSkipsWidening params args
    decidable_of_iff _ skipsWidening_cons.symm

theorem SkipsWidening.exists_widens {params : List Ty} {args : List Operand}
    (h : SkipsWidening params args) : ∃ y ∈ params.zip args, y.2.widens y.1 = true := by
  obtain ⟨x, y, hs, -, hy⟩ := h
  exact ⟨y, hs.subset (by simp), hy⟩

theorem checkArguments_cons (all : Bool) (name : Name) (i : Nat) (param : Ty) (params : List Ty)
    (arg : Operand) (args : List Operand) :
    (checkArguments all name i (param :: params) (arg :: args)).coerced =
        (if arg.widens param then [i] else []) ++
          (if arg.mismatches param && !all then []
            else (checkArguments all name (i + 1) params args).coerced) ∧
      (checkArguments all name i (param :: params) (arg :: args)).failed =
        (arg.spoiled || arg.mismatches param ||
          (checkArguments all name (i + 1) params args).failed) := by
  rw [checkArguments]
  cases hs : arg.spoiled with
  | true => simp [Operand.widens, Operand.mismatches, hs]
  | false =>
    cases ha : param.agrees arg.type with
    | true =>
      have hc : param.canCoerce arg.type = false := by
        rw [Bool.eq_false_iff]
        intro hc
        obtain ⟨rfl, ht⟩ := (Ty.canCoerce_iff _ _).mp hc
        rw [ht] at ha
        cases ha
      simp [Operand.widens, Operand.mismatches, Ty.isAssignable, hs, ha, hc]
    | false =>
      cases hc : param.canCoerce arg.type <;> cases all <;>
        simp [Operand.widens, Operand.mismatches, Ty.isAssignable, hs, ha, hc]

theorem failed_checkArguments (name : Name) (i : Nat) (params : List Ty) (args : List Operand) :
    (checkArguments false name i params args).failed =
      (checkArguments true name i params args).failed := by
  induction params generalizing i args with
  | nil => rfl
  | cons param params ih =>
    cases args with
    | nil => rfl
    | cons arg args => rw [(checkArguments_cons ..).2, (checkArguments_cons ..).2, ih]

theorem mem_coerced_checkArguments {all : Bool} {name : Name} {i j : Nat} {params : List Ty}
    {args : List Operand} (h : j ∈ (checkArguments all name i params args).coerced) :
    i ≤ j ∧ j < i + args.length := by
  induction params generalizing i args with
  | nil => simp [checkArguments] at h
  | cons param params ih =>
    cases args with
    | nil => simp [checkArguments] at h
    | cons arg args =>
      rw [(checkArguments_cons ..).1, List.mem_append] at h
      rw [List.length_cons]
      rcases h with h | h
      · split at h
        · cases List.mem_singleton.mp h
          omega
        · cases h
      · split at h
        · cases h
        · have hj := ih h
          omega

theorem exists_mem_coerced (name : Name) (i : Nat) {params : List Ty} {args : List Operand} :
    (∃ j, j ∈ (checkArguments true name i params args).coerced) ↔
      ∃ y ∈ params.zip args, y.2.widens y.1 = true := by
  induction params generalizing i args with
  | nil => simp [checkArguments]
  | cons param params ih =>
    cases args with
    | nil => simp [checkArguments]
    | cons arg args =>
      rw [(checkArguments_cons ..).1]
      cases hw : arg.widens param with
      | true => simp [hw]
      | false => simp [hw, ih]

theorem coerced_checkArguments (name : Name) (i : Nat) (params : List Ty) (args : List Operand) :
    (¬SkipsWidening params args ∧ (checkArguments false name i params args).coerced =
        (checkArguments true name i params args).coerced) ∨
      (SkipsWidening params args ∧ ∃ j ∈ (checkArguments true name i params args).coerced,
        j ∉ (checkArguments false name i params args).coerced) := by
  induction params generalizing i args with
  | nil => exact .inl ⟨by simp [SkipsWidening], rfl⟩
  | cons param params ih =>
    cases args with
    | nil => exact .inl ⟨by simp [SkipsWidening], rfl⟩
    | cons arg args =>
      rw [(checkArguments_cons true ..).1, (checkArguments_cons false ..).1, skipsWidening_cons]
      cases hm : arg.mismatches param with
      | false =>
        rcases ih (i + 1) args with ⟨hskip, he⟩ | ⟨hskip, j, hj, hj'⟩
        · exact .inl ⟨by simp [hskip], by simp [he]⟩
        · have hle := (mem_coerced_checkArguments hj).1
          have hpre : j ∉ if arg.widens param then [i] else [] := by
            split
            · simp only [List.mem_singleton]
              omega
            · simp
          exact .inr ⟨.inl hskip, j, by simp [hj], by simp [hpre, hj']⟩
      | true =>
        have hw : arg.widens param = false := by
          simp only [Operand.mismatches, Ty.isAssignable, Bool.and_eq_true, Bool.not_eq_true',
            Bool.or_eq_false_iff] at hm
          simp [Operand.widens, hm.2.2]
        -- Without the option nothing after this argument is looked at.
        by_cases hy : ∃ y ∈ params.zip args, y.2.widens y.1 = true
        · obtain ⟨j, hj⟩ := (exists_mem_coerced name (i + 1)).mpr hy
          exact .inr ⟨.inr ⟨rfl, hy⟩, j, by simp [hw, hj], by simp [hw]⟩
        · have hnil : (checkArguments true name (i + 1) params args).coerced = [] :=
            List.eq_nil_iff_forall_not_mem.mpr fun j hj =>
              hy ((exists_mem_coerced name (i + 1)).mp ⟨j, hj⟩)
          refine .inl ⟨?_, by simp [hw, hnil]⟩
          rintro (h | ⟨-, h⟩)
          · exact hy h.exists_widens
          · exact hy h

structure Alike (c c' : Context) : Prop where
  table : c'.table = c.table
  line : c'.line = c.line
  reportAll : c.reportAll = true
  reportFirst : c'.reportAll = false

namespace Alike

variable {c c' d d' : Context}

theorem report (h : Alike c c') (problems problems' : List Problem) :
    Alike (c.report problems) (c'.report problems') :=
  ⟨h.table, by simp [h.line], h.reportAll, h.reportFirst⟩

theorem advanceTo (h : Alike c c') (line : Int) : Alike (c.advanceTo line) (c'.advanceTo line) where
  table := h.table
  line := by
    have hline := h.line
    unfold Context.line at hline
    simp [Context.line, Context.advanceTo, Log.line_advanceTo, hline]
  reportAll := h.reportAll
  reportFirst := h.reportFirst

theorem withTable (h : Alike c c') (table : Table) : Alike { c with table } { c' with table } :=
  ⟨rfl, h.line, h.reportAll, h.reportFirst⟩

theorem enter (h : Alike c c') (name : Name) : Alike (c.enter name) (c'.enter name) := by
  unfold Context.enter
  rw [h.table]
  exact h.withTable _

theorem leave (h : Alike c c') (hl : c.leave? = some d) (hl' : c'.leave? = some d') :
    Alike d d' := by
  obtain ⟨table, ht, rfl⟩ := Option.map_eq_some_iff.mp hl
  obtain ⟨table', ht', rfl⟩ := Option.map_eq_some_iff.mp hl'
  rw [h.table, ht] at ht'
  cases ht'
  exact h.withTable table

theorem declare (h : Alike c c') (name : Name) (type : Ty) (line : Int) :
    (c'.declare name type line).1 = (c.declare name type line).1 ∧
      Alike (c.declare name type line).2 (c'.declare name type line).2 := by
  unfold Context.declare
  rw [h.table]
  cases c.table.declare? name type line with
  | none => exact ⟨rfl, h.report _ _⟩
  | some table => exact ⟨rfl, h.withTable table⟩

theorem declareAll (h : Alike c c') (params : List (Ty × Name)) :
    Alike (c.declareAll params) (c'.declareAll params) := by
  induction params generalizing c c' with
  | nil => exact h
  | cons p params ih =>
    refine ih ?_
    rw [h.line]
    exact (h.declare p.2 p.1 c.line).2

theorem inside (h : Alike c c') (name : Name) (params : List (Ty × Name)) :
    Alike (c.inside name params) (c'.inside name params) := (h.enter name).declareAll params

theorem bind (h : Alike c c') {returns : Ty} {name : Name} {params : List (Ty × Name)}
    {own own' : Option Symbol} (hb : c.bind returns name params = (own, d))
    (hb' : c'.bind returns name params = (own', d')) : own' = own ∧ Alike d d' := by
  unfold Context.bind Context.declareFunction at hb hb'
  rw [h.table, h.line] at hb'
  cases hf : c.table.declareFunction? name ((signatureOf params).map fun p => (p.2, p.1))
      returns.given? c.line with
  | some table =>
    rw [hf] at hb hb'
    cases hb
    cases hb'
    exact ⟨rfl, h.withTable table⟩
  | none =>
    rw [hf] at hb hb'
    cases hr : repeatsDeclaration c.table name ((signatureOf params).map (·.1)) returns.given? with
    | true =>
      simp only [hr, if_true] at hb hb'
      cases hb
      cases hb'
      exact ⟨by rw [h.table], h⟩
    | false =>
      simp only [hr] at hb hb'
      cases hb
      cases hb'
      exact ⟨rfl, h.report _ _⟩

theorem mark (h : Alike c c') {name : Name} {own : Option Symbol} {marks marks' : List Event}
    (hm : c.mark? name own = some (marks, d)) (hm' : c'.mark? name own = some (marks', d')) :
    Alike d d' := by
  cases own with
  | none =>
    cases hm
    cases hm'
    exact h
  | some own =>
    obtain ⟨found, hf, he⟩ := Option.map_eq_some_iff.mp hm
    obtain ⟨found', hf', he'⟩ := Option.map_eq_some_iff.mp hm'
    rw [h.table, hf] at hf'
    cases hf'
    cases he
    cases he'
    rw [h.table]
    exact h.withTable _

theorem made (h : Alike c c') {action : Action} (hcall : ∀ name items, action ≠ .call name items)
    (ns : List Node) :
    (action.made ns c').1 = (action.made ns c).1 ∧
      Alike (action.made ns c).2 (action.made ns c').2 := by
  unfold Action.made
  split
  case h_1 type name size =>
    obtain ⟨hd, ha⟩ := h.declare name (.array type (.string size)) c.line
    simp only [Form.ofArrayDecl, h.line, Prod.map_fst, Prod.map_snd, hd]
    exact ⟨trivial, ha⟩
  case h_2 => exact ⟨by simp [Form.ofVariable, h.table, h.line], h.report _ _⟩
  case h_9 name items => exact absurd rfl (hcall name items)
  case h_4 | h_5 | h_6 => exact ⟨by simp [Form.ofOperation, Form.ofFold, h.line], h.report _ _⟩
  case h_7 => exact ⟨by simp [Form.ofAssignment, h.line], h.report _ _⟩
  case h_10 => exact ⟨by simp [Form.ofAccess, h.table, h.line], h.report _ _⟩
  all_goals exact ⟨by simp [h.line], h⟩

theorem boundNode (h : Alike c c') {type : Ty} {name : Name} {value : Option Node} {n n' : Node}
    (hb : boundNode type name value c = (n, d)) (hb' : boundNode type name value c' = (n', d')) :
    n' = n ∧ Alike d d' := by
  obtain ⟨rfl, rfl⟩ := Prod.ext_iff.mp hb
  obtain ⟨rfl, rfl⟩ := Prod.ext_iff.mp hb'
  obtain ⟨hd, ha⟩ := h.declare name type c.line
  simp only [Treewright.boundNode, Form.ofBinding, h.line, Prod.map_fst, Prod.map_snd, hd]
  exact ⟨trivial, ha.report _ _⟩

theorem conditionalNode (h : Alike c c') {condition accepted n n' : Node} {rejected : Option Node}
    (hm : conditionalNode condition accepted rejected c = (n, d))
    (hm' : conditionalNode condition accepted rejected c' = (n', d')) : n' = n ∧ Alike d d' := by
  obtain ⟨rfl, rfl⟩ := Prod.ext_iff.mp hm
  obtain ⟨rfl, rfl⟩ := Prod.ext_iff.mp hm'
  exact ⟨by simp [Treewright.conditionalNode, Form.ofConditional, h.line], h.report _ _⟩

theorem loopNode (h : Alike c c') {init update : Option Node} {test body n n' : Node}
    (hm : loopNode init test update body c = (n, d))
    (hm' : loopNode init test update body c' = (n', d')) : n' = n ∧ Alike d d' := by
  obtain ⟨rfl, rfl⟩ := Prod.ext_iff.mp hm
  obtain ⟨rfl, rfl⟩ := Prod.ext_iff.mp hm'
  exact ⟨by simp [Treewright.loopNode, Form.ofLoop, h.line], h.report _ _⟩

end Alike

def Skips (t : List Event) : Prop :=
  ∃ f args, .called (some f) args ∈ t ∧ f.paramTypes.length = args.length ∧
    SkipsWidening f.paramTypes args

@[simp] theorem skips_append (t t' : List Event) : Skips (t ++ t') ↔ Skips t ∨ Skips t' := by
  simp [Skips, or_and_right, exists_or]

@[simp] theorem not_skips_nil : ¬Skips [] := by simp [Skips]

@[simp] theorem not_skips_reported (source : Source) (c d : Context) :
    ¬Skips (reported source c d) := by
  rintro ⟨f, args, h, -⟩
  obtain ⟨_, -, he⟩ := List.mem_map.mp h
  cases he

@[simp] theorem not_skips_accepted (own : Option Symbol) (name : Name)
    (body : Option (List Action)) : ¬Skips (accepted own name body) := by simp [Skips, accepted]

theorem not_skips_mark {c d : Context} {name : Name} {own : Option Symbol} {marks : List Event}
    (h : c.mark? name own = some (marks, d)) : ¬Skips marks := by
  cases own with
  | none =>
    cases h
    exact not_skips_nil
  | some own =>
    obtain ⟨found, -, he⟩ := Option.map_eq_some_iff.mp h
    cases he
    simp [Skips]

@[simp] theorem skips_inSize (t : List Event) : Skips (t.map Event.inSize) ↔ Skips t := by
  have h (f : Symbol) (args : List Operand) :
      .called (some f) args ∈ t.map Event.inSize ↔ .called (some f) args ∈ t := by
    rw [List.mem_map]
    refine ⟨?_, fun h => ⟨_, h, rfl⟩⟩
    rintro ⟨e, he, heq⟩
    cases e <;> cases heq
    exact he
  simp only [Skips, h]

theorem skips_checked_call {name : Name} {items : List Action} {ns : List Node} {c : Context} :
    Skips ((Action.call name items).checked ns c) ↔
      ∃ f, c.table.functionNamed name = some f ∧ f.paramTypes.length = ns.length ∧
        SkipsWidening f.paramTypes (ns.map Node.operand) := by
  rw [Action.checked, skips_append, or_iff_left (not_skips_reported _ _ _)]
  constructor
  · rintro ⟨f, args, h, hlen, hs⟩
    obtain ⟨hf, rfl⟩ := Event.called.inj (List.mem_singleton.mp h)
    exact ⟨f, hf.symm, by simpa using hlen, hs⟩
  · rintro ⟨f, hf, hlen, hs⟩
    exact ⟨f, ns.map Node.operand, by simp [hf], by simpa using hlen, hs⟩

theorem not_skips_checked {action : Action} (h : ∀ name items, action ≠ .call name items)
    (ns : List Node) (c : Context) : ¬Skips (action.checked ns c) := by
  unfold Action.checked
  split
  · exact absurd rfl (h _ _)
  · simp

theorem splits_of_contains {coerced coerced' : Nat → Bool} {parts : List (List Char)} {i j : Nat}
    (hi : i ≤ j) (hj : j < i + parts.length) (h : coerced j ≠ coerced' j) :
    Splits coerced coerced' i parts parts := by
  induction parts generalizing i with
  | nil =>
    simp only [List.length_nil] at hj
    omega
  | cons part parts ih =>
    by_cases he : i = j
    · subst he
      exact .mark h part parts
    · rw [List.length_cons] at hj
      exact .later part (ih (by omega) (by omega))

theorem made_call {c c' : Context} (alike : Alike c c') (name : Name) (items : List Action)
    (ns : List Node) :
    (¬Skips ((Action.call name items).checked ns c) ∧
        ((Action.call name items).made ns c').1 = ((Action.call name items).made ns c).1) ∨
      (Skips ((Action.call name items).checked ns c) ∧
        ((Action.call name items).made ns c).1.Diverges
          ((Action.call name items).made ns c').1) := by
  rw [skips_checked_call]
  simp only [Action.made, Form.ofCall, Prod.map_fst, alike.table, alike.line, alike.reportAll,
    alike.reportFirst, checkCall]
  cases hf : c.table.functionNamed name with
  | none => exact .inl ⟨by simp, rfl⟩
  | some f =>
    by_cases hlen : f.paramTypes.length = ns.length
    · simp only [hlen, List.length_map, ne_eq, not_true_eq_false, if_false, true_and,
        Option.some.injEq, exists_eq_left', failed_checkArguments]
      rcases coerced_checkArguments name 0 f.paramTypes (ns.map Node.operand) with
        ⟨hskip, he⟩ | ⟨hskip, j, hj, hj'⟩
      · exact .inl ⟨hskip, by rw [he]⟩
      · have hlt := (mem_coerced_checkArguments hj).2
        rw [List.length_map] at hlt
        exact .inr ⟨hskip, .call (splits_of_contains (Nat.zero_le j) (by simpa using hlt)
          (by simp [hj, hj']))⟩
    · exact .inl ⟨by simp [hlen], by simp [hlen]⟩

theorem anchored_glyph {op : Op} (h : op.isReserved = false) {count : Nat} (hc : 1 < count) :
    Anchored (" " ++ (styleOf op count).1.glyph (styleOf op count).2 ++ " ").toList := by
  have hglyph : (styleOf op count).1.glyph (styleOf op count).2 = op.glyph?.getD "" := by
    have hne : count ≠ 1 := by omega
    unfold styleOf
    cases op.isComparison <;> cases op.isConnective <;> simp [hne, Style.glyph]
  have hop : (op.glyph?.getD "").toList.any
      (fun x => !coercionMark.toList.contains x && !decide (x = ';')) = true := by
    cases op <;> first | rfl | cases h
  obtain ⟨x, hx, hne⟩ := List.any_eq_true.mp hop
  exact ⟨x, by simp [hglyph, hx], by simpa using hne⟩

theorem made_parted {action : Action} {items : List Action}
    (operands : action.operands? = some items) (proper : action.Proper) {ns ms : List Node}
    (h : Parted Node.Diverges ns ms) (hn : ns.length = items.length)
    (hm : ms.length = items.length) (c c' : Context) :
    (action.made ns c).1.Diverges (action.made ms c').1 := by
  unfold Action.operands? at operands
  split at operands <;> cases operands
  case h_1 | h_2 | h_3 | h_4 =>
    cases List.length_eq_zero_iff.mp hn
    cases h
  case h_6 op a as =>
    simp only [Action.made, Form.ofOperation, Form.ofFold, Prod.map_fst, Node.map_fst_seen, hn, hm]
    refine .operation h (hn.trans hm.symm) fun hlt => anchored_glyph proper.1 ?_
    rwa [hn] at hlt
  case h_7 name => exact .call (h.splits _ _ 0 0)
  case h_8 a | h_9 t a | h_10 name a | h_11 a | h_12 a =>
    obtain ⟨n, rfl⟩ := List.length_eq_one_iff.mp hn
    obtain ⟨m, rfl⟩ := List.length_eq_one_iff.mp hm
    first
      | exact .operation h rfl fun hlt => absurd hlt (by simp)
      | exact .access h.single
      | exact .wrapper h.single
  case h_13 target value =>
    obtain ⟨n, n', rfl⟩ := List.length_eq_two.mp hn
    obtain ⟨m, m', rfl⟩ := List.length_eq_two.mp hm
    exact .assignment h
  case h_14 operand =>
    cases operand with
    | none =>
      cases List.length_eq_zero_iff.mp hn
      cases h
    | some a =>
      obtain ⟨n, rfl⟩ := List.length_eq_one_iff.mp hn
      obtain ⟨m, rfl⟩ := List.length_eq_one_iff.mp hm
      exact .ret h.single

def Task.Apart : Task → Node → Node → Prop
  | .bindings type _ => Node.BoundApart type
  | _ => Node.Diverges

inductive InStep (R : Node → Node → Prop) (t : List Event) :
    List Node → List Node → Context → Context → Prop where
  | same {d d' : Context} (quiet : ¬Skips t) (ns : List Node) (alike : Alike d d') :
      InStep R t ns ns d d'
  | parted {ns ms : List Node} (skips : Skips t) (h : Parted R ns ms) (d d' : Context) :
      InStep R t ns ms d d'

namespace InStep

variable {R : Node → Node → Prop} {t t' : List Event} {d d' e e' : Context}

theorem cons {n m : Node} {ns ms : List Node} (h : InStep R t [n] [m] d d')
    (h' : Alike d d' → InStep R t' ns ms e e') : InStep R (t ++ t') (n :: ns) (m :: ms) e e' := by
  cases h with
  | same quiet _ alike =>
    cases h' alike with
    | same quiet' _ alike' => exact .same (by simp [quiet, quiet']) _ alike'
    | parted skips h => exact .parted (by simp [skips]) (.later n h) _ _
  | parted skips h => exact .parted (by simp [skips]) (.here h.single ns ms) _ _

theorem one {R' : Node → Node → Prop} {ns ms : List Node} {n m : Node} (h : InStep R t ns ms d d')
    (ht : Skips t' ↔ Skips t) (same : Alike d d' → ms = ns → m = n ∧ Alike e e')
    (parted : Parted R ns ms → R' n m) : InStep R' t' [n] [m] e e' := by
  cases h with
  | same quiet _ alike =>
    obtain ⟨rfl, alike'⟩ := same alike rfl
    exact .same (ht.not.mpr quiet) _ alike'
  | parted skips h => exact .parted (ht.mpr skips) (.here (parted h) [] []) _ _

theorem check {action : Action} (quiet : ¬Skips t) (alike : Alike d d') (ns : List Node) :
    InStep Node.Diverges (t ++ action.checked ns d) [(action.made ns d).1] [(action.made ns d').1]
      (action.made ns d).2 (action.made ns d').2 := by
  by_cases hcall : ∃ name items, action = .call name items
  · obtain ⟨name, items, rfl⟩ := hcall
    rcases made_call alike name items ns with ⟨hquiet, he⟩ | ⟨hskips, hnode⟩
    · rw [he]
      exact .same (by simp [quiet, hquiet]) _ (alike.report _ _)
    · exact .parted (by simp [hskips]) (.here hnode [] []) _ _
  · have hne (name : Name) (items : List Action) : action ≠ .call name items :=
      fun he => hcall ⟨name, items, he⟩
    obtain ⟨he, alike'⟩ := alike.made hne ns
    rw [he]
    exact .same (by simp [quiet, not_skips_checked hne]) _ alike'

theorem conditional {n n' b b' m m' : Node} {bs bs' : List Node} {f f' : Context}
    (test : InStep Node.Diverges t [n] [n'] d d')
    (inside : Alike d d' → InStep Node.Diverges t' (b :: bs) (b' :: bs') e e')
    (hbs : bs.length ≤ 1) (made : conditionalNode n b bs.head? e = (m, f))
    (made' : conditionalNode n' b' bs'.head? e' = (m', f')) :
    InStep Node.Diverges (t ++ t' ++ reported .node e f) [m] [m'] f f' := by
  obtain ⟨rfl, rfl⟩ := Prod.ext_iff.mp made
  obtain ⟨rfl, rfl⟩ := Prod.ext_iff.mp made'
  cases test with
  | parted skips h =>
    exact .parted (by simp [skips]) (.here (.conditional_test h.single) [] []) _ _
  | same quiet _ alike =>
    refine (inside alike).one (by simp [quiet]) ?_ fun h => ?_
    · rintro alike' he
      cases he
      exact alike'.conditionalNode rfl rfl
    · cases h with
      | here h => exact .conditional_accepted h
      | later _ h =>
        obtain ⟨n, m, hn, hm, h⟩ := h.head? hbs
        rw [hn, hm]
        exact .conditional_rejected h

theorem loop {n n' b b' m m' : Node} {is is' us us' : List Node} {t₁ t₂ t₃ t₄ : List Event}
    {c₁ c₁' c₂ c₂' c₃ c₃' c₄ c₄' : Context} (first : InStep Node.Diverges t₁ is is' c₁ c₁')
    (condition : Alike c₁ c₁' → InStep Node.Diverges t₂ [n] [n'] c₂ c₂')
    (next : Alike c₂ c₂' → InStep Node.Diverges t₃ us us' c₃ c₃')
    (inside : Alike c₃ c₃' → InStep Node.Diverges t₄ [b] [b'] c₄ c₄') (his : is.length ≤ 1)
    (hus : us.length ≤ 1) (leave : c₄.leave? = some d) (leave' : c₄'.leave? = some d')
    (made : loopNode is.head? n us.head? b d = (m, e))
    (made' : loopNode is'.head? n' us'.head? b' d' = (m', e')) :
    InStep Node.Diverges (t₁ ++ t₂ ++ t₃ ++ t₄ ++ reported .node d e) [m] [m'] e e' := by
  obtain ⟨rfl, rfl⟩ := Prod.ext_iff.mp made
  obtain ⟨rfl, rfl⟩ := Prod.ext_iff.mp made'
  -- The parts of the header and the body in order, up to the first that comes apart.
  cases first with
  | parted skips h =>
    obtain ⟨i, i', hi, hi', h⟩ := h.head? his
    rw [hi, hi']
    exact .parted (by simp [skips]) (.here (.loop_init h) [] []) _ _
  | same quiet₁ _ alike₁ =>
    cases condition alike₁ with
    | parted skips h => exact .parted (by simp [skips]) (.here (.loop_test h.single) [] []) _ _
    | same quiet₂ _ alike₂ =>
      cases next alike₂ with
      | parted skips h =>
        obtain ⟨u, u', hu, hu', h⟩ := h.head? hus
        rw [hu, hu']
        exact .parted (by simp [skips]) (.here (.loop_update h) [] []) _ _
      | same quiet₃ _ alike₃ =>
        refine (inside alike₃).one (by simp [quiet₁, quiet₂, quiet₃]) ?_ fun h =>
          .loop_body h.single
        rintro alike₄ he
        cases he
        exact (alike₄.leave leave leave').loopNode rfl rfl

end InStep

theorem Run.inStep {task : Task} {c d : Context} {t : List Event} {ns : List Node}
    (h : Run task c t ns d) {c' d' : Context} {t' : List Event} {ms : List Node}
    (h' : Run task c' t' ms d') (alike : Alike c c') : InStep task.Apart t ns ms d d' := by
  -- The task alone decides which rule a run takes, so the second run takes the rule of the first.
  induction h generalizing c' d' t' ms with
  | nil | noBlock | noBinding | noLine =>
    cases h'
    exact .same not_skips_nil _ alike
  | cons _ _ ih ih' =>
    cases h' with
    | cons head tail => exact (ih head alike).cons (ih' tail)
  | block _ leave _ ih ih' =>
    cases h' with
    | block inside' leave' others' =>
      refine InStep.cons ((ih inside' (alike.enter .nothing)).one .rfl ?_ .block) (ih' others')
      rintro alike' rfl
      exact ⟨rfl, alike'.leave leave leave'⟩
  | binding proper given bound _ ih ih' =>
    cases h' with
    | binding _ given' bound' others' =>
      refine InStep.cons ((ih given' alike).one (by simp) ?_ fun h => ?_) (ih' others')
      · rintro alike' rfl
        exact alike'.boundNode bound bound'
      · obtain ⟨v, v', hv, hv', h⟩ := h.head? (length_of_run_option given)
        rw [hv] at bound
        rw [hv'] at bound'
        obtain ⟨rfl, rfl⟩ := Prod.ext_iff.mp bound
        obtain ⟨rfl, rfl⟩ := Prod.ext_iff.mp bound'
        exact .intro h
  | line _ mark _ ih ih' =>
    cases h' with
    | line head' mark' tail' =>
      refine InStep.cons ((ih head' alike).one (by simp [not_skips_mark mark]) ?_ (·.single))
        (ih' tail')
      rintro alike' he
      exact ⟨List.singleton_inj.mp he, alike'.mark mark mark'⟩
  | lined _ ih =>
    cases h' with
    | lined inner' => exact ih inner' (alike.advanceTo _)
    | check operands => cases operands
  | check operands proper inner ih =>
    obtain ⟨t', ms, e', -, inner', -, rfl, rfl⟩ := Run.of_operands operands h'
    cases ih inner' alike with
    | same quiet _ alike' => exact .check quiet alike' _
    | parted skips h =>
      refine .parted (by simp [skips]) (.here ?_ [] []) _ _
      exact made_parted operands proper h inner.length_eq inner'.length_eq _ _
  | declaration _ _ ih =>
    cases h' with
    | declaration _ inner' =>
      refine (ih inner' alike).one .rfl ?_ .declaration
      rintro alike' rfl
      exact ⟨by rw [alike.line], alike'⟩
    | check operands => cases operands
  | sizedArray _ _ render made ih =>
    cases h' with
    | sizedArray _ inner' render' made' =>
      refine (ih inner' alike).one (by simp) ?_ fun h => ?_
      · rintro alike' he
        cases he
        cases render.symm.trans render'
        obtain ⟨rfl, rfl⟩ := Prod.ext_iff.mp made
        obtain ⟨rfl, rfl⟩ := Prod.ext_iff.mp made'
        exact alike'.made (by simp) []
      · obtain ⟨rfl, rfl⟩ := Prod.ext_iff.mp made
        obtain ⟨rfl, rfl⟩ := Prod.ext_iff.mp made'
        rw [Node.text_of_render render, Node.text_of_render render']
        exact .arrayDecl (h.single.code 0)
    | check operands => cases operands
  | scope _ ih =>
    cases h' with
    | scope inner' => exact ih inner' alike
    | check operands => cases operands
  | conditional _ inside made ih ih' =>
    cases h' with
    | conditional test' inside' made' =>
      exact .conditional (ih test' alike) (ih' inside') (length_of_run_branches inside) made made'
    | check operands => cases operands
  | loop first _ next _ leave made ih₁ ih₂ ih₃ ih₄ =>
    cases h' with
    | loop first' condition' next' inside' leave' made' =>
      exact .loop (ih₁ first' (alike.enter .nothing)) (ih₂ condition') (ih₃ next') (ih₄ inside')
        (length_of_run_option first) (length_of_run_option next) leave leave' made made'
    | check operands => cases operands
  | prototype _ bound =>
    cases h' with
    | prototype _ bound' =>
      obtain ⟨rfl, alike'⟩ := alike.bind bound bound'
      rw [alike.line]
      exact .same (by simp) _ alike'
    | check operands => cases operands
  | emptyBody _ bound mark leave =>
    cases h' with
    | emptyBody _ bound' mark' leave' =>
      obtain ⟨rfl, alike'⟩ := alike.bind bound bound'
      rw [alike.line]
      exact .same (by simp [not_skips_mark mark]) _
        (((alike'.inside _ _).mark mark mark').leave leave leave')
    | check operands => cases operands
  | function _ bound _ leave ih =>
    cases h' with
    | function _ bound' lines' leave' =>
      obtain ⟨rfl, alike'⟩ := alike.bind bound bound'
      refine (ih lines' (alike'.inside _ _)).one (by simp) ?_ fun h => .function (.block h)
      rintro alike'' rfl
      exact ⟨by rw [alike.line], alike''.leave leave leave'⟩
    | check operands => cases operands

def Session.reporting (s : Session) (all : Bool) : Session :=
  { s with options := { s.options with reportAll := all } }

/-- Take a program that runs to its end under one setting of the option. It does so under both, and
its code is the same exactly when no call that was checked has an argument to be widened after a
mismatched one. -/
theorem code_eq_iff_no_skip {s : Session} {program : Value} {name code : String} {all : Bool}
    (h : ((s.reporting all).runAll program name).1 = .ok code) :
    ∃ actions every first, Action.sequence program = .ok actions ∧
      ((s.reporting true).runAll program name).1 = .ok every ∧
      ((s.reporting false).runAll program name).1 = .ok first ∧
      (∃ trace nodes d, Run (.all actions) { reportAll := true } trace nodes d) ∧
      ∀ trace nodes d, Run (.all actions) { reportAll := true } trace nodes d →
        (every = first ↔ ∀ f args, .called (some f) args ∈ trace →
          f.paramTypes.length = args.length → ¬SkipsWidening f.paramTypes args) := by
  obtain ⟨actions, nodes₀, d₀, hactions, hexec, -⟩ := Session.runAll_ok.mp h
  obtain ⟨t₀, run₀⟩ :=
    runs_all (fun a ha => (Action.wellFormed_sequence hactions a ha).runs) _ _ _ hexec
  have runs (all : Bool) := exists_run_all (fun a ha => (run₀.fits a ha).total) { reportAll := all }
  obtain ⟨t, ns, d, run⟩ := runs true
  obtain ⟨t', ns', d', run'⟩ := runs false
  refine ⟨actions, _, _, hactions, Session.runAll_ok.mpr ⟨_, _, _, hactions, exec_of_run run, rfl⟩,
    Session.runAll_ok.mpr ⟨_, _, _, hactions, exec_of_run run', rfl⟩, ⟨t, ns, d, run⟩, ?_⟩
  intro trace nodes e hrun
  have hnodes : nodes = ns := by
    have he := (exec_of_run hrun).symm.trans (exec_of_run run)
    exact Except.ok.inj (Prod.ext_iff.mp he).1
  have hskips : (∀ f args, .called (some f) args ∈ trace →
      f.paramTypes.length = args.length → ¬SkipsWidening f.paramTypes args) ↔ ¬Skips trace := by
    simp [Skips]
  rw [hskips]
  subst hnodes
  cases hrun.inStep run' ⟨rfl, rfl, rfl, rfl⟩ with
  | same quiet => exact iff_of_true rfl quiet
  | parted skips h =>
    have hcode : (Node.mk {} (.block "Program" nodes)).Diverges (.mk {} (.block "Program" ns')) :=
      .block h
    exact iff_of_false (fun he => (hcode.code 0).apart.ne (by rw [he])) (not_not.mpr skips)

def constantCall (params args : List (String × String)) : Value :=
  .list [
    .object [("node", .string "function"), ("returns", .string "void"), ("name", .string "g"),
      ("params", .list (params.map fun p => .list [.string p.1, .string p.2])), ("body", .list [])],
    .object [("node", .string "call"), ("name", .string "g"), ("args", .list (args.map fun arg =>
      .object [("node", .string "const"), ("type", .string arg.1), ("value", .string arg.2)]))]]

theorem code_eq_iff_no_skip_widened_first :
    (((Session.new {}).reporting true).runAll
        (constantCall [("float", "a"), ("int", "b")] [("int", "1"), ("bool", "true")]) "").1 =
      .ok "void g(float a, int b) \x7b\n\x7d\ng([float] 1, true)" ∧
    (((Session.new {}).reporting false).runAll
        (constantCall [("float", "a"), ("int", "b")] [("int", "1"), ("bool", "true")]) "").1 =
      .ok "void g(float a, int b) \x7b\n\x7d\ng([float] 1, true)" := by
  have h : (((Session.new {}).reporting true).runAll
      (constantCall [("float", "a"), ("int", "b")] [("int", "1"), ("bool", "true")]) "").1 =
    .ok "void g(float a, int b) \x7b\n\x7d\ng([float] 1, true)" := by decide +kernel
  refine ⟨h, ?_⟩
  obtain ⟨actions, every, first, hactions, hevery, hfirst, -, hiff⟩ := code_eq_iff_no_skip h
  have read : Action.sequence
      (constantCall [("float", "a"), ("int", "b")] [("int", "1"), ("bool", "true")]) =
    .ok [.function .void (.text "g") [(.float, .text "a"), (.int, .text "b")] (some []),
      .call (.text "g") [.constant .int "1", .constant .bool "true"]] := rfl
  obtain rfl := Except.ok.inj (hactions.symm.trans read)
  let g : Symbol := ⟨0, .text "g", 1, .text "global",
    .function [(.string "a", .float), (.string "b", .int)] (some .void)⟩
  obtain ⟨trace, nodes, d, run, rfl⟩ : ∃ trace nodes d,
      Run (.all [.function .void (.text "g") [(.float, .text "a"), (.int, .text "b")] (some []),
        .call (.text "g") [.constant .int "1", .constant .bool "true"]]) {} trace nodes d ∧
      trace = [.accepted g (.text "g") (some []), .marked g g,
        .called (some g) [⟨.int, false⟩, ⟨.bool, false⟩],
        .reported .node ⟨1, .param (.text "g") .int .bool⟩] :=
    ⟨_, _, _, .cons (.emptyBody ⟨rfl, by simp [Ty.isWritten]⟩ rfl rfl rfl)
      (.cons (.check rfl trivial
        (.cons (.check rfl rfl (.nil _)) (.cons (.check rfl rfl (.nil _)) (.nil _)))) (.nil _)),
      rfl⟩
  have hsame := (hiff _ _ _ run).mpr (by
    simp only [List.mem_cons, List.not_mem_nil, reduceCtorEq, Event.called.injEq, Option.some.injEq,
      false_or, or_false]
    rintro f args ⟨rfl, rfl⟩ -
    decide)
  rw [hfirst, ← hsame, ← hevery, h]

theorem skipped_widening_changes_code :
    (((Session.new {}).reporting true).runAll
        (constantCall [("int", "a"), ("float", "b")] [("bool", "true"), ("int", "1")]) "").1 =
      .ok "void g(int a, float b) \x7b\n\x7d\ng(true, [float] 1)" ∧
    (((Session.new {}).reporting false).runAll
        (constantCall [("int", "a"), ("float", "b")] [("bool", "true"), ("int", "1")]) "").1 =
      .ok "void g(int a, float b) \x7b\n\x7d\ng(true, 1)" := by
  decide +kernel

end Treewright
