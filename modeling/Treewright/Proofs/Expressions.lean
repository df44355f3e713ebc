import Treewright.Proofs.Account
set_option autoImplicit false

namespace Treewright

open Build

def Symbol.signature (s : Symbol) : Signature := ⟨s.paramTypes, s.returns?.getD .void⟩

def Scope.frame (s : Scope) : Frame where
  vars := s.values.map fun v => (v.name, v.type?.getD .any)
  funs := s.functions.map fun f => (f.name, f.signature)

def Table.env (t : Table) : Env := ⟨t.inner.frame, t.outer.map Scope.frame⟩

theorem Scope.frame_var? (s : Scope) (name : Name) :
    s.frame.var? name = (s.variableNamed name).map (·.type?.getD .any) := by
  simp [Frame.var?, frame, variableNamed, List.find?_map, Function.comp_def]

theorem Scope.frame_fun? (s : Scope) (name : Name) :
    s.frame.fun? name = (s.functionNamed name).map Symbol.signature := by
  simp [Frame.fun?, frame, functionNamed, List.find?_map, Function.comp_def]

namespace Table

theorem env_fun? (t : Table) (name : Name) :
    t.env.fun? name = (t.functionNamed name).map Symbol.signature := by
  have h (scopes : List Scope) : (scopes.map Scope.frame).findSome? (·.fun? name) =
      (scopes.findSome? (·.functionNamed name)).map Symbol.signature := by
    induction scopes with
    | nil => rfl
    | cons s scopes ih =>
      rw [List.map_cons, List.findSome?_cons, List.findSome?_cons, Scope.frame_fun?, ih]
      cases s.functionNamed name <;> rfl
  exact h t.scopes

theorem env_var? {t : Table} (sound : t.Sound) (name : Name) : t.env.var? name = t.lookup name := by
  have h (scopes : List Scope) (hs : ∀ s ∈ scopes, s.Within t.symbols) :
      (scopes.map Scope.frame).findSome? (·.var? name) =
        (scopes.findSome? (·.variableNamed name)).bind (·.type?) := by
    induction scopes with
    | nil => rfl
    | cons s scopes ih =>
      rw [List.map_cons, List.findSome?_cons, List.findSome?_cons, Scope.frame_var?,
        ih fun s' hs' => hs s' (by simp [hs'])]
      cases hv : s.variableNamed name with
      | none => rfl
      | some v =>
        have hin := Scope.mem_of_variableNamed hv
        obtain ⟨-, type, hshape, hstored⟩ := (hs s (by simp)).values v hin.1
        have ht : v.type? = some type := by simp [Symbol.type?, hshape, hstored.given?]
        simp [ht]
  exact h t.scopes sound.scopes

@[simp] theorem env_mark (t : Table) (s : Symbol) : (t.mark s).env = t.env := by
  unfold mark
  split <;> rfl

theorem env_addVariable (t : Table) (name : Name) {type : Ty} (h : type.Stored) (line : Int) :
    (t.addVariable name type line).env = t.env.addVar name type := by
  simp [env, addVariable, Scope.frame, Env.addVar, Symbol.type?, h.given?]

theorem env_addFunction (t : Table) (name : Name) (params : List (Ty × Name)) {returns : Ty}
    (line : Int) :
    (t.addFunction name ((signatureOf params).map fun p => (p.2, p.1)) (some returns) line).env =
      t.env.addFun name ⟨params.map (·.1), returns⟩ := by
  simp [env, addFunction, Scope.frame, Env.addFun, Symbol.signature, Symbol.paramTypes,
    Symbol.params?, Symbol.returns?, signatureOf, Function.comp_def]

end Table

theorem Context.Extends.env_leave {c d e : Context} {name : Name} (h : (c.enter name).Extends d)
    (hl : d.leave? = some e) : e.table.env = c.table.env := by
  obtain ⟨scope, outer, ho, rfl⟩ := Context.leave?_eq hl
  have houter : d.table.outer = c.table.inner :: c.table.outer := h.table.outer
  rw [ho] at houter
  cases houter
  rfl

def Action.Rule (Γ : Env) : Action → List Ty → Ty → Prop
  | .variable name, _, t => Γ.var? name = some t
  | .constant type _, _, t => t = type
  | .operation op _, types, t =>
    if op.isComparison then t = .bool ∧ ∃ s, Ty.Joins types s
    else if op.isConnective then t = .bool ∧ ∀ s ∈ types, s = .bool
    else Ty.Joins types t
  | .paren _, types, t => Ty.Joins types t
  | .cast target _, _, t => t = target
  | .call name _, types, t =>
    ∃ signature, Γ.fun? name = some signature ∧
      List.Forall₂ Ty.Accepts signature.params types ∧ t = signature.returns
  | .access name _, types, t => (∃ size, Γ.var? name = some (.array t size)) ∧ types = [.int]
  | .address _, types, t => ∃ s, types = [s] ∧ t = .pointer s
  | .reference _, types, t => ∃ s, types = [s] ∧ t = .reference s
  | _, _, _ => False

def Style.Rule (style : Style) (types : List Ty) (t : Ty) : Prop :=
  match style with
  | .comparison => t = .bool ∧ ∃ s, Ty.Joins types s
  | .connective => t = .bool ∧ ∀ s ∈ types, s = .bool
  | _ => Ty.Joins types t

def Kind.isExpression : Kind → Bool
  | .variable | .constant | .operation | .paren | .cast | .call | .access | .address | .reference =>
    true
  | _ => false

theorem Ty.joins_singleton {s t : Ty} : Joins [s] t ↔ s = t ∧ t ≠ .void := by
  simp only [Joins, List.mem_singleton, forall_eq]
  constructor
  · rintro (⟨hv, rfl⟩ | ⟨rfl, hf, -⟩)
    · exact ⟨rfl, hv⟩
    · exact ⟨hf.symm, by simp⟩
  · rintro ⟨rfl, hv⟩
    exact .inl ⟨hv, rfl⟩

theorem forall₂_bool {Γ : Env} {es : List Action} :
    (∀ e ∈ es, HasType Γ e .bool) ↔
      ∃ types, List.Forall₂ (HasType Γ) es types ∧ ∀ s ∈ types, s = .bool := by
  induction es with
  | nil => simp
  | cons e es ih =>
    simp only [List.mem_cons, forall_eq_or_imp, ih]
    constructor
    · rintro ⟨he, types, hes, hs⟩
      exact ⟨.bool :: types, .cons he hes, by simpa using hs⟩
    · rintro ⟨types, hes, hs⟩
      cases hes with
      | cons he hes =>
        simp only [List.mem_cons, forall_eq_or_imp] at hs
        exact ⟨hs.1 ▸ he, _, hes, hs.2⟩

theorem exists_forall₂_singleton {Γ : Env} {e : Action} {P : List Ty → Prop} :
    (∃ types, List.Forall₂ (HasType Γ) [e] types ∧ P types) ↔ ∃ s, HasType Γ e s ∧ P [s] := by
  constructor
  · rintro ⟨types, hs, hp⟩
    cases hs with
    | cons h hs =>
      cases hs
      exact ⟨_, h, hp⟩
  · rintro ⟨s, h, hp⟩
    exact ⟨[s], .cons h .nil, hp⟩

theorem hasType_operation_iff {Γ : Env} {op : Op} {es : List Action} {t : Ty} :
    HasType Γ (.operation op es) t ↔
      ∃ types, List.Forall₂ (HasType Γ) es types ∧ (Action.operation op es).Rule Γ types t := by
  constructor
  · intro h
    cases h with
    | arithmetic hc hb hs hj => exact ⟨_, hs, by simpa [Action.Rule, hc, hb] using hj⟩
    | negation hm h hv =>
      refine ⟨_, .cons h .nil, ?_⟩
      have hj := Ty.joins_singleton.mpr ⟨rfl, hv⟩
      rcases hm with rfl | rfl <;> simpa [Action.Rule, Op.isComparison, Op.isConnective] using hj
    | comparison hc hs hj => exact ⟨_, hs, by simpa [Action.Rule, hc] using ⟨_, hj⟩⟩
    | connective hb hs =>
      have hc : op.isComparison = false := by
        cases op <;> simp_all [Op.isConnective, Op.isComparison]
      obtain ⟨types, hs, hall⟩ := forall₂_bool.mp hs
      exact ⟨types, hs, by simpa [Action.Rule, hc, hb] using hall⟩
  · rintro ⟨types, hs, hr⟩
    simp only [Action.Rule] at hr
    split at hr
    · rename_i hc
      obtain ⟨rfl, s, hj⟩ := hr
      exact .comparison hc hs hj
    · rename_i hc
      split at hr
      · rename_i hb
        obtain ⟨rfl, hall⟩ := hr
        exact .connective hb (forall₂_bool.mpr ⟨types, hs, hall⟩)
      · rename_i hb
        exact .arithmetic (by simpa using hc) (by simpa using hb) hs hr

theorem hasType_iff_rule {Γ : Env} {action : Action} {items : List Action}
    (ho : action.operands? = some items) (hk : action.kind.isExpression = true) (t : Ty) :
    HasType Γ action t ↔
      ∃ types, List.Forall₂ (HasType Γ) items types ∧ action.Rule Γ types t := by
  cases action <;> simp only [Action.operands?, reduceCtorEq, Option.some.injEq] at ho <;>
    simp only [Action.kind, Kind.isExpression, Bool.false_eq_true] at hk
  case «variable» name =>
    subst ho
    constructor
    · intro h
      cases h with
      | «variable» h => exact ⟨[], .nil, h⟩
    · rintro ⟨_, _, h⟩
      exact .variable h
  case constant type value =>
    subst ho
    constructor
    · rintro ⟨⟩
      exact ⟨[], .nil, rfl⟩
    · rintro ⟨_, _, rfl⟩
      exact .constant _ value
  case operation op operands =>
    have hi : items = operands := by
      cases operands with
      | nil => simp at ho
      | cons a as => simpa using ho.symm
    subst hi
    exact hasType_operation_iff
  case paren operand =>
    subst ho
    rw [exists_forall₂_singleton]
    constructor
    · intro h
      cases h with
      | paren h hv => exact ⟨_, h, Ty.joins_singleton.mpr ⟨rfl, hv⟩⟩
    · rintro ⟨s, h, hr⟩
      obtain ⟨rfl, hv⟩ := Ty.joins_singleton.mp hr
      exact .paren h hv
  case cast target operand =>
    subst ho
    rw [exists_forall₂_singleton]
    constructor
    · intro h
      cases h with
      | cast _ h => exact ⟨_, h, rfl⟩
    · rintro ⟨s, h, rfl⟩
      exact .cast _ h
  case call name args =>
    subst ho
    constructor
    · intro h
      cases h with
      | call hv hs ha => exact ⟨_, hs, _, hv, ha, rfl⟩
    · rintro ⟨types, hs, signature, hv, ha, rfl⟩
      exact .call hv hs ha
  case access name index =>
    subst ho
    rw [exists_forall₂_singleton]
    constructor
    · intro h
      cases h with
      | access ha hi => exact ⟨_, hi, ⟨_, ha⟩, rfl⟩
    · rintro ⟨s, hi, ⟨size, ha⟩, hs⟩
      cases hs
      exact .access ha hi
  case address operand =>
    subst ho
    rw [exists_forall₂_singleton]
    constructor
    · intro h
      cases h with
      | address h => exact ⟨_, h, _, rfl, rfl⟩
    · rintro ⟨s, h, _, hs, rfl⟩
      cases hs
      exact .address h
  case reference operand =>
    subst ho
    rw [exists_forall₂_singleton]
    constructor
    · intro h
      cases h with
      | reference h => exact ⟨_, h, _, rfl, rfl⟩
    · rintro ⟨s, h, _, hs, rfl⟩
      cases hs
      exact .reference h

theorem styleOf_rule (op : Op) (count : Nat) (types : List Ty) (t : Ty) :
    (styleOf op count).1.Rule types t ↔
      if op.isComparison then t = .bool ∧ ∃ s, Ty.Joins types s
      else if op.isConnective then t = .bool ∧ ∀ s ∈ types, s = .bool
      else Ty.Joins types t := by
  unfold styleOf
  split
  · rename_i hm
    simp only [Bool.and_eq_true, Bool.or_eq_true, decide_eq_true_eq] at hm
    rcases hm.2 with rfl | rfl <;> exact Iff.rfl
  · split
    · exact Iff.rfl
    · split <;> exact Iff.rfl

section Made

theorem map_type_operand (nodes : List Node) :
    (nodes.map Node.operand).map (·.type) = nodes.map Node.type := by simp [Node.operand]

variable {nodes : List Node} {c : Context} (clean : ∀ n ∈ nodes, n.operand.Clean)
  (unfailed : ∀ n ∈ nodes, n.error = false)

include clean unfailed

theorem passes_joins (hne : nodes ≠ []) (t : Ty) :
    (checkOperands none (nodes.map Node.operand)).failed = false ∧
        (checkOperands none (nodes.map Node.operand)).expected = t ↔
      Ty.Joins (nodes.map Node.type) t := by
  have h := checkOperands_joins (by simpa using hne) (operands_clean clean)
    (by simpa [Node.operand] using unfailed) t
  rwa [map_type_operand] at h

theorem passes_operation {style : Style} (hs : ∀ target, style ≠ .cast target) (op : Op)
    (hne : nodes ≠ []) (t : Ty) :
    ((operationNode style op nodes c).1.error = false ∧
        (operationNode style op nodes c).1.type = t) ↔ style.Rule (nodes.map Node.type) t := by
  have hjoins := passes_joins clean unfailed hne
  have hbool := checkOperands_bool (operands_clean clean) (by simpa [Node.operand] using unfailed)
  rw [operationNode_eq hs]
  -- After a failure there is no type, so the type only matters where the check passed.
  have settled {failed : Bool} {type : Ty} :
      (failed = false ∧ (if failed = true then .any else type) = t) ↔ failed = false ∧ type = t :=
    and_congr_right fun hf => by simp [hf]
  cases style with
  | cast target => exact absurd rfl (hs target)
  | plain | paren | negation => exact settled.trans (hjoins t)
  | comparison =>
    refine settled.trans ?_
    constructor
    · rintro ⟨hf, rfl⟩
      exact ⟨rfl, _, (hjoins _).mp ⟨hf, rfl⟩⟩
    · rintro ⟨rfl, s, hj⟩
      exact ⟨((hjoins s).mpr hj).1, rfl⟩
  | connective =>
    have hall : (∀ s ∈ nodes.map Node.type, s = .bool) ↔
        ∀ o ∈ nodes.map Node.operand, o.type = .bool := by simp [Node.operand]
    refine settled.trans ?_
    rw [Style.Rule, hall, ← hbool, show (checkOperands (Form.operandType .connective none)
      (nodes.map Node.operand)).expected = .bool from expected_checkOperands_bool _]
    exact and_comm.trans (and_congr_left fun _ => eq_comm)

theorem passes_made {action : Action} {items : List Action} (ho : action.operands? = some items)
    (hk : action.kind.isExpression = true) (hl : nodes.length = items.length)
    (proper : action.Proper) (sound : c.table.Sound) (t : Ty) :
    ((action.made nodes c).1.error = false ∧ (action.made nodes c).1.type = t) ↔
      action.Rule c.table.env (nodes.map Node.type) t := by
  cases action <;> simp only [Action.operands?, reduceCtorEq, Option.some.injEq] at ho <;>
    simp only [Action.kind, Kind.isExpression, Bool.false_eq_true] at hk
  case «variable» name =>
    change (checkVariable c.table name).2.failed = false ∧ (checkVariable c.table name).1 = t ↔
      c.table.env.var? name = some t
    rw [Table.env_var? sound]
    unfold checkVariable
    cases c.table.lookup name <;> simp
  case constant type value =>
    simp [Action.made, Action.Rule, Node.error, Node.type, eq_comm]
  case operation op operands =>
    have hne : nodes ≠ [] := by
      rintro rfl
      cases operands with
      | nil => exact proper.2 rfl
      | cons a as =>
        simp only [Option.some.injEq] at ho
        simp [← ho] at hl
    refine (passes_operation clean unfailed (styleOf_ne_cast op nodes.length) _ hne t).trans ?_
    exact styleOf_rule op nodes.length _ t
  case paren operand =>
    subst ho
    have hne : nodes ≠ [] := by
      rintro rfl
      simp at hl
    exact passes_operation clean unfailed (by simp) .par hne t
  case cast target operand =>
    subst ho
    obtain ⟨n, rfl⟩ := List.length_eq_one_iff.mp hl
    have hn : n.operand.failed = false := unfailed n (by simp)
    change (n.operand.failed = false ∧ target = t) ↔ t = target
    simp [hn, eq_comm]
  case call name args =>
    subst ho
    change (checkCall c.reportAll c.table name (nodes.map Node.operand)).2.failed = false ∧
      (checkCall c.reportAll c.table name (nodes.map Node.operand)).1 = t ↔
        ∃ signature, c.table.env.fun? name = some signature ∧
          List.Forall₂ Ty.Accepts signature.params (nodes.map Node.type) ∧ t = signature.returns
    rw [Table.env_fun?]
    unfold checkCall
    cases hf : c.table.functionNamed name with
    | none => simp
    | some symbol =>
      obtain ⟨-, ⟨params, returns, hshape, -, hparams⟩, -⟩ := sound.functionNamed hf
      have hnative : ∀ p ∈ symbol.paramTypes, p.native = true := by
        intro p hp
        simp only [Symbol.paramTypes, Symbol.params?, hshape, Option.getD_some, List.mem_map] at hp
        obtain ⟨q, hq, rfl⟩ := hp
        exact Ty.native_of_isWritten (hparams q hq)
      simp only [Option.map_some, Option.some.injEq, exists_eq_left', Symbol.signature]
      split
      · rename_i hne
        simp only [Bool.true_eq_false, false_and, false_iff, not_and]
        intro ha
        exact absurd (by simpa using ha.length_eq) hne
      · rename_i heq
        have hpass := checkArguments_passes c.reportAll name 0 hnative (operands_clean clean)
          (by simpa [Node.operand] using unfailed) (by simpa using heq)
        rw [map_type_operand] at hpass
        exact and_congr hpass eq_comm
  case access name index =>
    subst ho
    obtain ⟨i, rfl⟩ := List.length_eq_one_iff.mp hl
    have hpass := checkIndex_passes (clean i (by simp)) (unfailed i (by simp))
    change ((checkArray c.table name).2.failed || (checkIndex i.operand).failed) = false ∧
      (checkArray c.table name).1 = t ↔
        (∃ size, c.table.env.var? name = some (.array t size)) ∧ [i.type] = [.int]
    rw [Table.env_var? sound, Bool.or_eq_false_iff, hpass]
    unfold checkArray
    cases hlookup : c.table.lookup name with
    | none => simp
    | some type =>
      cases type with
      | array element size => simp [Node.operand, and_comm]
      | _ => simp
  case address operand =>
    subst ho
    obtain ⟨n, rfl⟩ := List.length_eq_one_iff.mp hl
    have hn := unfailed n (by simp)
    have hany : n.type ≠ .any := (clean n (by simp)).ne_any hn
    have hwrap : Form.wrapType .address n.type = .pointer n.type := if_neg (by simpa using hany)
    change (n.error = false ∧ Form.wrapType .address n.type = t) ↔
      ∃ s, [n.type] = [s] ∧ t = .pointer s
    rw [hwrap, hn]
    simpa using eq_comm
  case reference operand =>
    subst ho
    obtain ⟨n, rfl⟩ := List.length_eq_one_iff.mp hl
    have hn := unfailed n (by simp)
    have hany : n.type ≠ .any := (clean n (by simp)).ne_any hn
    have hwrap : Form.wrapType .reference n.type = .reference n.type := if_neg (by simpa using hany)
    change (n.error = false ∧ Form.wrapType .reference n.type = t) ↔
      ∃ s, [n.type] = [s] ∧ t = .reference s
    rw [hwrap, hn]
    simpa using eq_comm

end Made

def Plain (t : List Event) : Prop :=
  ∀ source diagnostic, Event.reported source diagnostic ∈ t → source = .node

theorem Plain.nil : Plain [] := fun _ _ h => absurd h List.not_mem_nil

theorem Plain.append {t t' : List Event} (h : Plain t) (h' : Plain t') : Plain (t ++ t') :=
  fun source diagnostic hm =>
    (List.mem_append.mp hm).elim (h source diagnostic) (h' source diagnostic)

theorem plain_reported (c d : Context) : Plain (reported .node c d) := by
  intro source diagnostic hm
  obtain ⟨_, -, he⟩ := List.mem_map.mp hm
  cases he
  rfl

theorem plain_checked (action : Action) (nodes : List Node) (c : Context) :
    Plain (action.checked nodes c) := by
  refine .append (fun source diagnostic hm => ?_) (plain_reported c _)
  split at hm <;> simp at hm

theorem Plain.diagnosticsOf_eq_nil {t : List Event} (h : Plain t) :
    diagnosticsOf t = [] ↔ ¬Blamed t := by
  rw [diagnosticsOf, List.filterMap_eq_nil_iff]
  constructor
  · rintro hn ⟨diagnostic, hm⟩
    cases hn _ hm
  · intro hb e he
    cases e with
    | reported source diagnostic =>
      cases h source diagnostic he
      exact absurd ⟨diagnostic, he⟩ hb
    | _ => rfl

/-- Where the actions of a program may stand. Values are needed in expressions, functions stand at
the top alone, and no action gives the size of an array. -/
def strict : Policy
  | .expression, kind => kind.isExpression = true
  | .size, _ => False
  | .statement, kind | .header, kind => kind ≠ .flawed ∧ kind ≠ .function
  | .item, kind => kind ≠ .flawed

def Action.DecidesType (action : Action) : Prop :=
  ∀ {c d : Context} {t : List Event} {n : Node}, c.table.Sound → Run (.one action) c t [n] d →
    d.table = c.table ∧ Plain t ∧
      ∀ type, (n.error = false ∧ n.type = type) ↔ HasType c.table.env action type

theorem decidesType_all {items : List Action} (h : ∀ a ∈ items, a.DecidesType) {c d : Context}
    {t : List Event} {ns : List Node} (sound : c.table.Sound) (run : Run (.all items) c t ns d) :
    d.table = c.table ∧ Plain t ∧
      ∀ types, ((∀ n ∈ ns, n.error = false) ∧ ns.map Node.type = types) ↔
        List.Forall₂ (HasType c.table.env) items types := by
  induction items generalizing c t ns with
  | nil =>
    cases run
    exact ⟨rfl, .nil, fun types => by simp⟩
  | cons a items ih =>
    cases run with
    | cons head tail =>
      obtain ⟨htable, hplain, htype⟩ := h a (by simp) sound head
      obtain ⟨htable', hplain', htypes⟩ :=
        ih (fun b hb => h b (by simp [hb])) (head.sound sound) tail
      rw [htable] at htable' htypes
      refine ⟨htable', hplain.append hplain', fun types => ?_⟩
      constructor
      · rintro ⟨hn, rfl⟩
        simp only [List.mem_cons, forall_eq_or_imp] at hn
        exact .cons ((htype _).mp ⟨hn.1, rfl⟩) ((htypes _).mp ⟨hn.2, rfl⟩)
      · intro hs
        cases hs with
        | cons ha has =>
          obtain ⟨hn, rfl⟩ := (htype _).mpr ha
          obtain ⟨hns, rfl⟩ := (htypes _).mpr has
          exact ⟨by simpa using ⟨hn, hns⟩, rfl⟩

theorem decidesType_option {item : Option Action} {c d : Context} {t : List Event} {ns : List Node}
    (run : Run (.all item.toList) c t ns d)
    (h : ∀ types, ((∀ n ∈ ns, n.error = false) ∧ ns.map Node.type = types) ↔
      List.Forall₂ (HasType c.table.env) item.toList types) (type : Ty) :
    (∀ n ∈ ns.head?, n.error = false ∧ n.type = type) ↔ ∀ a ∈ item, HasType c.table.env a type := by
  cases item with
  | none =>
    cases run
    simp
  | some a =>
    cases run with
    | cons _ tail =>
      cases tail
      simpa using h [type]

theorem Action.operands?_of_isExpression {action : Action} (unlined : action.isLined = false)
    (hk : action.kind.isExpression = true) (proper : action.Proper) :
    ∃ items, action.operands? = some items := by
  cases action <;> simp only [kind, Kind.isExpression, isLined, Bool.false_eq_true, reduceCtorEq]
    at hk unlined
  case operation op items =>
    cases items with
    | nil => exact absurd rfl proper.2
    | cons a as => exact ⟨_, rfl⟩
  all_goals exact ⟨_, rfl⟩

theorem table_made {action : Action} (hk : action.kind.isExpression = true) (nodes : List Node)
    (c : Context) : (action.made nodes c).2.table = c.table := by
  rcases made_cases action nodes c with ⟨problems, hm⟩ | ⟨type, name, size, rfl, -⟩
  · rw [hm]
    rfl
  · cases hk

theorem Action.Fits.decidesType {action : Action} (h : action.Fits strict .expression) :
    action.DecidesType := by
  generalize hp : Position.expression = position at h
  induction h with
  | lined line _ ih =>
    intro c d t n sound run
    cases run with
    | check operands _ _ => cases operands
    | lined inner =>
      have hs : (c.advanceTo line).table.Sound := sound
      obtain ⟨htable, hplain, htype⟩ := ih hp hs inner
      refine ⟨htable, hplain, fun type => (htype type).trans ⟨.lined line, fun h => ?_⟩⟩
      cases h with
      | lined _ h => exact h
  | @intro position action unlined here proper inside ih =>
    subst hp
    intro c d t n sound run
    obtain ⟨items, ho⟩ := operands?_of_isExpression unlined here proper
    have hitems : ∀ a ∈ items, a.DecidesType := fun a ha =>
      ih (.expression, a) (mem_parts_of_operands? ho ha) rfl
    obtain ⟨t', nodes, e, -, inner, rfl, hn, rfl⟩ := run.of_operands ho
    cases hn
    obtain ⟨htable, hplain, htypes⟩ := decidesType_all hitems sound inner
    have clean := (inner.accounted sound).clean
    have hl := length_of_exec_buildAll (exec_of_run inner)
    have hmade := accounts_made ho hl proper (inner.sound sound) clean
    refine ⟨(table_made here nodes e).trans htable, hplain.append (plain_checked action nodes e),
      fun type => ?_⟩
    rw [hasType_iff_rule ho here]
    constructor
    · rintro ⟨herror, htype⟩
      have unfailed : ∀ m ∈ nodes, m.error = false := by
        intro m hm
        have := mt hmade.error.mpr (by simp [herror])
        simp only [not_or, not_exists, not_and, Bool.not_eq_true] at this
        exact this.1 m hm
      have hrule := (passes_made clean unfailed ho here hl proper (inner.sound sound) type).mp
        ⟨herror, htype⟩
      rw [htable] at hrule
      exact ⟨_, (htypes _).mp ⟨unfailed, rfl⟩, hrule⟩
    · rintro ⟨types, hs, hrule⟩
      obtain ⟨unfailed, rfl⟩ := (htypes types).mpr hs
      rw [← htable] at hrule
      exact (passes_made clean unfailed ho here hl proper (inner.sound sound) type).mpr hrule

end Treewright
