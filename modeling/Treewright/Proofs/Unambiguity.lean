import Treewright.Proofs.Checks
import Treewright.Proofs.Legibility
import Treewright.Proofs.Widening
set_option autoImplicit false

namespace Treewright

open Build

namespace Fold

theorem lt_of_mem_coerced_step {f : Fold} {index : Nat} (h : ∀ i ∈ f.coerced, i < index)
    (fixed : Bool) (o : Operand) : ∀ i ∈ (f.step fixed index o).coerced, i < index + 1 := by
  have kept : ∀ i ∈ f.coerced, i < index + 1 := fun i hi => Nat.lt_succ_of_lt (h i hi)
  have takes := takes_step fixed f index o
  generalize f.step fixed index o = g at takes ⊢
  cases takes with
  | coerced => simpa [or_imp, forall_and] using kept
  | widened => simpa using fun i hi => Nat.lt_succ_of_lt hi
  | _ => exact kept

theorem lt_of_mem_coerced_run {f : Fold} {index : Nat} (h : ∀ i ∈ f.coerced, i < index)
    (fixed : Bool) (operands : List Operand) :
    ∀ i ∈ (f.run fixed index operands).coerced, i < index + operands.length := by
  induction operands generalizing f index with
  | nil => exact h
  | cons o operands ih =>
    have rest := ih (lt_of_mem_coerced_step h fixed o)
    simpa [run, Nat.add_assoc, Nat.add_comm 1] using rest

end Fold

theorem lt_of_mem_coerced_checkOperands (given : Option Ty) (operands : List Operand) :
    ∀ i ∈ (checkOperands given operands).coerced, i < operands.length := by
  intro i hi
  have bound := Fold.lt_of_mem_coerced_run (by simp) given.isSome operands i hi
  rwa [Nat.zero_add] at bound

theorem lt_of_mem_coerced_checkCall {all : Bool} {table : Table} {name : Name}
    {args : List Operand} {i : Nat} (hi : i ∈ (checkCall all table name args).2.coerced) :
    i < args.length := by
  unfold checkCall at hi
  split at hi
  · cases hi
  · dsimp only at hi
    split at hi
    · cases hi
    · simpa using (mem_coerced_checkArguments hi).2

theorem coerced_checkOperands_singleton {given : Option Ty} (hg : ∀ t ∈ given, t = .bool)
    (o : Operand) : (checkOperands given [o]).coerced = [] := by
  have takes := Fold.takes_step given.isSome { expected := given.getD o.type } 0 o
  change (Fold.step given.isSome { expected := given.getD o.type } 0 o).coerced = []
  generalize Fold.step given.isSome { expected := given.getD o.type } 0 o = g at takes ⊢
  cases takes with
  | coerced _ types | widened _ _ types =>
    cases given with
    | none => cases types.1.symm.trans types.2
    | some t => simp_all [hg t rfl]
  | _ => rfl

theorem ofOperation_eq (style : Style) (op : Op) (nodes : List Node) (c : Context) :
    ∃ expected result coerced failed,
      (Form.ofOperation style op none (nodes.map Node.seen) c).1 =
        .operation style op nodes expected result coerced failed ∧
      (∀ i ∈ coerced, i < nodes.length) ∧ (nodes.length = 1 → coerced = []) := by
  have bool : ∀ t ∈ Form.operandType style none, t = .bool := by
    cases style <;> simp [Form.operandType]
  unfold Form.ofOperation Form.ofFold
  rw [Node.map_fst_seen]
  refine ⟨_, _, _, _, rfl, ?_, ?_⟩
  · split
    · simp [checkCast]
    · intro i hi
      simpa using lt_of_mem_coerced_checkOperands _ _ i hi
  · intro hl
    obtain ⟨n, rfl⟩ := List.length_eq_one_iff.mp hl
    split
    · rfl
    · exact coerced_checkOperands_singleton bool _

/-- How many operands an operator may have. The minus sign is the one with a choice. -/
def Op.takes (op : Op) (count : Nat) : Bool :=
  match op with
  | .not | .unaryMinus => count = 1
  | .minus => 1 ≤ count
  | _ => 2 ≤ count

namespace Style

theorem styleOf_single {op : Op} (h : op.takes 1 = true) :
    (styleOf op 1).1.StandsBefore (styleOf op 1).2 := by
  cases op <;> simp only [Op.takes, decide_eq_true_eq, Nat.reduceLeDiff] at h
  · exact .not
  · exact .negation
  · exact .negation

theorem styleOf_several {op : Op} {count : Nat} (reserved : op.isReserved = false)
    (h : op.takes count = true) (hc : 2 ≤ count) :
    (styleOf op count).1.StandsBetween (styleOf op count).2 := by
  have hne : count ≠ 1 := by omega
  cases op <;> simp_all [Op.takes, Op.isReserved, StandsBetween, styleOf, Op.isComparison,
    Op.isConnective]

end Style

namespace Action

/-- An expression over words, where each operator has as many operands as it takes. -/
inductive Legible : Action → Prop where
  | lined {action : Action} (line : Int) (h : Legible action) : Legible (.lined line action)
  | ofVariable {name : String} (word : isToken name = true) : Legible (.variable (.text name))
  | ofConstant {type : Ty} {value : String} (word : isToken value = true) :
      Legible (.constant type value)
  | operation {op : Op} {items : List Action} (count : op.takes items.length = true)
      (operands : ∀ a ∈ items, Legible a) : Legible (.operation op items)
  | paren {a : Action} (operand : Legible a) : Legible (.paren a)
  | cast {target : Ty} {a : Action} (operand : Legible a) : Legible (.cast target a)
  | call {name : String} {items : List Action} (word : isToken name = true)
      (args : ∀ a ∈ items, Legible a) : Legible (.call (.text name) items)
  | access {name : String} {a : Action} (word : isToken name = true) (index : Legible a) :
      Legible (.access (.text name) a)
  | address {a : Action} (target : Legible a) : Legible (.address a)
  | reference {a : Action} (target : Legible a) : Legible (.reference a)

def BuildsLegible (action : Action) : Prop :=
  ∀ (c d : Context) (t : List Event) (n : Node), Run (.one action) c t [n] d → n.Legible

theorem legible_single {style : Style} {op : Op} (before : style.StandsBefore op) {n : Node}
    (hn : n.Legible) (mark : Mark) (c : Context) :
    Node.Legible (.mk mark (Form.ofOperation style op none ([n].map Node.seen) c).1) := by
  obtain ⟨expected, result, coerced, failed, heq, -, unmarked⟩ := ofOperation_eq style op [n] c
  rw [heq, unmarked rfl]
  exact .single before hn

theorem legible_several {style : Style} {op : Op} (between : style.StandsBetween op)
    {nodes : List Node} (hl : 2 ≤ nodes.length) (hn : ∀ n ∈ nodes, n.Legible) (mark : Mark)
    (c : Context) :
    Node.Legible (.mk mark (Form.ofOperation style op none (nodes.map Node.seen) c).1) := by
  obtain ⟨expected, result, coerced, failed, heq, widened, -⟩ := ofOperation_eq style op nodes c
  rw [heq]
  match nodes, hl with
  | n :: m :: ns, _ => exact .several between hn widened

theorem BuildsLegible.of_made {action : Action} {items : List Action}
    (ho : action.operands? = some items) (hitems : ∀ a ∈ items, a.BuildsLegible)
    (made : ∀ {nodes : List Node} (c : Context), nodes.length = items.length → action.Proper →
      (∀ n ∈ nodes, n.Legible) → (action.made nodes c).1.Legible) : action.BuildsLegible := by
  intro c d t n run
  obtain ⟨t', nodes, e, proper, inner, -, hn, -⟩ := run.of_operands ho
  cases hn
  exact made e (length_of_exec_buildAll (exec_of_run inner)) proper (inner.forall_nodes hitems)

theorem BuildsLegible.of_single {action a : Action} (ho : action.operands? = some [a])
    (ha : a.BuildsLegible) (made : ∀ {n : Node} (c : Context), action.Proper → n.Legible →
      (action.made [n] c).1.Legible) : action.BuildsLegible := by
  refine .of_made ho (List.forall_mem_singleton.mpr ha) fun c hl proper hn => ?_
  obtain ⟨n, rfl⟩ := List.length_eq_one_iff.mp hl
  exact made c proper (hn n (by simp))

theorem Legible.builds {action : Action} (h : action.Legible) : action.BuildsLegible := by
  induction h with
  | lined line _ ih =>
    intro c d t n run
    cases run with
    | check operands _ _ => cases operands
    | lined inner => exact ih _ _ _ _ inner
  | ofVariable word => exact .of_made rfl (by simp) fun _ _ _ _ => .ofVariable word
  | ofConstant word => exact .of_made rfl (by simp) fun _ _ _ _ => .ofConstant word
  | @operation op items count operands ih =>
    have ho : (Action.operation op items).operands? = some items := by
      cases items with
      | nil => cases op <;> cases count
      | cons => rfl
    refine .of_made ho ih fun {nodes} c hl proper hn => ?_
    rw [← hl] at count
    rcases Nat.lt_or_ge nodes.length 2 with one | many
    · have single : nodes.length = 1 := by
        cases op <;> simp_all [Op.takes] <;> omega
      obtain ⟨n, rfl⟩ := List.length_eq_one_iff.mp single
      exact legible_single (Style.styleOf_single count) (hn n (by simp)) _ c
    · exact legible_several (Style.styleOf_several proper.1 count many) many hn _ c
  | paren _ ih => exact .of_single rfl ih fun c _ hn => legible_single .paren hn _ c
  | cast _ ih => exact .of_single rfl ih fun c proper hn => legible_single (.cast proper) hn _ c
  | call word _ ih =>
    refine .of_made rfl ih fun c _ _ hn => .call word hn fun i hi => ?_
    simpa using lt_of_mem_coerced_checkCall hi
  | access word _ ih => exact .of_single rfl ih fun _ _ hn => .access word hn
  | address _ ih => exact .of_single rfl ih fun _ _ hn => .wrapper (by simp) hn
  | reference _ ih => exact .of_single rfl ih fun _ _ hn => .wrapper (by simp) hn

end Action

/-- Two expressions, built anywhere, have the same code exactly when they have the same shape. -/
theorem code_eq_iff_sameShape {v w : Value} (hv : (Action.ofValue v).Legible)
    (hw : (Action.ofValue w).Legible) {c c' d d' : Context} {n m : Node}
    (hn : exec (build (Action.ofValue v)) c = (.ok n, d))
    (hm : exec (build (Action.ofValue w)) c' = (.ok m, d')) :
    n.render 0 = m.render 0 ↔ n.SameShape m := by
  obtain ⟨t, run⟩ := (Action.wellFormed_ofValue v).runs c [n] d (exec_one_node.mpr hn)
  obtain ⟨t', run'⟩ := (Action.wellFormed_ofValue w).runs c' [m] d' (exec_one_node.mpr hm)
  have legible := hv.builds _ _ _ _ run
  have legible' := hw.builds _ _ _ _ run'
  have renders : n.fault? = none := run.renders n (by simp)
  have renders' : m.fault? = none := run'.renders m (by simp)
  simp only [Node.render, renders, renders', Except.ok.injEq]
  constructor
  · intro same
    refine (legible.readsBack legible' .nil .nil ?_).1
    rw [same]
  · exact fun shape => String.toList_inj.mp (legible.text_eq m shape)

theorem exists_built {action : Action} {c : Context} {code : String}
    (h : (exec (build action) c).1.toOption.bind (fun n => (n.render 0).toOption) = some code) :
    ∃ n d, exec (build action) c = (.ok n, d) ∧ n.render 0 = .ok code := by
  cases built : exec (build action) c with
  | mk result d =>
    rw [built] at h
    cases result with
    | error fault => cases h
    | ok n =>
      refine ⟨n, d, rfl, ?_⟩
      cases rendered : n.render 0 <;> simp_all [Except.toOption]

def sumWithFloat (item : Value) : Value :=
  .object [("node", .string "op"), ("op", .string "+"), ("operands", .list [item,
    .object [("node", .string "const"), ("type", .string "float"), ("value", .string "1.5")]])]

theorem code_eq_iff_sameShape_widened :
    let v := sumWithFloat (.object [("node", .string "var"), ("name", .string "x")])
    let w := sumWithFloat
      (.object [("node", .string "const"), ("type", .string "int"), ("value", .string "x")])
    let c : Context := (Context.declare {} (.text "x") .int 1).2
    (Action.ofValue v).Legible ∧ (Action.ofValue w).Legible ∧
      ∃ n m d d', exec (build (.ofValue v)) c = (.ok n, d) ∧
        exec (build (.ofValue w)) {} = (.ok m, d') ∧
        n.render 0 = .ok "([float] x + 1.5)" ∧ m.render 0 = .ok "([float] x + 1.5)" ∧
        n.SameShape m := by
  intro v w c
  have hv : (Action.ofValue v).Legible := by
    have read : Action.ofValue v =
      .operation .plus [.variable (.text "x"), .constant .float "1.5"] := rfl
    rw [read]
    exact .operation rfl (by simpa using ⟨.ofVariable (by decide), .ofConstant (by decide)⟩)
  have hw : (Action.ofValue w).Legible := by
    have read : Action.ofValue w =
      .operation .plus [.constant .int "x", .constant .float "1.5"] := rfl
    rw [read]
    exact .operation rfl (by simpa using ⟨.ofConstant (by decide), .ofConstant (by decide)⟩)
  obtain ⟨n, d, hn, code⟩ : ∃ n d, exec (build (.ofValue v)) c = (.ok n, d) ∧
      n.render 0 = .ok "([float] x + 1.5)" := exists_built (by decide +kernel)
  obtain ⟨m, d', hm, code'⟩ : ∃ m d', exec (build (.ofValue w)) {} = (.ok m, d') ∧
      m.render 0 = .ok "([float] x + 1.5)" := exists_built (by decide +kernel)
  exact ⟨hv, hw, n, m, d, d', hn, hm, code, code',
    (code_eq_iff_sameShape hv hw hn hm).mp (code.trans code'.symm)⟩

end Treewright
