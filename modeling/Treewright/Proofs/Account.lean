import Treewright.Proofs.Checks
import Treewright.Proofs.Documents
import Treewright.Proofs.Effects
set_option autoImplicit false

namespace Treewright

open Build

def Blamed (trace : List Event) : Prop := ∃ diagnostic, Event.reported .node diagnostic ∈ trace

@[simp] theorem blamed_nil : ¬Blamed [] := by simp [Blamed]

@[simp] theorem blamed_append (t t' : List Event) : Blamed (t ++ t') ↔ Blamed t ∨ Blamed t' := by
  simp [Blamed, exists_or]

theorem reported_report (source : Source) (c : Context) (problems : List Problem) :
    reported source c (c.report problems) =
      problems.map fun p => .reported source ⟨c.log.line, p⟩ := by
  simp [reported, Context.report]

theorem blamed_report (c : Context) (problems : List Problem) :
    Blamed (reported .node c (c.report problems)) ↔ problems ≠ [] := by
  rw [reported_report]
  cases problems with
  | nil => simp
  | cons p ps => simp [Blamed]

@[simp] theorem blamed_parameter (c d : Context) : ¬Blamed (reported .parameter c d) := by
  rintro ⟨diagnostic, h⟩
  obtain ⟨_, -, he⟩ := List.mem_map.mp h
  cases he

@[simp] theorem blamed_inSize (t : List Event) : ¬Blamed (t.map Event.inSize) := by
  rintro ⟨diagnostic, h⟩
  obtain ⟨e, -, he⟩ := List.mem_map.mp h
  cases e <;> cases he

@[simp] theorem blamed_accepted (own : Option Symbol) (name : Name) (body : Option (List Action)) :
    ¬Blamed (accepted own name body) := by
  simp [Blamed, accepted]

theorem not_blamed_marks {c d : Context} {name : Name} {own : Option Symbol} {marks : List Event}
    (h : c.mark? name own = some (marks, d)) : ¬Blamed marks := by
  cases own with
  | none =>
    cases h
    exact blamed_nil
  | some own =>
    obtain ⟨found, -, he⟩ := Option.map_eq_some_iff.mp h
    cases he
    simp [Blamed]

theorem blamed_declare (c : Context) (name : Name) (type : Ty) (line : Int) :
    Blamed (reported .node c (c.declare name type line).2) ↔
      (c.declare name type line).1 = false := by
  rcases c.declare_cases name type line with ⟨-, he⟩ | ⟨-, he⟩
  · rw [he]
    simp [reported]
  · rw [he, blamed_report]
    simp

/-- A node that is flagged when a child is or when its check is to blame, and that is fit to be
checked by the node around it. -/
structure Accounts (n : Node) (children : List Node) (trace : List Event) : Prop where
  error : n.error = true ↔ (∃ m ∈ children, m.error = true) ∨ Blamed trace
  clean : n.operand.Clean

theorem operands_failed (nodes : List Node) :
    (∃ o ∈ nodes.map Node.operand, o.failed = true) ↔ ∃ m ∈ nodes, m.error = true := by
  simp [Node.operand]

theorem operands_clean {nodes : List Node} (h : ∀ n ∈ nodes, n.operand.Clean) :
    ∀ o ∈ nodes.map Node.operand, o.Clean := by simpa using h

def operationNode (style : Style) (op : Op) (nodes : List Node) (c : Context) : Node × Context :=
  (Form.ofOperation style op none (nodes.map Node.seen) c).map (.mk { line := c.line }) id

theorem accounts_cast {target : Ty} (proper : target.isWritten = true) (op : Op) (n : Node)
    (c : Context) :
    Accounts (operationNode (.cast target) op [n] c).1 [n]
      (reported .node c (operationNode (.cast target) op [n] c).2) where
  error := by
    have hr : (operationNode (.cast target) op [n] c).2 = c.report [] := rfl
    rw [hr, blamed_report]
    simp [operationNode, Form.ofOperation, Form.ofFold, checkCast, Node.seen, Node.error,
      Node.operand]
  clean := .of_isWritten proper _

theorem clean_settled {type : Ty} {failed : Bool} (native : type.native = true)
    (present : type = .any → failed = true) :
    (Operand.mk (if failed = true then .any else type) failed).Clean := by
  cases failed with
  | true => exact ⟨rfl, fun _ => rfl⟩
  | false => exact ⟨native, present⟩

theorem styleOf_ne_cast (op : Op) (count : Nat) (target : Ty) :
    (styleOf op count).1 ≠ .cast target := by
  unfold styleOf
  split
  · simp
  · split
    · simp
    · split <;> simp

theorem operationNode_eq {style : Style} (hs : ∀ target, style ≠ .cast target) (op : Op)
    (nodes : List Node) (c : Context) :
    operationNode style op nodes c = (Form.ofFold style op nodes
      (checkOperands (Form.operandType style none) (nodes.map Node.operand)) c).map
        (.mk { line := c.line }) id := by
  have hmap : (nodes.map Node.seen).map (·.2) = nodes.map Node.operand := by simp [Node.seen]
  unfold operationNode Form.ofOperation
  split
  · rename_i target _ _
    exact absurd rfl (hs target)
  · rw [hmap, Node.map_fst_seen]

theorem accounts_operation {style : Style} (op : Op) {nodes : List Node} (hne : nodes ≠ [])
    (hs : ∀ target, style ≠ .cast target) (clean : ∀ n ∈ nodes, n.operand.Clean) (c : Context) :
    Accounts (operationNode style op nodes c).1 nodes
      (reported .node c (operationNode style op nodes c).2) := by
  rw [operationNode_eq hs]
  constructor
  · have hacc := accounts_checkOperands (Form.operandType style none) (nodes.map Node.operand)
    rw [Fold.Accounts, operands_failed, ← Fold.problems_ne_nil, ← blamed_report c] at hacc
    exact hacc
  · have hnone := expected_checkOperands (by simpa using hne) (operands_clean clean)
    have hbool := expected_checkOperands_bool (nodes.map Node.operand)
    cases style with
    | cast target => exact absurd rfl (hs target)
    | comparison => exact clean_settled rfl fun h => by cases h
    | connective =>
      refine clean_settled ?_ fun h => ?_
      · exact congrArg Ty.native hbool
      · exact absurd (hbool.symm.trans h) (by simp)
    | plain | paren | negation => exact clean_settled hnone.1 hnone.2

theorem clean_wrapper (wrap : Wrap) {o : Operand} (h : o.Clean) :
    (Operand.mk (Form.wrapType wrap o.type) o.failed).Clean := by
  by_cases ha : o.type = .any
  · refine ⟨?_, fun _ => h.failed ha⟩
    simp [Form.wrapType, ha, Ty.native]
  · have hn := h.native
    refine ⟨?_, fun hw => ?_⟩
    · cases wrap <;> simp [Form.wrapType, Ty.isError, ha, Ty.native, hn]
    · cases wrap <;> simp [Form.wrapType, Ty.isError, ha] at hw

theorem accounts_made {action : Action} {items : List Action} {nodes : List Node} {c : Context}
    (ho : action.operands? = some items) (hl : nodes.length = items.length)
    (proper : action.Proper) (sound : c.table.Sound) (clean : ∀ n ∈ nodes, n.operand.Clean) :
    Accounts (action.made nodes c).1 nodes (action.checked nodes c) := by
  cases action <;> simp only [Action.operands?, reduceCtorEq, Option.some.injEq] at ho
  case arrayDecl type name size =>
    subst ho
    have hn : nodes = [] := List.length_eq_zero_iff.mp hl
    refine ⟨?_, .of_isWritten proper _⟩
    have hd := blamed_declare c name (.array type (.string size)) c.line
    simpa [hn, Action.checked, Action.made, Form.ofArrayDecl, Node.error] using hd.symm
  case «variable» name =>
    subst ho
    have hn : nodes = [] := List.length_eq_zero_iff.mp hl
    obtain ⟨hacc, hclean⟩ := checkVariable_spec sound name
    refine ⟨?_, hclean⟩
    rw [Verdict.Accounts, ← blamed_report c] at hacc
    simpa [hn, Action.checked, Action.made, Form.ofVariable, Node.error] using hacc
  case constant type value =>
    subst ho
    have hn : nodes = [] := List.length_eq_zero_iff.mp hl
    refine ⟨?_, .of_isWritten proper _⟩
    simp [hn, Action.checked, Action.made, Node.error, reported]
  case operation op operands =>
    have hne : nodes ≠ [] := by
      rintro rfl
      cases operands with
      | nil => exact proper.2 rfl
      | cons a as =>
        simp only [Option.some.injEq] at ho
        simp [← ho] at hl
    exact accounts_operation _ hne (styleOf_ne_cast op nodes.length) clean c
  case paren operand =>
    subst ho
    have hne : nodes ≠ [] := by
      rintro rfl
      simp at hl
    exact accounts_operation _ hne (by simp) clean c
  case cast target operand =>
    subst ho
    obtain ⟨n, rfl⟩ := List.length_eq_one_iff.mp hl
    exact accounts_cast proper _ n c
  case assign target value =>
    subst ho
    obtain ⟨t, v, rfl⟩ := List.length_eq_two.mp hl
    have hacc := accounts_checkAssignment t.operand v.operand
    rw [Verdict.Accounts, ← blamed_report c] at hacc
    refine ⟨?_, .of_isWritten rfl _⟩
    simpa [Action.checked, Action.made, Form.ofAssignment, Node.error, Node.seen, Node.operand]
      using hacc
  case ret operand =>
    subst ho
    cases operand with
    | none =>
      have hn : nodes = [] := List.length_eq_zero_iff.mp hl
      refine ⟨?_, by subst hn; exact .of_isWritten rfl _⟩
      simp [hn, Action.checked, Action.made, Node.error, Node.optionError, reported]
    | some a =>
      obtain ⟨n, rfl⟩ := List.length_eq_one_iff.mp hl
      refine ⟨?_, clean n (by simp)⟩
      simp [Action.checked, Action.made, Node.error, Node.optionError, reported]
  case call name args =>
    obtain ⟨hacc, hclean⟩ := checkCall_spec c.reportAll sound name (operands_clean clean)
    refine ⟨?_, hclean⟩
    rw [operands_failed, ← blamed_report c] at hacc
    have hcall (e : Event) (t : List Event) (he : ∀ d, e ≠ .reported .node d) :
        Blamed (e :: t) ↔ Blamed t := by
      simp [Blamed, fun d => (he d).symm]
    simpa [Action.checked, Action.made, Form.ofCall, Node.error, hcall] using hacc
  case access name index =>
    subst ho
    obtain ⟨i, rfl⟩ := List.length_eq_one_iff.mp hl
    obtain ⟨harray, hclean⟩ := checkArray_spec sound name (checkIndex i.operand).failed
    have hindex := accounts_checkIndex (clean i (by simp))
    refine ⟨?_, hclean⟩
    rw [Verdict.Accounts] at harray hindex
    change ((checkArray c.table name).2.failed || (checkIndex i.operand).failed) = true ↔
      _ ∨ Blamed (reported .node c
        (c.report ((checkArray c.table name).2.problems ++ (checkIndex i.operand).problems)))
    rw [blamed_report, Bool.or_eq_true, harray, hindex]
    simp only [Node.operand, List.mem_singleton, exists_eq_left, ne_eq, List.append_eq_nil_iff,
      false_or, not_and_or]
    exact or_left_comm
  case address operand | reference operand =>
    subst ho
    obtain ⟨n, rfl⟩ := List.length_eq_one_iff.mp hl
    refine ⟨?_, clean_wrapper _ (clean n (by simp))⟩
    simp [Action.checked, Action.made, Form.ofWrapper, Node.error, Node.seen, Node.operand,
      reported]
  case nop =>
    subst ho
    have hn : nodes = [] := List.length_eq_zero_iff.mp hl
    refine ⟨?_, .of_isWritten rfl _⟩
    simp [hn, Action.checked, Action.made, Node.error, reported]

theorem reported_trans {c d e : Context} (h : c.log.diagnostics <+: d.log.diagnostics)
    (h' : d.log.diagnostics <+: e.log.diagnostics) (source : Source) :
    reported source c e = reported source c d ++ reported source d e := by
  obtain ⟨new, hn⟩ := h
  obtain ⟨more, hm⟩ := h'
  simp [reported, ← hm, ← hn, List.append_assoc]

theorem blamed_bind {c d : Context} {returns : Ty} {name : Name} {params : List (Ty × Name)}
    {own : Option Symbol} (h : c.bind returns name params = (own, d)) :
    Blamed (reported .node c d) ↔ own.isNone = true := by
  have hown := bind_fst_isNone c returns name params
  rw [h] at hown
  have hd : (c.declareFunction name (signatureOf params) returns c.line).2 = d :=
    congrArg Prod.snd h
  rw [hown, ← hd]
  rcases c.declareFunction_cases name (signatureOf params) returns c.line with
    ⟨-, he⟩ | ⟨s, -, ⟨-, he⟩ | ⟨-, he⟩⟩
  · simp [he, reported]
  · simp [he, reported]
  · simp [he, blamed_report]

theorem optionError_head? {ns : List Node} (h : ns.length ≤ 1) :
    Node.optionError ns.head? = true ↔ ∃ n ∈ ns, n.error = true := by
  match ns with
  | [] => simp [Node.optionError]
  | [n] => simp [Node.optionError]
  | _ :: _ :: _ => simp at h

theorem anyError_iff {ns : List Node} : Node.anyError ns = true ↔ ∃ n ∈ ns, n.error = true := by
  simp [Node.anyError_eq_any]

/-- The nodes are flagged exactly when something was reported against a node, and they are fit to be
checked. -/
structure Accounted (ns : List Node) (t : List Event) : Prop where
  error : (∃ n ∈ ns, n.error = true) ↔ Blamed t
  clean : ∀ n ∈ ns, n.operand.Clean

theorem Accounted.nil : Accounted [] [] := ⟨by simp, by simp⟩

theorem Accounted.cons {n : Node} {ns : List Node} {t t' : List Event} (h : Accounted [n] t)
    (h' : Accounted ns t') : Accounted (n :: ns) (t ++ t') := by
  have he := h.error
  simp only [List.mem_singleton, exists_eq_left] at he
  refine ⟨?_, fun m hm => ?_⟩
  · simp only [List.mem_cons, exists_eq_or_imp, he, h'.error, blamed_append]
  · rcases List.mem_cons.mp hm with rfl | hm
    · exact h.clean m (by simp)
    · exact h'.clean m hm

theorem Accounted.statement {n : Node} {t : List Event} (hv : n.type.isWritten = true)
    (h : n.error = true ↔ Blamed t) : Accounted [n] t := by
  refine ⟨by simpa using h, fun m hm => ?_⟩
  rw [List.mem_singleton.mp hm]
  exact .of_isWritten hv _

theorem Accounted.one {n : Node} {t : List Event} (h : Accounted [n] t) :
    n.error = true ↔ Blamed t := by simpa using h.error

theorem Accounted.bound {type : Ty} {name : Name} {vs : List Node} {n : Node} {c d : Context}
    {t : List Event} (proper : type.isWritten = true) (hl : vs.length ≤ 1) (h : Accounted vs t)
    (hb : boundNode type name vs.head? c = (n, d)) : Accounted [n] (t ++ reported .node c d) := by
  obtain ⟨rfl, rfl⟩ := Prod.ext_iff.mp hb
  refine .statement proper ?_
  have hdeclare := (steps_extends.declare c name c.line (.plain proper)).log
  have settle (verdict : Verdict) (hv : verdict.Accounts (∃ m ∈ vs, m.error = true)) :
      (!(c.declare name type c.line).1 || verdict.failed) = true ↔
        Blamed
          (t ++ reported .node c ((c.declare name type c.line).2.report verdict.problems)) := by
    have hreport := (Context.Extends.report (c.declare name type c.line).2 verdict.problems).log
    rw [Verdict.Accounts] at hv
    rw [reported_trans hdeclare hreport, blamed_append, blamed_append, blamed_declare,
      blamed_report,
      Bool.or_eq_true, Bool.not_eq_true', hv, h.error]
    exact or_left_comm
  match vs with
  | [] => exact settle ⟨false, []⟩ (by simp [Verdict.Accounts])
  | [v] =>
    have hv := accounts_checkInitial (h.clean v (by simp)) type
    exact settle (checkInitial type v.operand) (by simpa [Verdict.Accounts, Node.operand] using hv)

theorem error_functionNode (line : Int) (returns : Ty) (name : Name) (params : List (Ty × Name))
    (rejected : Bool) (body : Option Node) :
    (functionNode line returns name params rejected body).error =
      (rejected || Node.optionError body) := by
  simp [functionNode, Node.error]

theorem failed_test {n : Node} (clean : n.operand.Clean) (c : Context) :
    (checkTest n.operand).failed = true ↔
      n.error = true ∨ Blamed (reported .node c (c.report (checkTest n.operand).problems)) := by
  rw [blamed_report]
  exact accounts_checkTest clean

theorem Run.accounted {task : Task} {c d : Context} {t : List Event} {ns : List Node}
    (h : Run task c t ns d) (sound : c.table.Sound) : Accounted ns t := by
  -- A check is blamed rightly only over clean operands, so cleanness is part of the invariant.
  induction h with
  | nil | noBlock | noBinding | noLine => exact .nil
  | cons head _ ih ih' => exact .cons (ih sound) (ih' (head.sound sound))
  | block inside leave _ ih ih' =>
    have hin := ih (sound.enter _)
    have hout := steps_sound.scope (c := _) inside.sound leave sound
    refine .cons (.statement rfl ?_) (ih' hout)
    exact anyError_iff.trans hin.error
  | binding proper given bound _ ih ih' =>
    have hg := given.sound sound
    exact .cons (.bound proper (length_of_run_option given) (ih sound) bound)
      (ih' (steps_sound.boundNode proper bound hg))
  | line head mark _ ih ih' =>
    have hd := steps_sound.mark mark (head.sound sound)
    have hm := not_blamed_marks mark
    have hhead := ih sound
    refine .cons ⟨?_, hhead.clean⟩ (ih' hd)
    simpa [hm] using hhead.error
  | lined _ ih => exact ih sound
  | check operands proper inner ih =>
    have hi := ih sound
    have hl := length_of_exec_buildAll (exec_of_run inner)
    have hm := accounts_made operands hl proper (inner.sound sound) hi.clean
    refine ⟨?_, by simpa using hm.clean⟩
    simp only [List.mem_singleton, exists_eq_left, hm.error, hi.error, blamed_append]
  | declaration proper _ ih => exact .statement proper (anyError_iff.trans (ih sound).error)
  | @sizedArray type name _ text _ _ _ d _ _ proper _ _ made _ =>
    obtain ⟨rfl, rfl⟩ := Prod.ext_iff.mp made
    refine .statement proper ?_
    have hd := blamed_declare d name (.array type (.string text)) d.line
    simpa [Node.error, Action.made, Form.ofArrayDecl] using hd.symm
  | scope _ ih => exact ih sound
  | @conditional _ _ _ n b _ bs _ _ e _ t t' test inside made ih ih' =>
    obtain ⟨rfl, rfl⟩ := Prod.ext_iff.mp made
    have hc := ih sound
    have hb := ih' (test.sound sound)
    have hbs := length_of_run_branches inside
    have htest := failed_test (hc.clean n (by simp)) e
    refine .statement rfl ?_
    change ((checkTest n.operand).failed || b.error || Node.optionError bs.head?) = true ↔
      Blamed (t ++ t' ++ reported .node e (e.report (checkTest n.operand).problems))
    simp only [Bool.or_eq_true, htest, optionError_head? hbs, blamed_append, ← hc.one, ← hb.error,
      List.mem_cons, exists_eq_or_imp]
    simp only [or_assoc, or_comm, or_left_comm]
  | @loop _ _ _ _ n b _ is us c c₁ c₂ c₃ c₄ d _ t₁ t₂ t₃ t₄ first condition next inside leave made
      ih₁ ih₂ ih₃ ih₄ =>
    obtain ⟨rfl, rfl⟩ := Prod.ext_iff.mp made
    have s₁ := first.sound (sound.enter .nothing)
    have s₂ := condition.sound s₁
    have h₁ := ih₁ (sound.enter .nothing)
    have h₂ := ih₂ s₁
    have h₃ := ih₃ s₂
    have h₄ := ih₄ (next.sound s₂)
    have htest := failed_test (h₂.clean n (by simp)) d
    refine .statement rfl ?_
    change ((checkTest n.operand).failed || Node.optionError is.head? || n.error ||
      Node.optionError us.head? || b.error) = true ↔
        Blamed (t₁ ++ t₂ ++ t₃ ++ t₄ ++ reported .node d (d.report (checkTest n.operand).problems))
    simp only [Bool.or_eq_true, htest, optionError_head? (length_of_run_option first),
      optionError_head? (length_of_run_option next), blamed_append, ← h₁.error, ← h₂.one,
      ← h₃.error, ← h₄.one]
    -- The flag of the condition counts twice, as its own and as that of the test.
    simp only [or_assoc, or_comm, or_left_comm, or_self_left]
  | prototype proper bound =>
    refine .statement proper.1 ?_
    simp [error_functionNode, Node.optionError, blamed_bind bound]
  | emptyBody proper bound mark _ =>
    have hm := not_blamed_marks mark
    refine .statement proper.1 ?_
    simp [error_functionNode, Node.optionError, blamed_bind bound, hm, Build.block, Node.error,
      Node.anyError]
  | function proper bound lines leave ih =>
    have hin := ih (sound_inside proper bound sound)
    have hbody : (Build.block "Body" _).error = true ↔ Blamed _ := anyError_iff.trans hin.error
    refine .statement proper.1 ?_
    simp only [error_functionNode, Node.optionError, Bool.or_eq_true, hbody, blamed_append,
      blamed_bind bound, blamed_accepted, blamed_parameter, or_false]

/-- The contexts that a builder can come to. It starts from a fresh one, opens and closes scopes,
moves on to a line, reports, declares and defines, and builds whatever document, however the build
ends. -/
inductive Context.Reachable : Context → Prop where
  | fresh (reportAll : Bool) : Reachable { reportAll }
  | built {c : Context} (h : c.Reachable) (action : Value) :
      Reachable (exec (build (.ofValue action)) c).2
  | entered {c : Context} (h : c.Reachable) (name : Name) : Reachable (c.enter name)
  | left {c d : Context} (h : c.Reachable) (hl : c.leave? = some d) : Reachable d
  | advanced {c : Context} (h : c.Reachable) (line : Int) : Reachable (c.advanceTo line)
  | reported {c : Context} (h : c.Reachable) (problems : List Problem) :
      Reachable (c.report problems)
  | declared {c : Context} (h : c.Reachable) (name : Name) {type : Ty} (line : Int)
      (ht : type.Stored) : Reachable (c.declare name type line).2
  | bound {c : Context} (h : c.Reachable) (name : Name) {params : List (Ty × Value)} {returns : Ty}
      (line : Int) (hp : ∀ p ∈ params, p.1.isWritten = true) (hr : returns.isWritten = true) :
      Reachable (c.declareFunction name params returns line).2
  | defined {c : Context} (h : c.Reachable) {name : Name} {table : Table}
      (hd : c.table.define? name = some table) : Reachable { c with table }

theorem Context.Reachable.sound {c : Context} (h : c.Reachable) : c.table.Sound := by
  induction h with
  | fresh reportAll => exact .empty
  | @built c _ action ih =>
    exact (keeps_build steps_sound (Action.wellFormed_ofValue action) c).1 ih
  | entered _ name ih => exact ih.enter name
  | left _ hl ih => exact ih.leave hl
  | advanced _ line ih => exact ih
  | reported _ problems ih => exact ih
  | @declared c _ name type line ht ih => exact steps_sound.declare c name line ht ih
  | @bound c _ name params returns line hp hr ih =>
    exact steps_sound.declareFunction c name line hp hr ih
  | defined _ hd ih => exact steps_sound.define hd ih

/-- In every reachable context, a node built from any document is flagged exactly when something was
reported during its build against a node: neither of a repeated parameter of a function, nor while
the size of an array was built. -/
theorem error_iff_reported {c d : Context} (reachable : c.Reachable) {action : Value} {n : Node}
    (built : exec (build (.ofValue action)) c = (.ok n, d)) :
    (∃ trace, Run (.one (.ofValue action)) c trace [n] d) ∧
      ∀ trace, Run (.one (.ofValue action)) c trace [n] d →
        d.log.diagnostics = c.log.diagnostics ++ diagnosticsOf trace ∧
        (n.error = true ↔ ∃ diagnostic, .reported .node diagnostic ∈ trace) := by
  refine ⟨?_, fun trace run => ⟨run.diagnostics, ?_⟩⟩
  · exact (Action.wellFormed_ofValue action).runs c [n] d (exec_one_node.mpr built)
  · exact (run.accounted reachable.sound).one

def arrayOfUnknownSize : Value :=
  .object [("node", .string "array_decl"), ("type", .string "int"), ("name", .string "a"),
    ("size", .object [("node", .string "var"), ("name", .string "x")])]

theorem error_iff_reported_size :
    let c : Context := {}
    let d := (exec (build (.ofValue arrayOfUnknownSize)) c).2
    let n : Node := .mk { line := 1 } (.arrayDecl .int (.text "a") "x" false)
    c.Reachable ∧ exec (build (.ofValue arrayOfUnknownSize)) c = (.ok n, d) ∧
      d.log.diagnostics = [⟨1, .undeclared (.text "x")⟩] ∧ n.error = false ∧
      ∀ trace, Run (.one (.ofValue arrayOfUnknownSize)) c trace [n] d →
        ¬∃ diagnostic, .reported .node diagnostic ∈ trace := by
  intro c d n
  have reachable : c.Reachable := .fresh true
  have built : exec (build (.ofValue arrayOfUnknownSize)) c = (.ok n, d) := rfl
  refine ⟨reachable, built, rfl, rfl, fun trace run => ?_⟩
  rw [← ((error_iff_reported reachable built).2 trace run).2]
  simp [n, Node.error]

end Treewright
