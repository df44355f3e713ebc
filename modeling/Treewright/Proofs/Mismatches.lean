import Treewright.Proofs.Account
import Treewright.Proofs.Inspections
import Treewright.Proofs.Widening
set_option autoImplicit false

namespace Treewright

open Build

/-- The trace with only the first mismatched argument of each call. A call comes right before what
is reported of it, and `told` says whether a mismatch of the call at hand has been kept. -/
def firstMismatches (told : Bool) : List Event → List Event
  | [] => []
  | .called function args :: trace => .called function args :: firstMismatches false trace
  | .reported source diagnostic :: trace =>
    if diagnostic.kind = .incompatibleParam then
      if told then firstMismatches true trace
      else .reported source diagnostic :: firstMismatches true trace
    else .reported source diagnostic :: firstMismatches told trace
  | event :: trace => event :: firstMismatches told trace

def Thins (t t' : List Event) : Prop :=
  ∀ told, ∃ told', ∀ rest,
    firstMismatches told (t ++ rest) = t' ++ firstMismatches told' rest

namespace Thins

variable {t t' u u' : List Event}

theorem nil : Thins [] [] := fun told => ⟨told, fun _ => rfl⟩

theorem append (h : Thins t t') (h' : Thins u u') : Thins (t ++ u) (t' ++ u') := by
  intro told
  obtain ⟨told₁, ht⟩ := h told
  obtain ⟨told₂, hu⟩ := h' told₁
  refine ⟨told₂, fun rest => ?_⟩
  rw [List.append_assoc, ht, hu, List.append_assoc]

theorem eq (h : Thins t t') (told : Bool) : firstMismatches told t = t' := by
  obtain ⟨told', ht⟩ := h told
  simpa [firstMismatches] using ht []

theorem same (h : ∀ d ∈ diagnosticsOf t, d.kind ≠ .incompatibleParam) : Thins t t := by
  induction t with
  | nil => exact nil
  | cons event t ih =>
    have hrest : Thins t t := ih fun d hd => h d <| by
      rw [diagnosticsOf, List.filterMap_cons]
      split
      · exact hd
      · exact List.mem_cons_of_mem _ hd
    intro told
    cases event with
    | called function args =>
      obtain ⟨told', ht⟩ := hrest false
      exact ⟨told', fun rest => by simp [firstMismatches, ht]⟩
    | reported source d =>
      have hd : d.kind ≠ .incompatibleParam := h d (by simp [diagnosticsOf, Event.diagnostic?])
      obtain ⟨told', ht⟩ := hrest told
      exact ⟨told', fun rest => by simp [firstMismatches, hd, ht]⟩
    | accepted own name body | marked own found =>
      obtain ⟨told', ht⟩ := hrest told
      exact ⟨told', fun rest => by simp [firstMismatches, ht]⟩

theorem firstMismatches_told {ds : List Diagnostic} (h : ∀ d ∈ ds, d.kind = .incompatibleParam)
    (source : Source) (rest : List Event) :
    firstMismatches true (ds.map (.reported source) ++ rest) = firstMismatches true rest := by
  induction ds with
  | nil => rfl
  | cons d ds ih =>
    obtain ⟨hd, hds⟩ := List.forall_mem_cons.mp h
    simp [firstMismatches, hd, ih hds]

theorem call {ds : List Diagnostic} (h : ∀ d ∈ ds, d.kind = .incompatibleParam)
    (function : Option Symbol) (args : List Operand) (source : Source) :
    Thins (.called function args :: ds.map (.reported source))
      (.called function args :: (ds.take 1).map (.reported source)) := by
  intro told
  cases ds with
  | nil => exact ⟨false, fun rest => by simp [firstMismatches]⟩
  | cons d ds =>
    obtain ⟨hd, hds⟩ := List.forall_mem_cons.mp h
    exact ⟨true, fun rest => by simp [firstMismatches, hd, firstMismatches_told hds]⟩

end Thins

/-- Trees of one shape, in which nodes in the same place have the same mark, label, type and error
flag. -/
inductive Node.Matches : Node → Node → Prop where
  | intro {n m : Node} (mark : m.mark = n.mark) (label : m.label = n.label)
      (type : m.type = n.type) (error : m.error = n.error)
      (below : List.Forall₂ Node.Matches n.edges m.edges) : Node.Matches n m

namespace Node.Matches

theorem operand {n m : Node} (h : n.Matches m) : m.operand = n.operand := by
  cases h with
  | intro _ _ type error _ => rw [Node.operand, Node.operand, type, error]

theorem line {n m : Node} (h : n.Matches m) : m.line = n.line := by
  cases h with
  | intro mark _ _ _ _ => rw [Node.line, Node.line, mark]

section Children

variable {ns ms : List Node}

theorem operands (h : List.Forall₂ Matches ns ms) : ms.map Node.operand = ns.map Node.operand := by
  induction h with
  | nil => rfl
  | cons hn _ ih => rw [List.map_cons, List.map_cons, hn.operand, ih]

theorem anyError (h : List.Forall₂ Matches ns ms) : anyError ms = anyError ns := by
  induction h with
  | nil => rfl
  | cons hn _ ih =>
    cases hn with
    | intro _ _ _ error _ => rw [Node.anyError, Node.anyError, error, ih]

theorem single {n m : Node} (h : List.Forall₂ Matches [n] [m]) : n.Matches m := by
  cases h with
  | cons hn _ => exact hn

theorem head? (h : List.Forall₂ Matches ns ms) : Option.Rel Matches ns.head? ms.head? := by
  cases h with
  | nil => exact .none
  | cons hn _ => exact .some hn

end Children

section Child

variable {n m : Option Node}

theorem optionError (h : Option.Rel Matches n m) : optionError m = optionError n := by
  cases h with
  | none => rfl
  | some hn => exact congrArg Operand.failed hn.operand

theorem toList (h : Option.Rel Matches n m) : List.Forall₂ Matches n.toList m.toList := by
  cases h with
  | none => exact .nil
  | some hn => exact .cons hn .nil

end Child

theorem nop : Matches (.mk {} .nop) (.mk {} .nop) := .intro rfl rfl rfl rfl .nil

theorem block (title : String) {ns ms : List Node} (h : List.Forall₂ Matches ns ms) :
    Matches (Build.block title ns) (Build.block title ms) :=
  .intro rfl rfl rfl (anyError h) h

theorem declaration (line : Int) (type : Ty) (kind symbolType : String) {ns ms : List Node}
    (h : List.Forall₂ Matches ns ms) :
    Matches (.mk { line } (.declaration type kind symbolType ns))
      (.mk { line } (.declaration type kind symbolType ms)) := by
  have herror := anyError h
  refine .intro rfl ?_ rfl herror h
  simp only [Node.label, Node.form, Node.error, herror, h.length_eq]

theorem function (line : Int) (returns : Ty) (name : Name) (params : List (Ty × Name))
    (rejected : Bool) {n m : Option Node} (h : Option.Rel Matches n m) :
    Matches (functionNode line returns name params rejected n)
      (functionNode line returns name params rejected m) := by
  refine .intro rfl ?_ rfl ?_ (.cons (.intro rfl rfl rfl rfl .nil) (toList h))
  · cases h <;> rfl
  · rw [error_functionNode, error_functionNode, optionError h]

end Node.Matches

/-- The contexts agree, and since the two logs were `seen` and `seen'` the same has been reported to
both, no mismatched argument among it. -/
structure Together (seen seen' : List Diagnostic) (c c' : Context) : Prop where
  alike : Alike c c'
  log : ∃ new : List Diagnostic, (∀ d ∈ new, d.kind ≠ .incompatibleParam) ∧
    c.log.diagnostics = seen ++ new ∧ c'.log.diagnostics = seen' ++ new

theorem Alike.together {c c' : Context} (h : Alike c c') :
    Together c.log.diagnostics c'.log.diagnostics c c' := ⟨h, [], by simp⟩

namespace Together

variable {seen seen' : List Diagnostic} {c c' d d' : Context}

theorem thins (h : Together c.log.diagnostics c'.log.diagnostics d d') (source : Source) :
    Thins (reported source c d) (reported source c' d') := by
  obtain ⟨new, quiet, hd, hd'⟩ := h.log
  have hsame : reported source c' d' = reported source c d := by simp [reported, hd, hd']
  have hnew : new = diagnosticsOf (reported source c d) :=
    List.append_cancel_left (hd.symm.trans (diagnosticsOf_reported ⟨new, hd.symm⟩ source))
  rw [hsame]
  exact .same fun x hx => quiet x (hnew ▸ hx)

theorem withTable (h : Together seen seen' c c') (table : Table) :
    Together seen seen' { c with table } { c' with table } := ⟨h.alike.withTable table, h.log⟩

theorem report (h : Together seen seen' c c') {problems : List Problem}
    (quiet : ∀ p ∈ problems, p.kind ≠ .incompatibleParam) :
    Together seen seen' (c.report problems) (c'.report problems) where
  alike := h.alike.report _ _
  log := by
    obtain ⟨new, hquiet, hc, hc'⟩ := h.log
    have hline : c'.log.line = c.log.line := h.alike.line
    refine ⟨new ++ problems.map (Diagnostic.mk c.log.line), ?_, ?_, ?_⟩
    · simp only [List.mem_append, List.mem_map]
      rintro d (hd | ⟨p, hp, rfl⟩)
      · exact hquiet d hd
      · exact quiet p hp
    · simp [Context.report, hc]
    · simp [Context.report, hc', hline]

theorem declare (h : Together seen seen' c c') (name : Name) (type : Ty) (line : Int) :
    Together seen seen' (c.declare name type line).2 (c'.declare name type line).2 := by
  unfold Context.declare
  rw [h.alike.table]
  cases c.table.declare? name type line with
  | none => exact h.report (by simp [Problem.kind])
  | some table => exact h.withTable table

theorem declareAll (h : Together seen seen' c c') (params : List (Ty × Name)) :
    Together seen seen' (c.declareAll params) (c'.declareAll params) := by
  induction params generalizing c c' with
  | nil => exact h
  | cons p params ih =>
    refine ih ?_
    rw [h.alike.line]
    exact h.declare p.2 p.1 c.line

theorem inside (h : Alike c c') (name : Name) (params : List (Ty × Name)) :
    Together c.log.diagnostics c'.log.diagnostics (c.inside name params)
      (c'.inside name params) := (h.enter name).together.declareAll params

theorem bind (h : Together seen seen' c c') {returns : Ty} {name : Name} {params : List (Ty × Name)}
    {own own' : Option Symbol} (hb : c.bind returns name params = (own, d))
    (hb' : c'.bind returns name params = (own', d')) : Together seen seen' d d' := by
  have hd : (c.declareFunction name (signatureOf params) returns c.line).2 = d :=
    congrArg Prod.snd hb
  have hd' : (c'.declareFunction name (signatureOf params) returns c'.line).2 = d' :=
    congrArg Prod.snd hb'
  rw [← hd, ← hd', h.alike.line]
  unfold Context.declareFunction
  rw [h.alike.table]
  cases c.table.declareFunction? name ((signatureOf params).map fun p => (p.2, p.1))
      returns.given? c.line with
  | some table => exact h.withTable table
  | none =>
    simp only
    split
    · exact h
    · exact h.report (by simp [Problem.kind])

end Together

def Form.foldOf (style : Style) (operands : List Operand) : Fold :=
  match style, operands with
  | .cast _, [operand] => checkCast operand
  | _, operands => checkOperands (operandType style none) operands

theorem Form.ofOperation_seen (style : Style) (op : Op) (ns : List Node) (c : Context) :
    ofOperation style op none (ns.map Node.seen) c =
      ofFold style op ns (foldOf style (ns.map Node.operand)) c := by
  have hmap : (ns.map Node.seen).map (·.2) = ns.map Node.operand := by simp [Node.seen]
  unfold ofOperation
  rw [hmap, Node.map_fst_seen]
  unfold foldOf
  cases style with
  | cast target => rcases ns with _ | ⟨n, _ | ⟨m, ns⟩⟩ <;> rfl
  | _ => rfl

namespace Together

variable {seen seen' : List Diagnostic} {c c' : Context} {ns ms : List Node}

theorem operation (h : Together seen seen' c c') (hn : List.Forall₂ Node.Matches ns ms)
    (style : Style) (op : Op) :
    Node.Matches (operationNode style op ns c).1 (operationNode style op ms c').1 ∧
      Together seen seen' (operationNode style op ns c).2 (operationNode style op ms c').2 := by
  simp only [operationNode, Form.ofOperation_seen, Node.Matches.operands hn, h.alike.line]
  exact ⟨.intro rfl rfl rfl rfl hn, h.report (kind_ne (kind_fold _ op) (by simp))⟩

theorem made (h : Together seen seen' c c') {action : Action} {items : List Action}
    (ho : action.operands? = some items) (hcall : ∀ name args, action ≠ .call name args)
    (hl : ns.length = items.length) (hn : List.Forall₂ Node.Matches ns ms) :
    Node.Matches (action.made ns c).1 (action.made ms c').1 ∧
      Together seen seen' (action.made ns c).2 (action.made ms c').2 := by
  cases action <;> simp only [Action.operands?, reduceCtorEq, Option.some.injEq] at ho
  case arrayDecl type name size =>
    have hd := (h.alike.declare name (.array type (.string size)) c.line).1
    simp only [Action.made, Form.ofArrayDecl, h.alike.line, Prod.map_fst, Prod.map_snd, hd]
    exact ⟨.intro rfl rfl rfl rfl .nil, h.declare _ _ _⟩
  case «variable» name =>
    simp only [Action.made, Form.ofVariable, h.alike.line, h.alike.table, Prod.map_fst,
      Prod.map_snd]
    exact ⟨.intro rfl rfl rfl rfl .nil, h.report (kind_ne (kind_checkVariable _ _) (by simp))⟩
  case constant type value =>
    simp only [Action.made, h.alike.line]
    exact ⟨.intro rfl rfl rfl rfl .nil, h⟩
  case operation op operands =>
    have hlength := hn.length_eq
    rw [Action.made, Action.made, ← hlength]
    exact h.operation hn _ _
  case paren | cast => exact h.operation hn _ _
  case assign target value =>
    subst ho
    obtain ⟨n, n', rfl⟩ := List.length_eq_two.mp hl
    rcases hn with _ | ⟨hn, _ | ⟨hn', _ | _⟩⟩
    simp only [Action.made, Form.ofAssignment, Node.seen, hn.operand, hn'.operand, h.alike.line,
      Prod.map_fst, Prod.map_snd]
    exact ⟨.intro rfl rfl rfl rfl (.cons hn (.cons hn' .nil)),
      h.report (kind_ne (kind_checkAssignment _ _) (by simp))⟩
  case ret operand =>
    have hhead := Node.Matches.head? hn
    simp only [Action.made, h.alike.line]
    refine ⟨.intro rfl rfl ?_ (Node.Matches.optionError hhead) (Node.Matches.toList hhead), h⟩
    generalize ns.head? = n at hhead ⊢
    generalize ms.head? = m at hhead ⊢
    cases hhead with
    | none => rfl
    | some hn => exact congrArg Operand.type hn.operand
  case call name args => exact absurd rfl (hcall name args)
  case access name index =>
    subst ho
    obtain ⟨n, rfl⟩ := List.length_eq_one_iff.mp hl
    rcases hn with _ | ⟨hn, _ | _⟩
    simp only [Action.made, Form.ofAccess, Node.seen, hn.operand, h.alike.line, h.alike.table,
      Prod.map_fst, Prod.map_snd]
    refine ⟨.intro rfl rfl rfl rfl (.cons hn .nil), h.report fun p hp param => ?_⟩
    have kind := kind_checkAccess _ _ _ p hp
    simp [param] at kind
  case address operand | reference operand =>
    subst ho
    obtain ⟨n, rfl⟩ := List.length_eq_one_iff.mp hl
    rcases hn with _ | ⟨hn, _ | _⟩
    simp only [Action.made, Form.ofWrapper, Node.seen, hn.operand, hn.line]
    exact ⟨.intro rfl rfl rfl rfl (.cons hn .nil), h⟩
  case nop =>
    simp only [Action.made, h.alike.line]
    exact ⟨.intro rfl rfl rfl rfl .nil, h⟩

end Together

theorem matches_bound {c c' d d' : Context} (h : Alike c c') {type : Ty} {name : Name}
    {v v' : Option Node} {n m : Node} (hv : Option.Rel Node.Matches v v')
    (hb : boundNode type name v c = (n, d)) (hb' : boundNode type name v' c' = (m, d')) :
    n.Matches m ∧ Together c.log.diagnostics c'.log.diagnostics d d' := by
  obtain ⟨rfl, rfl⟩ := Prod.ext_iff.mp hb
  obtain ⟨rfl, rfl⟩ := Prod.ext_iff.mp hb'
  have hd := (h.declare name type c.line).1
  have together := h.together.declare name type c.line
  cases hv with
  | none =>
    simp only [boundNode, Form.ofBinding, h.line, hd, Prod.map_fst, Prod.map_snd]
    exact ⟨.intro rfl rfl rfl rfl .nil, together.report (by simp)⟩
  | some hv =>
    simp only [boundNode, Form.ofBinding, h.line, hd, Prod.map_fst, Prod.map_snd,
      Option.map_some, Option.getD_some, Node.seen, hv.operand]
    exact ⟨.intro rfl rfl rfl rfl (.cons hv .nil),
      together.report (kind_ne (kind_checkInitial _ _) (by simp))⟩

theorem matches_conditional {c c' d d' : Context} (h : Alike c c')
    {n n' b b' m m' : Node} {r r' : Option Node} (hn : n.Matches n') (hb : b.Matches b')
    (hr : Option.Rel Node.Matches r r') (made : conditionalNode n b r c = (m, d))
    (made' : conditionalNode n' b' r' c' = (m', d')) :
    m.Matches m' ∧ Together c.log.diagnostics c'.log.diagnostics d d' := by
  obtain ⟨rfl, rfl⟩ := Prod.ext_iff.mp made
  obtain ⟨rfl, rfl⟩ := Prod.ext_iff.mp made'
  simp only [conditionalNode, Form.ofConditional, Node.seen, hn.operand, h.line,
    Prod.map_fst, Prod.map_snd]
  refine ⟨.intro rfl rfl rfl ?_ (.cons hn (.cons hb (Node.Matches.toList hr))),
    h.together.report (kind_ne (kind_checkTest _) (by simp))⟩
  have herror : b'.error = b.error := congrArg Operand.failed hb.operand
  simp only [Node.error, herror, Node.Matches.optionError hr]

theorem matches_loop {c c' d d' : Context} (h : Alike c c') {n n' b b' m m' : Node}
    {i i' u u' : Option Node} (hi : Option.Rel Node.Matches i i') (hn : n.Matches n')
    (hu : Option.Rel Node.Matches u u') (hb : b.Matches b') (made : loopNode i n u b c = (m, d))
    (made' : loopNode i' n' u' b' c' = (m', d')) :
    m.Matches m' ∧ Together c.log.diagnostics c'.log.diagnostics d d' := by
  obtain ⟨rfl, rfl⟩ := Prod.ext_iff.mp made
  obtain ⟨rfl, rfl⟩ := Prod.ext_iff.mp made'
  simp only [loopNode, Form.ofLoop, Node.seen, hn.operand, h.line, Prod.map_fst,
    Prod.map_snd]
  have hbody : List.Forall₂ Node.Matches (u.toList ++ [b]) (u'.toList ++ [b']) :=
    List.rel_append (Node.Matches.toList hu) (.cons hb .nil)
  refine ⟨.intro rfl rfl rfl ?_ (List.rel_append (Node.Matches.toList hi) (.cons hn hbody)),
    h.together.report (kind_ne (kind_checkTest _) (by simp))⟩
  have htest : n'.error = n.error := congrArg Operand.failed hn.operand
  have herror : b'.error = b.error := congrArg Operand.failed hb.operand
  simp only [Node.error, htest, herror, Node.Matches.optionError hi, Node.Matches.optionError hu]

theorem problems_checkArguments (name : Name) (i : Nat) (params : List Ty) (args : List Operand) :
    (checkArguments false name i params args).problems =
      (checkArguments true name i params args).problems.take 1 := by
  induction params generalizing i args with
  | nil => simp [checkArguments]
  | cons param params ih =>
    cases args with
    | nil => simp [checkArguments]
    | cons arg args =>
      have rest := ih (i + 1) args
      rw [checkArguments, checkArguments]
      split
      · exact rest
      · split
        · exact rest
        · split
          · exact rest
          · simp

/-- Both checks of one call agree on its type and on whether it fails. The first one reports more
only where it reports mismatched arguments. -/
theorem checkCall_settings (table : Table) (name : Name) (args : List Operand) :
    (checkCall false table name args).1 = (checkCall true table name args).1 ∧
      (checkCall false table name args).2.failed = (checkCall true table name args).2.failed ∧
      (((checkCall false table name args).2.problems = (checkCall true table name args).2.problems ∧
          ∀ p ∈ (checkCall true table name args).2.problems, p.kind ≠ .incompatibleParam) ∨
        ((checkCall false table name args).2.problems =
            (checkCall true table name args).2.problems.take 1 ∧
          ∀ p ∈ (checkCall true table name args).2.problems, p.kind = .incompatibleParam)) := by
  unfold checkCall
  cases table.functionNamed name with
  | none => exact ⟨rfl, rfl, .inl ⟨rfl, by simp [Problem.kind]⟩⟩
  | some f =>
    by_cases hl : f.paramTypes.length ≠ args.length
    · dsimp only
      rw [if_pos hl, if_pos hl]
      exact ⟨rfl, rfl, .inl ⟨rfl, by simp [Problem.kind]⟩⟩
    · dsimp only
      rw [if_neg hl, if_neg hl]
      exact ⟨rfl, failed_checkArguments name 0 f.paramTypes args,
        .inr ⟨problems_checkArguments name 0 f.paramTypes args,
          kind_checkArguments true name 0 f.paramTypes args⟩⟩

theorem matches_call {c c' : Context} (h : Alike c c') {ns ms : List Node}
    (hn : List.Forall₂ Node.Matches ns ms) (name : Name) (items : List Action) :
    Node.Matches ((Action.call name items).made ns c).1 ((Action.call name items).made ms c').1 ∧
      Alike ((Action.call name items).made ns c).2 ((Action.call name items).made ms c').2 ∧
      Thins ((Action.call name items).checked ns c) ((Action.call name items).checked ms c') := by
  have hargs : Node.Matches (.mk {} (.arguments ns)) (.mk {} (.arguments ms)) := by
    refine .intro rfl ?_ rfl (Node.Matches.anyError hn) hn
    simp only [Node.label, Node.form, hn.length_eq]
  obtain ⟨htype, hfailed, hproblems⟩ := checkCall_settings c.table name (ns.map Node.operand)
  have hline : c'.log.line = c.log.line := h.line
  simp only [Action.checked, Action.made, Form.ofCall, h.table, h.line, h.reportAll, h.reportFirst,
    Node.Matches.operands hn, Prod.map_fst, Prod.map_snd, id_eq, reported_report, hline]
  refine ⟨?_, h.report _ _, ?_⟩
  · rw [htype, hfailed]
    exact .intro rfl rfl rfl rfl (.cons hargs .nil)
  · generalize (checkCall true c.table name (ns.map Node.operand)).2.problems = problems
      at hproblems ⊢
    rcases hproblems with ⟨hsame, hquiet⟩ | ⟨hfirst, hkind⟩
    · rw [hsame]
      refine .same fun d hd => ?_
      obtain ⟨p, hp, rfl⟩ : ∃ p ∈ problems, Diagnostic.mk c.log.line p = d := by
        simpa [diagnosticsOf, Event.diagnostic?, Function.comp_def] using hd
      exact hquiet p hp
    · rw [hfirst]
      have hall : ∀ d ∈ problems.map (Diagnostic.mk c.log.line), d.kind = .incompatibleParam :=
        List.forall_mem_map.mpr hkind
      have hthins := Thins.call hall (c.table.functionNamed name) (ns.map Node.operand) .node
      rw [← List.map_take, List.map_map, List.map_map] at hthins
      exact hthins

namespace Action

def Unsized (action : Action) : Prop := action.Fits (fun position _ => position ≠ .size) .item

namespace Unsized

variable {action : Action}

theorem inside (h : action.Unsized) (part : Position × Action) (hp : part ∈ action.parts) :
    part.2.Unsized := by
  cases h with
  | lined line h =>
    rw [List.mem_singleton.mp hp]
    exact h
  | intro _ _ _ inside => exact (inside part hp).imp (fun _ => by simp) fun _ _ hk => hk

theorem not_sizedArray (h : action.Unsized) (type : Ty) (name : Name) (size : Action) :
    action ≠ .sizedArray type name size := by
  rintro rfl
  cases h with
  | intro _ _ _ inside => exact (inside (.size, size) (by simp [parts])).allowed rfl

theorem loop {init update : Option Action} {test : Action} {body : List Action}
    (h : (Action.loop init test update body).Unsized) :
    (∀ a ∈ init.toList, a.Unsized) ∧ test.Unsized ∧ (∀ a ∈ update.toList, a.Unsized) ∧
      ∀ a ∈ body, a.Unsized := by
  refine ⟨fun a ha => h.inside (.header, a) ?_, h.inside (.expression, test) ?_,
    fun a ha => h.inside (.header, a) ?_, fun a ha => h.inside (.statement, a) ?_⟩
  all_goals simp_all [parts]

end Unsized

end Action

/-- Where two runs of one task, the first with the option and the second without, have come to. -/
structure Thinned (t t' : List Event) (ns ms : List Node) (d d' : Context) : Prop where
  trace : Thins t t'
  nodes : List.Forall₂ Node.Matches ns ms
  alike : Alike d d'

namespace Thinned

variable {t t' u u' : List Event} {n m : Node} {ns ms : List Node} {c c' d d' e e' : Context}

theorem nil (h : Alike c c') : Thinned [] [] [] [] c c' := ⟨.nil, .nil, h⟩

theorem cons (h : Thinned t t' [n] [m] c c') (h' : Thinned u u' ns ms d d') :
    Thinned (t ++ u) (t' ++ u') (n :: ns) (m :: ms) d d' :=
  ⟨h.trace.append h'.trace, List.rel_append h.nodes h'.nodes, h'.alike⟩

theorem step (ht : Thins t t') (hn : n.Matches m)
    (h : Together c.log.diagnostics c'.log.diagnostics d d') (source : Source) :
    Thinned (t ++ reported source c d) (t' ++ reported source c' d') [n] [m] d d' :=
  ⟨ht.append (h.thins source), .cons hn .nil, h.alike⟩

theorem check (h : Thinned t t' ns ms c c') {action : Action} {items : List Action}
    (ho : action.operands? = some items) (hl : ns.length = items.length) :
    Thinned (t ++ action.checked ns c) (t' ++ action.checked ms c') [(action.made ns c).1]
      [(action.made ms c').1] (action.made ns c).2 (action.made ms c').2 := by
  by_cases hcall : ∃ name args, action = .call name args
  · obtain ⟨name, args, rfl⟩ := hcall
    obtain ⟨hn, halike, hthins⟩ := matches_call h.alike h.nodes name args
    exact ⟨h.trace.append hthins, .cons hn .nil, halike⟩
  · have hne (name : Name) (args : List Action) : action ≠ .call name args :=
      fun he => hcall ⟨name, args, he⟩
    obtain ⟨hn, together⟩ := h.alike.together.made ho hne hl h.nodes
    have hown : Thins (action.checked ns c) (action.checked ms c') := by
      unfold Action.checked
      split
      · exact absurd rfl (hne _ _)
      · exact together.thins .node
    exact ⟨h.trace.append hown, .cons hn .nil, together.alike⟩

end Thinned

theorem Alike.marks {c c' d d' : Context} (h : Alike c c') {name : Name} {own : Option Symbol}
    {marks marks' : List Event} (hm : c.mark? name own = some (marks, d))
    (hm' : c'.mark? name own = some (marks', d')) : Thins marks marks' := by
  have heq : marks' = marks := by
    cases own with
    | none =>
      cases hm
      cases hm'
      rfl
    | some own =>
      obtain ⟨found, hf, he⟩ := Option.map_eq_some_iff.mp hm
      obtain ⟨found', hf', he'⟩ := Option.map_eq_some_iff.mp hm'
      rw [h.table, hf] at hf'
      cases hf'
      cases he
      cases he'
      rfl
  rw [heq]
  exact .same (by simp [diagnosticsOf_mark hm])

theorem Alike.opening {c c' d d' : Context} (h : Alike c c') {returns : Ty} {name : Name}
    {params : List (Ty × Name)} {own own' : Option Symbol} (body : Option (List Action))
    (hb : c.bind returns name params = (own, d)) (hb' : c'.bind returns name params = (own', d')) :
    own' = own ∧ Alike d d' ∧
      Thins (reported .node c d ++ accepted own name body)
        (reported .node c' d' ++ accepted own' name body) := by
  obtain ⟨rfl, halike⟩ := h.bind hb hb'
  exact ⟨rfl, halike, ((h.together.bind hb hb').thins .node).append (.same (by simp))⟩

theorem Run.thinned {task : Task} {c d : Context} {t : List Event} {ns : List Node}
    (h : Run task c t ns d) (unsized : ∀ a ∈ task.actions, a.Unsized) {c' d' : Context}
    {t' : List Event} {ms : List Node} (h' : Run task c' t' ms d') (alike : Alike c c') :
    Thinned t t' ns ms d d' := by
  induction h generalizing c' d' t' ms with
  | nil | noBlock | noBinding | noLine =>
    cases h'
    exact .nil alike
  | cons _ _ ih ih' =>
    obtain ⟨ha, has⟩ := List.forall_mem_cons.mp unsized
    cases h' with
    | cons head tail =>
      have hhead := ih (by simpa [Task.actions] using ha) head alike
      exact hhead.cons (ih' has tail hhead.alike)
  | @block title lines rest _ _ _ _ _ _ _ _ _ leave _ ih ih' =>
    simp only [Task.actions, List.flatMap_cons, List.forall_mem_append] at unsized
    cases h' with
    | block inside' leave' others' =>
      have hlines := ih unsized.1 inside' (alike.enter .nothing)
      have hleave := hlines.alike.leave leave leave'
      exact .cons ⟨hlines.trace, .cons (.block title hlines.nodes) .nil, hleave⟩
        (ih' unsized.2 others' hleave)
  | binding _ _ bound _ ih ih' =>
    simp only [Task.actions, List.flatMap_cons, List.forall_mem_append] at unsized
    cases h' with
    | binding _ given' bound' others' =>
      have hgiven := ih unsized.1 given' alike
      obtain ⟨hn, together⟩ :=
        matches_bound hgiven.alike (Node.Matches.head? hgiven.nodes) bound bound'
      have hothers := ih' unsized.2 others' together.alike
      exact (Thinned.step hgiven.trace hn together .node).cons hothers
  | line _ mark _ ih ih' =>
    obtain ⟨ha, has⟩ := List.forall_mem_cons.mp unsized
    cases h' with
    | line head' mark' tail' =>
      have hhead := ih (by simpa [Task.actions] using ha) head' alike
      have hmark := hhead.alike.mark mark mark'
      exact .cons ⟨hhead.trace.append (hhead.alike.marks mark mark'), hhead.nodes, hmark⟩
        (ih' has tail' hmark)
  | @lined line a _ _ _ _ _ ih =>
    have ha := unsized _ (List.mem_singleton_self _)
    cases h' with
    | lined inner' =>
      refine ih (fun b hb => ?_) inner' (alike.advanceTo _)
      rw [List.mem_singleton.mp hb]
      exact ha.inside (.item, a) (List.mem_singleton_self _)
    | check operands => cases operands
  | check operands _ inner ih =>
    have ha := unsized _ (List.mem_singleton_self _)
    obtain ⟨t', ms, e', -, inner', rfl, rfl, rfl⟩ := Run.of_operands operands h'
    have hinner :=
      ih (fun b hb => ha.inside _ (Action.mem_parts_of_operands? operands hb)) inner' alike
    exact hinner.check operands inner.length_eq
  | @declaration type kind symbolType items ns c _ _ _ _ ih =>
    have ha := unsized _ (List.mem_singleton_self _)
    cases h' with
    | declaration _ inner' =>
      have hinner := ih (fun b hb => ?_) inner' alike
      · rw [alike.line]
        exact ⟨hinner.trace, .cons (.declaration c.line type kind symbolType hinner.nodes) .nil,
          hinner.alike⟩
      · obtain ⟨item, hitem, hb⟩ := List.mem_flatMap.mp hb
        refine ha.inside (.expression, b) (List.mem_flatMap.mpr ⟨item, hitem, ?_⟩)
        exact List.mem_map.mpr ⟨b, hb, rfl⟩
    | check operands => cases operands
  | sizedArray => exact absurd rfl ((unsized _ (List.mem_singleton_self _)).not_sizedArray _ _ _)
  | @scope lines _ _ _ _ _ ih =>
    have ha := unsized _ (List.mem_singleton_self _)
    cases h' with
    | scope inner' =>
      refine ih (fun b hb => ha.inside (.statement, b) ?_) inner' alike
      simpa [Task.actions, Action.parts] using hb
    | check operands => cases operands
  | @conditional condition accepted rejected _ _ _ _ _ _ _ _ _ _ _ _ made ih ih' =>
    have ha := unsized _ (List.mem_singleton_self _)
    cases h' with
    | conditional test' inside' made' =>
      have htest := ih (fun b hb => ?_) test' alike
      · have hinside := ih' (fun b hb => ?_) inside' htest.alike
        · cases hinside.nodes with
          | cons hb hbs =>
            obtain ⟨hm, together⟩ := matches_conditional hinside.alike
              (Node.Matches.single htest.nodes) hb (Node.Matches.head? hbs) made made'
            exact .step (htest.trace.append hinside.trace) hm together .node
        · rw [Task.actions, flatMap_branches] at hb
          exact ha.inside (.statement, b) (List.mem_cons_of_mem _ (List.mem_map_of_mem hb))
      · rw [List.mem_singleton.mp hb]
        exact ha.inside (.expression, condition) (by simp [Action.parts])
    | check operands => cases operands
  | loop _ _ _ _ leave made ih₁ ih₂ ih₃ ih₄ =>
    obtain ⟨hinit, htest, hupdate, hbody⟩ := (unsized _ (List.mem_singleton_self _)).loop
    cases h' with
    | loop first' condition' next' inside' leave' made' =>
      have h₁ := ih₁ hinit first' (alike.enter .nothing)
      have h₂ := ih₂ (by simpa [Task.actions] using htest) condition' h₁.alike
      have h₃ := ih₃ hupdate next' h₂.alike
      have h₄ := ih₄ (by simpa [Task.actions] using hbody) inside' h₃.alike
      obtain ⟨hm, together⟩ := matches_loop (h₄.alike.leave leave leave')
        (Node.Matches.head? h₁.nodes) (Node.Matches.single h₂.nodes) (Node.Matches.head? h₃.nodes)
        (Node.Matches.single h₄.nodes) made made'
      exact .step (((h₁.trace.append h₂.trace).append h₃.trace).append h₄.trace) hm together .node
    | check operands => cases operands
  | prototype _ bound =>
    cases h' with
    | prototype _ bound' =>
      obtain ⟨rfl, halike, hthins⟩ := alike.opening none bound bound'
      rw [alike.line]
      exact ⟨hthins, .cons (.function _ _ _ _ _ .none) .nil, halike⟩
    | check operands => cases operands
  | @emptyBody _ name params _ _ _ _ _ _ _ bound mark leave =>
    cases h' with
    | emptyBody _ bound' mark' leave' =>
      obtain ⟨rfl, halike, hthins⟩ := alike.opening (some []) bound bound'
      have together := Together.inside halike name params
      have hmark := together.alike.mark mark mark'
      rw [alike.line]
      refine ⟨(hthins.append (together.thins .parameter)).append
        (together.alike.marks mark mark'), ?_, hmark.leave leave leave'⟩
      exact .cons (.function _ _ _ _ _ (.some (.block _ (.cons .nop .nil)))) .nil
    | check operands => cases operands
  | @function _ name params _ _ _ _ _ _ _ _ _ _ bound _ leave ih =>
    have ha := unsized _ (List.mem_singleton_self _)
    cases h' with
    | function _ bound' lines' leave' =>
      obtain ⟨rfl, halike, hthins⟩ := alike.opening _ bound bound'
      have together := Together.inside halike name params
      have hlines := ih (fun b hb => ha.inside (.statement, b) ?_) lines' together.alike
      · rw [alike.line]
        refine ⟨(hthins.append (together.thins .parameter)).append hlines.trace, ?_,
          hlines.alike.leave leave leave'⟩
        exact .cons (.function _ _ _ _ _ (.some (.block _ hlines.nodes))) .nil
      · exact List.mem_map.mpr ⟨b, hb, rfl⟩
    | check operands => cases operands

namespace Session

theorem context_ticksCode (s : Session) (n : Nat) : (s.ticksCode n).context = s.context := by
  induction n generalizing s with
  | zero => rfl
  | succ n ih => exact (ih s.tickCode.2).trans s.tickCode_keeps.2.2.1

theorem table_runAll {s : Session} {program : Value} {actions : List Action} {nodes : List Node}
    {d : Context} (read : Action.sequence program = .ok actions)
    (built : exec (buildAll actions) { reportAll := s.options.reportAll } = (.ok nodes, d))
    (name : String) : (s.runAll program name).2.context.table = d.table := by
  simp only [runAll_of_built read built, renderAll, context_ticksCode]
  rfl

end Session

/-- Take a program that runs to its end under one setting of the option and in which no array has an
action for its size. It runs to its end under both. The trees match, the symbol tables are the same,
and the option adds to the diagnostics the mismatches of each call after its first. -/
theorem first_mismatches_only {s : Session} {program : Value} {name code : String} {all : Bool}
    {actions : List Action} (read : Action.sequence program = .ok actions)
    (unsized : ∀ a ∈ actions, a.Unsized)
    (built : ((s.reporting all).runAll program name).1 = .ok code) :
    let every := (s.reporting true).runAll program name
    let first := (s.reporting false).runAll program name
    every.1.isOk = true ∧ first.1.isOk = true ∧ every.2.tree.Matches first.2.tree ∧
      first.2.context.table = every.2.context.table ∧
      (∃ trace nodes d, Run (.all actions) { reportAll := true } trace nodes d) ∧
      ∀ trace nodes d, Run (.all actions) { reportAll := true } trace nodes d →
        let left := d.table.undefined.map fun f => Diagnostic.mk d.line (.neverDefined f.name)
        every.2.diagnostics = diagnosticsOf trace ++ left ∧
          first.2.diagnostics = diagnosticsOf (firstMismatches false trace) ++ left := by
  intro every first
  obtain ⟨_, _, _, read', hexec, -⟩ := Session.runAll_ok.mp built
  cases read.symm.trans read'
  obtain ⟨t₀, run₀⟩ :=
    runs_all (fun a ha => (Action.wellFormed_sequence read a ha).runs) _ _ _ hexec
  have runs (all : Bool) := exists_run_all (fun a ha => (run₀.fits a ha).total) { reportAll := all }
  obtain ⟨t, ns, d, run⟩ := runs true
  obtain ⟨t', ms, d', run'⟩ := runs false
  have hthinned := run.thinned unsized run' ⟨rfl, rfl, rfl, rfl⟩
  obtain ⟨hcode, htree, -⟩ :=
    Session.runAll_built (s := s.reporting true) read (exec_of_run run) name
  obtain ⟨hcode', htree', -⟩ :=
    Session.runAll_built (s := s.reporting false) read (exec_of_run run') name
  refine ⟨?_, ?_, ?_, ?_, ⟨t, ns, d, run⟩, ?_⟩
  · rw [hcode]
    rfl
  · rw [hcode']
    rfl
  · rw [htree, htree']
    exact .block "Program" hthinned.nodes
  · rw [Session.table_runAll (s := s.reporting true) read (exec_of_run run),
      Session.table_runAll (s := s.reporting false) read (exec_of_run run'), hthinned.alike.table]
  · intro trace nodes e hrun left
    have hall := hrun.thinned unsized run' ⟨rfl, rfl, rfl, rfl⟩
    have hlog := Session.diagnostics_runAll (s := s.reporting true) read (exec_of_run hrun) name
    have hlog' := Session.diagnostics_runAll (s := s.reporting false) read (exec_of_run run') name
    rw [hrun.diagnostics] at hlog
    rw [run'.diagnostics, ← hall.trace.eq false, hall.alike.table, hall.alike.line] at hlog'
    exact ⟨hlog, hlog'⟩

/-- A prototype, and on line 3 a call of it in a call of it. None of the arguments fits. -/
def nestedCalls : List Value :=
  let literal (type value : String) : Value :=
    .object [("node", .string "const"), ("type", .string type), ("value", .string value)]
  let call (args : List Value) : List (String × Value) :=
    [("node", .string "call"), ("name", .string "g"), ("args", .list args)]
  let rest := [literal "bool" "true", literal "int" "1"]
  let param (type name : String) : Value := .list [.string type, .string name]
  [.object [("node", .string "function"), ("returns", .string "int"), ("name", .string "g"),
      ("params", .list [param "int" "a", param "float" "b", param "bool" "c"])],
    .object (("line", .int 3) :: call (.object (call (literal "bool" "true" :: rest)) :: rest))]

theorem first_mismatches_only_nested :
    ∃ actions, Action.sequence (.list nestedCalls) = .ok actions ∧ (∀ a ∈ actions, a.Unsized) ∧
      (((Session.new {}).reporting true).runAll (.list nestedCalls) "").1 =
        .ok "int g(int a, float b, bool c);\ng(g(true, true, 1), true, 1)" ∧
      (((Session.new {}).reporting true).runAll (.list nestedCalls) "").2.diagnostics =
        [⟨3, .param (.text "g") .int .bool⟩, ⟨3, .param (.text "g") .float .bool⟩,
          ⟨3, .param (.text "g") .bool .int⟩, ⟨3, .param (.text "g") .float .bool⟩,
          ⟨3, .param (.text "g") .bool .int⟩, ⟨3, .neverDefined (.text "g")⟩] ∧
      (((Session.new {}).reporting false).runAll (.list nestedCalls) "").2.diagnostics =
        [⟨3, .param (.text "g") .int .bool⟩, ⟨3, .param (.text "g") .float .bool⟩,
          ⟨3, .neverDefined (.text "g")⟩] := by
  have read : Action.sequence (.list nestedCalls) = .ok (nestedCalls.map Action.ofValue) :=
    Reading.sequence_list _
  have unsized : ∀ a ∈ nestedCalls.map Action.ofValue, a.Unsized := by
    have hcheck : nestedCalls.all (·.conforms (fun p _ => p ≠ .size) 3 .item) = true := by
      decide +kernel
    intro a ha
    obtain ⟨v, hv, rfl⟩ := List.mem_map.mp ha
    exact (Conforms.of_check (List.all_eq_true.mp hcheck v hv)).fits (by simp)
  have built : (((Session.new {}).reporting true).runAll (.list nestedCalls) "").1 =
      .ok "int g(int a, float b, bool c);\ng(g(true, true, 1), true, 1)" := by decide +kernel
  refine ⟨_, read, unsized, built, ?_⟩
  obtain ⟨-, -, -, -, -, hall⟩ := first_mismatches_only read unsized built
  let g : Symbol := ⟨0, .text "g", 1, .text "global",
    .function [(.string "a", .int), (.string "b", .float), (.string "c", .bool)] (some .int)⟩
  let inner : Action := .call (.text "g") [.constant .bool "true", .constant .bool "true",
    .constant .int "1"]
  have written : ((Action.function .int (.text "g")
      [(.int, .text "a"), (.float, .text "b"), (.bool, .text "c")] none).Proper) :=
    ⟨rfl, by simp [Ty.isWritten]⟩
  obtain ⟨trace, nodes, d, run, rfl, left⟩ : ∃ trace nodes d,
      Run (.all [.function .int (.text "g")
          [(.int, .text "a"), (.float, .text "b"), (.bool, .text "c")] none,
        .lined 3 (.call (.text "g") [inner, .constant .bool "true", .constant .int "1"])])
        {} trace nodes d ∧
      trace = [.accepted g (.text "g") none,
        .called (some g) [⟨.bool, false⟩, ⟨.bool, false⟩, ⟨.int, false⟩],
        .reported .node ⟨3, .param (.text "g") .int .bool⟩,
        .reported .node ⟨3, .param (.text "g") .float .bool⟩,
        .reported .node ⟨3, .param (.text "g") .bool .int⟩,
        .called (some g) [⟨.int, true⟩, ⟨.bool, false⟩, ⟨.int, false⟩],
        .reported .node ⟨3, .param (.text "g") .float .bool⟩,
        .reported .node ⟨3, .param (.text "g") .bool .int⟩] ∧
      (d.table.undefined.map fun f => Diagnostic.mk d.line (.neverDefined f.name)) =
        [⟨3, .neverDefined (.text "g")⟩] :=
    ⟨_, _, _, .cons (.prototype written rfl) (.cons (.lined (.check rfl trivial
      (.cons (.check rfl trivial (.cons (.check rfl rfl (.nil _)) (.cons (.check rfl rfl (.nil _))
        (.cons (.check rfl rfl (.nil _)) (.nil _)))))
        (.cons (.check rfl rfl (.nil _)) (.cons (.check rfl rfl (.nil _)) (.nil _)))))) (.nil _)),
      rfl, rfl⟩
  obtain ⟨hevery, hfirst⟩ := hall _ _ _ run
  rw [left] at hevery hfirst
  exact ⟨hevery, hfirst⟩

end Treewright
