import Treewright.Inspector
import Treewright.Proofs.Regions
set_option autoImplicit false

namespace Treewright

def Report.unplaced (r : Report) : Report := { r with node := none }

@[simp] theorem Mark.unplaced_report (m : Mark) (message code : String) :
    (m.report message code).unplaced = ⟨message, none, code⟩ := rfl

theorem codeText_unplaced (reports : List Report) :
    codeText (reports.map Report.unplaced) = codeText reports := by
  rw [codeText, List.map_map]
  rfl

theorem codeText_of_unplaced {rs ts : List Report}
    (h : rs.map Report.unplaced = ts.map Report.unplaced) : codeText rs = codeText ts := by
  rw [← codeText_unplaced rs, h, codeText_unplaced]

theorem unplaced_joinReports (between : Report) (parts : List (List Report)) :
    (joinReports between parts).map Report.unplaced =
      joinReports between.unplaced (parts.map (·.map Report.unplaced)) := by
  induction parts with
  | nil => rfl
  | cons part parts ih =>
    cases parts with
    | nil => rfl
    | cons next parts =>
      simp only [joinReports, List.map_append, List.map_cons] at ih ⊢
      rw [ih]

theorem unplaced_coerceParts (m : Mark) (coerced : List Nat) (i : Nat)
    (parts : List (List Report)) :
    (coerceParts m coerced i parts).map (·.map Report.unplaced) =
      coerceParts {} coerced i (parts.map (·.map Report.unplaced)) := by
  induction parts generalizing i with
  | nil => rfl
  | cons part parts ih =>
    rw [coerceParts, List.map_cons, ih, List.map_cons, coerceParts]
    split <;> rfl

namespace Node

structure Echoes (n m : Node) : Prop where
  reports : ∀ depth, (n.reports depth).map Report.unplaced = (m.reports depth).map Report.unplaced
  isEmpty : n.isEmpty = m.isEmpty
  isOperation : n.isOperation = m.isOperation
  arguments : n.argumentReports.map (·.map Report.unplaced) =
    m.argumentReports.map (·.map Report.unplaced)
  header : headerText (some n) = headerText (some m)

namespace Echoes

theorem text {n m : Node} (h : n.Echoes m) (depth : Int) : n.text depth = m.text depth :=
  codeText_of_unplaced (h.reports depth)

theorem intro {n m : Node}
    (reports : ∀ depth, (n.reports depth).map Report.unplaced =
      (m.reports depth).map Report.unplaced)
    (isEmpty : n.isEmpty = m.isEmpty) (isOperation : n.isOperation = m.isOperation)
    (arguments : n.argumentReports.map (·.map Report.unplaced) =
      m.argumentReports.map (·.map Report.unplaced))
    (hn : n.isDeclaration = false) (hm : m.isDeclaration = false) : n.Echoes m where
  reports := reports
  isEmpty := isEmpty
  isOperation := isOperation
  arguments := arguments
  header := by
    rw [headerText_some hn, headerText_some hm, Node.text, Node.text,
      codeText_of_unplaced (reports 0)]

section Rows

variable {ns ms : List Node}

theorem reportsAll (h : List.Forall₂ Echoes ns ms) (depth : Int) :
    (reportsAll depth ns).map (·.map Report.unplaced) =
      (reportsAll depth ms).map (·.map Report.unplaced) := by
  induction h with
  | nil => rfl
  | cons head _ ih => simp [Node.reportsAll, head.reports depth, ih]

theorem itemReports (h : List.Forall₂ Echoes ns ms) (depth : Int) :
    (itemReports depth ns).map (·.map Report.unplaced) =
      (itemReports depth ms).map (·.map Report.unplaced) := by
  cases h with
  | nil => rfl
  | cons head tail => simp [Node.itemReports, head.reports depth, reportsAll tail]

theorem lineReports (h : List.Forall₂ Echoes ns ms) (depth : Int) :
    (lineReports depth ns).map (·.map Report.unplaced) =
      (lineReports depth ms).map (·.map Report.unplaced) := by
  induction h with
  | nil => rfl
  | @cons n m _ _ head _ ih =>
    cases empty : m.isEmpty <;>
      simp [Node.lineReports, head.isEmpty, empty, head.reports depth, ih]

theorem allEmpty (h : List.Forall₂ Echoes ns ms) : allEmpty ns = allEmpty ms := by
  induction h with
  | nil => rfl
  | cons head _ ih => simp [Node.allEmpty, head.isEmpty, ih]

end Rows

theorem optionReports {n m : Option Node} (h : Option.Rel Echoes n m) (depth : Int) :
    (optionReports depth n).map Report.unplaced = (optionReports depth m).map Report.unplaced := by
  cases h with
  | none => rfl
  | some h => exact h.reports depth

theorem optionEmpty {n m : Option Node} (h : Option.Rel Echoes n m) :
    optionEmpty n = optionEmpty m := by
  cases h with
  | none => rfl
  | some h => exact h.isEmpty

theorem isSome {n m : Option Node} (h : Option.Rel Echoes n m) : n.isSome = m.isSome := by
  cases h <;> rfl

theorem headerText {n m : Option Node} (h : Option.Rel Echoes n m) :
    headerText n = headerText m := by
  cases h with
  | none => rfl
  | some h => exact h.header

variable {mark mark' : Mark} {failed : Bool}

theorem binding {type : Ty} {name : Name} {value value' : Option Node}
    (h : Option.Rel Echoes value value') :
    Echoes (.mk mark (.binding type name value failed))
      (.mk mark' (.binding type name value' failed)) := by
  refine .intro (fun depth => ?_) rfl rfl rfl rfl rfl
  cases given : value'.isSome <;> simp [Node.reports, optionReports h, isSome h, given]

theorem declaration {type : Ty} {kind symbolType : String} {ns ms : List Node}
    (h : List.Forall₂ Echoes ns ms) :
    Echoes (.mk mark (.declaration type kind symbolType ns))
      (.mk mark' (.declaration type kind symbolType ms)) where
  reports depth := by simp [Node.reports, unplaced_joinReports, reportsAll h]
  isEmpty := rfl
  isOperation := rfl
  arguments := rfl
  header := by
    have texts : ns.map (·.text 0) = ms.map (·.text 0) := by
      induction h with
      | nil => rfl
      | cons head _ ih => rw [List.map_cons, List.map_cons, head.text, ih]
    rw [headerText_declaration, headerText_declaration, texts]

theorem operation {style : Style} {op : Op} {ns ms : List Node} {expected : Ty}
    {result : Option Ty} {coerced : List Nat} (h : List.Forall₂ Echoes ns ms) :
    Echoes (.mk mark (.operation style op ns expected result coerced failed))
      (.mk mark' (.operation style op ms expected result coerced failed)) := by
  refine .intro (fun depth => ?_) rfl rfl rfl rfl rfl
  simp only [Node.reports, h.length_eq]
  split <;> simp [unplaced_joinReports, unplaced_coerceParts, reportsAll h, List.map_flatten]

theorem assignment {target target' value value' : Node} {coerced : Bool}
    (ht : target.Echoes target') (hv : value.Echoes value') :
    Echoes (.mk mark (.assignment target value coerced failed))
      (.mk mark' (.assignment target' value' coerced failed)) := by
  refine .intro (fun depth => ?_) rfl rfl rfl rfl rfl
  simp [Node.reports, ht.reports, hv.reports]

theorem block {title : String} {ns ms : List Node} (h : List.Forall₂ Echoes ns ms) :
    Echoes (.mk mark (.block title ns)) (.mk mark' (.block title ms)) := by
  refine .intro (fun depth => ?_) (allEmpty h) rfl (reportsAll h 0) rfl rfl
  simp [Node.reports, unplaced_joinReports, lineReports h]

theorem nested {n m : Node} (h : n.Echoes m) (mark mark' : Mark) (depth : Int) :
    (nested mark n.isEmpty (n.reports depth)).map Report.unplaced =
      (nested mark' m.isEmpty (m.reports depth)).map Report.unplaced := by
  rw [Node.nested, Node.nested, h.isEmpty]
  split <;> simp [h.reports]

theorem optionNested {n m : Option Node} (h : Option.Rel Echoes n m) (mark mark' : Mark)
    (depth : Int) :
    (Node.nested mark (Node.optionEmpty n) (Node.optionReports depth n)).map Report.unplaced =
      (Node.nested mark' (Node.optionEmpty m) (Node.optionReports depth m)).map
        Report.unplaced := by
  cases h with
  | none => rfl
  | some h => exact h.nested mark mark' depth

theorem conditional {condition condition' accepted accepted' : Node}
    {rejected rejected' : Option Node} (hc : condition.Echoes condition')
    (ha : accepted.Echoes accepted') (hr : Option.Rel Echoes rejected rejected') :
    Echoes (.mk mark (.conditional condition accepted rejected failed))
      (.mk mark' (.conditional condition' accepted' rejected' failed)) := by
  refine .intro (fun depth => ?_) rfl rfl rfl rfl rfl
  simp only [Node.reports, hc.isOperation, isSome hr]
  split <;> split <;>
    simp [hc.reports, ha.nested mark mark', optionNested hr mark mark']

theorem loop {init init' update update' : Option Node} {test test' body body' : Node}
    (hi : Option.Rel Echoes init init') (ht : test.Echoes test')
    (hu : Option.Rel Echoes update update') (hb : body.Echoes body') :
    Echoes (.mk mark (.loop init test update body failed))
      (.mk mark' (.loop init' test' update' body' failed)) := by
  refine .intro (fun depth => ?_) rfl rfl rfl rfl rfl
  simp [Node.reports, headerText hi, headerText hu, codeText_of_unplaced (ht.reports 0),
    hb.nested mark mark']

theorem function {returns : Ty} {name : Value} {params params' body body' : Option Node}
    (hp : Option.Rel Echoes params params') (hb : Option.Rel Echoes body body') :
    Echoes (.mk mark (.function returns name params body failed))
      (.mk mark' (.function returns name params' body' failed)) := by
  refine .intro (fun depth => ?_) rfl rfl rfl rfl rfl
  simp only [Node.reports, isSome hb]
  split <;> simp [optionReports hp, optionNested hb mark mark']

theorem ret {operand operand' : Option Node} (h : Option.Rel Echoes operand operand') :
    Echoes (.mk mark (.ret operand)) (.mk mark' (.ret operand')) := by
  refine .intro (fun depth => ?_) rfl rfl rfl rfl rfl
  simp only [Node.reports, isSome h]
  split <;> simp [optionReports h]

theorem arguments_of {ns ms : List Node} (h : List.Forall₂ Echoes ns ms) :
    Echoes (.mk mark (.arguments ns)) (.mk mark' (.arguments ms)) := by
  refine .intro (fun depth => ?_) rfl rfl (reportsAll h 0) rfl rfl
  simp [Node.reports, unplaced_joinReports, itemReports h]

theorem call {name : Name} {args args' : Node} {type : Ty} {coerced : List Nat}
    (h : args.Echoes args') :
    Echoes (.mk mark (.call name args type coerced failed))
      (.mk mark' (.call name args' type coerced failed)) := by
  refine .intro (fun depth => ?_) rfl rfl rfl rfl rfl
  simp [Node.reports, unplaced_joinReports, unplaced_coerceParts, h.arguments]

theorem access {name : Name} {index index' : Node} {type : Ty} (h : index.Echoes index') :
    Echoes (.mk mark (.access name index type failed))
      (.mk mark' (.access name index' type failed)) := by
  refine .intro (fun depth => ?_) rfl rfl rfl rfl rfl
  simp [Node.reports, h.reports]

theorem wrapper {wrap : Wrap} {target target' : Node} {type : Ty} (h : target.Echoes target') :
    Echoes (.mk mark (.wrapper wrap target type failed))
      (.mk mark' (.wrapper wrap target' type failed)) := by
  refine .intro (fun depth => ?_) rfl rfl rfl rfl rfl
  simp [Node.reports, h.reports]

end Echoes

variable (ids : Nat → Int)

mutual
theorem echoes_numbered (next : Nat) : (n : Node) → (numbered ids next n).1.Echoes n
  | .mk _ (.bare _) | .mk _ .nop | .mk _ (.constant _ _) | .mk _ (.variable _ _ _)
  | .mk _ (.arrayDecl _ _ _ _) | .mk _ (.signature _) =>
    .intro (fun _ => rfl) rfl rfl rfl rfl rfl
  | .mk _ (.binding _ _ value _) => .binding (echoes_numberedOption _ value)
  | .mk _ (.declaration _ _ _ bindings) => .declaration (echoes_numberedAll _ bindings)
  | .mk _ (.operation _ _ operands _ _ _ _) => .operation (echoes_numberedAll _ operands)
  | .mk _ (.assignment target value _ _) =>
    .assignment (echoes_numbered _ target) (echoes_numbered _ value)
  | .mk _ (.block _ lines) => .block (echoes_numberedAll _ lines)
  | .mk _ (.conditional condition accepted rejected _) =>
    .conditional (echoes_numbered _ condition) (echoes_numbered _ accepted)
      (echoes_numberedOption _ rejected)
  | .mk _ (.loop init test update body _) =>
    .loop (echoes_numberedOption _ init) (echoes_numbered _ test)
      (echoes_numberedOption _ update) (echoes_numbered _ body)
  | .mk _ (.function _ _ params body _) =>
    .function (echoes_numberedOption _ params) (echoes_numberedOption _ body)
  | .mk _ (.ret operand) => .ret (echoes_numberedOption _ operand)
  | .mk _ (.arguments items) => .arguments_of (echoes_numberedAll _ items)
  | .mk _ (.call _ args _ _ _) => .call (echoes_numbered _ args)
  | .mk _ (.access _ index _ _) => .access (echoes_numbered _ index)
  | .mk _ (.wrapper _ target _ _) => .wrapper (echoes_numbered _ target)

theorem echoes_numberedAll (next : Nat) : (ns : List Node) →
    List.Forall₂ Echoes (numberedAll ids next ns).1 ns
  | [] => .nil
  | n :: ns => .cons (echoes_numbered next n) (echoes_numberedAll _ ns)

theorem echoes_numberedOption (next : Nat) : (n : Option Node) →
    Option.Rel Echoes (numberedOption ids next n).1 n
  | none => .none
  | some n => .some (echoes_numbered next n)
end

theorem failed_outline (n : Node) : n.outline.failed = n.error := by
  obtain ⟨m, form⟩ := n
  cases form <;> rfl

theorem any_failed_outlineAll (ns : List Node) :
    (outlineAll ns).any Outline.failed = anyError ns := by
  simp [outlineAll_eq_map, anyError_eq_any, Function.comp_def, failed_outline]

theorem any_failed_outlineOption (n : Option Node) :
    (outlineOption n).any Outline.failed = optionError n := by
  cases n <;> simp [outlineOption, optionError, failed_outline]

theorem length_outlineAll (ns : List Node) : (outlineAll ns).length = ns.length := by
  simp [outlineAll_eq_map]

theorem isSome_numbered (next : Nat) (n : Option Node) :
    (numberedOption ids next n).1.isSome = n.isSome := by
  cases n <;> rfl

mutual
theorem outline_numbered (next : Nat) : (n : Node) → (numbered ids next n).1.outline = n.outline
  | .mk _ (.bare _) | .mk _ .nop | .mk _ (.constant _ _) | .mk _ (.variable _ _ _)
  | .mk _ (.arrayDecl _ _ _ _) | .mk _ (.signature _) => rfl
  | .mk _ (.binding _ _ value _) => by
    simp [numbered, outline, label, form, error, outlineOption_numbered _ value]
  | .mk _ (.declaration _ _ _ bindings) => by
    simp [numbered, outline, label, form, error, outlineAll_numbered _ bindings,
      ← any_failed_outlineAll, ← length_outlineAll]
  | .mk _ (.operation _ _ operands _ _ _ _) => by
    simp [numbered, outline, label, form, error, type, outlineAll_numbered _ operands]
  | .mk _ (.assignment target value _ _) => by
    simp [numbered, outline, label, form, error, outline_numbered _ target,
      outline_numbered _ value]
  | .mk _ (.block _ lines) => by
    simp [numbered, outline, label, form, error, outlineAll_numbered _ lines,
      ← any_failed_outlineAll]
  | .mk _ (.conditional condition accepted rejected _) => by
    simp [numbered, outline, label, form, error, outline_numbered _ condition,
      outline_numbered _ accepted, outlineOption_numbered _ rejected, ← failed_outline,
      ← any_failed_outlineOption]
  | .mk _ (.loop init test update body _) => by
    simp [numbered, outline, label, form, error, outline_numbered _ test,
      outline_numbered _ body, outlineOption_numbered _ init, outlineOption_numbered _ update,
      ← failed_outline, ← any_failed_outlineOption]
  | .mk _ (.function _ _ params body _) => by
    simp [numbered, outline, label, form, error, outlineOption_numbered _ params,
      outlineOption_numbered _ body, isSome_numbered, ← any_failed_outlineOption]
  | .mk _ (.ret operand) => by
    simp [numbered, outline, label, form, error, outlineOption_numbered _ operand,
      ← any_failed_outlineOption]
  | .mk _ (.arguments items) => by
    simp [numbered, outline, label, form, error, outlineAll_numbered _ items,
      ← any_failed_outlineAll, ← length_outlineAll]
  | .mk _ (.call _ args _ _ _) => by
    simp [numbered, outline, label, form, error, outline_numbered _ args]
  | .mk _ (.access _ index _ _) => by
    simp [numbered, outline, label, form, error, outline_numbered _ index]
  | .mk _ (.wrapper _ target _ _) => by
    simp [numbered, outline, label, form, error, outline_numbered _ target]

theorem outlineAll_numbered (next : Nat) : (ns : List Node) →
    outlineAll (numberedAll ids next ns).1 = outlineAll ns
  | [] => rfl
  | n :: ns => by
    simp [numberedAll, outlineAll, outline_numbered next n, outlineAll_numbered _ ns]

theorem outlineOption_numbered (next : Nat) : (n : Option Node) →
    outlineOption (numberedOption ids next n).1 = outlineOption n
  | none => rfl
  | some n => by simp [numberedOption, outlineOption, outline_numbered next n]
end

mutual
theorem fault?_numbered (next : Nat) : (n : Node) → (numbered ids next n).1.fault? = n.fault?
  | .mk _ (.bare _) | .mk _ .nop | .mk _ (.constant _ _) | .mk _ (.variable _ _ _)
  | .mk _ (.arrayDecl _ _ _ _) | .mk _ (.signature _) => rfl
  | .mk _ (.binding _ _ value _) => optionFault?_numbered _ value
  | .mk _ (.declaration _ _ _ bindings) => firstFault?_numbered _ bindings
  | .mk _ (.operation _ _ [] _ _ _ _) => rfl
  | .mk _ (.operation style op [operand] _ _ _ _) =>
    congrArg (style.fault? op).or (fault?_numbered _ operand)
  | .mk _ (.operation style op (operand :: second :: rest) _ _ _ _) => by
    have others := firstFault?_numbered (numbered ids (next + 1) operand).2 (second :: rest)
    change (numbered ids (next + 1) operand).1.fault?.or ((style.fault? op).or
      (firstFault? (numberedAll ids (numbered ids (next + 1) operand).2 (second :: rest)).1)) = _
    rw [others, fault?_numbered (next + 1) operand, fault?]
    simp
  | .mk _ (.assignment target value _ _) => by
    simp only [numbered, fault?, fault?_numbered _ target, fault?_numbered _ value]
  | .mk _ (.block _ lines) => lineFault?_numbered _ lines
  | .mk _ (.conditional condition accepted rejected _) => by
    simp only [numbered, fault?, fault?_numbered _ condition, fault?_numbered _ accepted,
      bodyFault?_numbered _ rejected, (echoes_numbered ids _ accepted).isEmpty]
  | .mk _ (.loop init test update body _) => by
    simp only [numbered, fault?, optionFault?_numbered _ init, fault?_numbered _ test,
      optionFault?_numbered _ update, fault?_numbered _ body, (echoes_numbered ids _ body).isEmpty]
  | .mk _ (.function _ _ params body _) => by
    simp only [numbered, fault?, optionFault?_numbered _ params, bodyFault?_numbered _ body]
  | .mk _ (.ret operand) => optionFault?_numbered _ operand
  | .mk _ (.arguments items) => firstFault?_numbered _ items
  | .mk _ (.call _ args _ _ _) => fault?_numbered _ args
  | .mk _ (.access _ index _ _) => fault?_numbered _ index
  | .mk _ (.wrapper _ target _ _) => fault?_numbered _ target

theorem optionFault?_numbered (next : Nat) : (n : Option Node) →
    optionFault? (numberedOption ids next n).1 = optionFault? n
  | none => rfl
  | some n => fault?_numbered next n

theorem bodyFault?_numbered (next : Nat) : (n : Option Node) →
    bodyFault? (numberedOption ids next n).1 = bodyFault? n
  | none => rfl
  | some n => by
    simp only [numberedOption, bodyFault?, fault?_numbered next n,
      (echoes_numbered ids next n).isEmpty]

theorem firstFault?_numbered (next : Nat) : (ns : List Node) →
    firstFault? (numberedAll ids next ns).1 = firstFault? ns
  | [] => rfl
  | n :: ns => by
    simp only [numberedAll, firstFault?, fault?_numbered next n, firstFault?_numbered _ ns]

theorem lineFault?_numbered (next : Nat) : (ns : List Node) →
    lineFault? (numberedAll ids next ns).1 = lineFault? ns
  | [] => rfl
  | n :: ns => by
    simp only [numberedAll, lineFault?, fault?_numbered next n, lineFault?_numbered _ ns,
      (echoes_numbered ids next n).isEmpty]
end

end Node

theorem Session.text_numbered (s : Session) (ids : Nat → Int) (depth : Int) :
    (s.numbered ids).tree.text depth = s.tree.text depth :=
  (Node.Echoes.block (Node.echoes_numberedAll ids 1 s.lines)).text depth

end Treewright
