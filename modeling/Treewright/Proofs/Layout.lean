import Treewright.Proofs.Format
import Treewright.Proofs.Grammar
import Treewright.Proofs.Nesting
set_option autoImplicit false

namespace Treewright

def isWord (s : String) : Bool :=
  s ≠ "" && s.toList.all fun c => !Text.isBlank c && !isBracket c

theorem row_of_isWord {s : String} (h : isWord s = true) : Row s.toList := by
  simp only [isWord, Bool.and_eq_true, decide_eq_true_eq, List.all_eq_true, Bool.not_eq_true'] at h
  obtain ⟨hne, hs⟩ := h
  have unblank {c : Char} (hc : c ∈ s.toList) {b : Char} (hb : Text.isBlank b = true) : c ≠ b := by
    rintro rfl
    simp [(hs c hc).1] at hb
  have plain : s.toList.all isPlain = true := by
    refine List.all_eq_true.mpr fun c hc => ?_
    simp [isPlain, unblank hc (b := '\n') (by decide +kernel), (hs c hc).2]
  refine ⟨.of_plain plain, ?_⟩
  cases chars : s.toList with
  | nil => exact absurd (String.toList_eq_nil_iff.mp chars) hne
  | cons c cs => exact ⟨c, cs, rfl, unblank (by simp [chars]) (by decide +kernel)⟩

theorem takes_isWord : Fabric.nesting.Takes isWord := fun _ => row_of_isWord

namespace Node

variable {F : Fabric} {good : String → Bool} {n : Node}

def Tidy (F : Fabric) (n : Node) : Prop :=
  ∃ rows, rows ≠ [] ∧ Rows F 0 rows 0 ∧
    ∀ depth, (n.text depth).toList = ['\n'].intercalate (rows.map (Line.shown depth))

theorem Flat.tidy (h : n.Flat F) : n.Tidy F :=
  ⟨[.row 0 (n.text 0).toList], by simp, .flat h.row (.nil 0), fun depth => by
    simp [h.indented depth, Line.shown]⟩

theorem tidy_of_text_nil (h : ∀ depth, (n.text depth).toList = []) : n.Tidy F :=
  ⟨[.blank], by simp, .blank (.nil 0), fun depth => by simp [h, Line.shown]⟩

theorem tidy_lines {ns : List Node} (h : ∀ n ∈ ns, n.Tidy F) :
    ∃ rows, rows ≠ [] ∧ Rows F 0 rows 0 ∧ ∀ depth,
      ['\n'].intercalate (ns.map fun n => (n.text depth).toList) =
        ['\n'].intercalate (rows.map (Line.shown depth)) := by
  induction ns with
  | nil => exact ⟨[.blank], by simp, .blank (.nil 0), fun depth => by simp [Line.shown]⟩
  | cons n ns ih =>
    obtain ⟨hn, hns⟩ := List.forall_mem_cons.mp h
    obtain ⟨rows, hne, hrows, text⟩ := hn
    cases ns with
    | nil => exact ⟨rows, hne, hrows, fun depth => by simpa using text depth⟩
    | cons m ns =>
      obtain ⟨more, hne', hmore, text'⟩ := ih hns
      refine ⟨rows ++ more, by simp [hne], hrows.append hmore, fun depth => ?_⟩
      have rest := text' depth
      rw [List.map_cons] at rest ⊢
      rw [List.map_cons, List.intercalate_cons_cons, rest, text, List.map_append,
        intercalate_append (by simpa using hne) (by simpa using hne')]
      simp

theorem Tidy.block {mark : Mark} {title : String} {ns : List Node} (h : ∀ n ∈ ns, n.Tidy F) :
    Tidy F (.mk mark (.block title ns)) := by
  have shown : ∀ n ∈ ns.filter (!·.isEmpty), n.Tidy F := fun n hn =>
    h n (List.mem_of_mem_filter hn)
  obtain ⟨rows, hne, hrows, text⟩ := tidy_lines shown
  exact ⟨rows, hne, hrows, fun depth => (toList_text_block mark title ns _).trans (text depth)⟩

theorem Tidy.declaration {mark : Mark} {type : Ty} {kind symbolType : String} {ns : List Node}
    (h : ∀ n ∈ ns, n.Tidy F) : Tidy F (.mk mark (.declaration type kind symbolType ns)) := by
  obtain ⟨rows, hne, hrows, text⟩ := tidy_lines h
  exact ⟨rows, hne, hrows, fun depth =>
    (toList_text_declaration mark type kind symbolType ns _).trans (text depth)⟩

theorem Tidy.nested (h : n.Tidy F) :
    ∃ rows, Rows F 1 rows 1 ∧ ∀ depth,
      nestedText (depth + 1) n = (rows.map (Line.shown depth)).flatMap (· ++ ['\n']) := by
  unfold nestedText
  split
  · exact ⟨[], .nil 1, fun depth => rfl⟩
  · obtain ⟨rows, hne, hrows, text⟩ := h
    refine ⟨rows.map Line.deeper, hrows.deeper, fun depth => ?_⟩
    have below : (rows.map Line.deeper).map (Line.shown depth) =
        rows.map (Line.shown (depth + 1)) := by
      rw [List.map_map]
      exact List.map_congr_left fun line _ => line.shown_deeper depth
    have ended := intercalate_concat ['\n'] (rows.map (Line.shown (depth + 1))) []
    rw [intercalate_append (by simpa using hne) (by simp)] at ended
    rw [text, below]
    simpa using ended

theorem tidy_braced {s : List Char} (row : F.Begins s)
    (h : ∃ rows, Rows F 1 rows 1 ∧ ∀ depth, (n.text depth).toList =
      (indentation depth).toList ++ (s ++ (" \x7b\n".toList ++
        ((rows.map (Line.shown depth)).flatMap (· ++ ['\n']) ++
          (indentation depth ++ "\x7d").toList)))) : n.Tidy F := by
  obtain ⟨rows, hrows, text⟩ := h
  refine ⟨_ :: (rows ++ [_]), by simp, .opens row (hrows.append (.closes (.nil 0))), ?_⟩
  intro depth
  rw [text, ← List.cons_append, List.map_append, List.map_singleton, intercalate_concat]
  simp [Line.shown]

theorem Tidy.conditional {mark : Mark} {condition accepted : Node} {rejected : Option Node}
    {failed : Bool} (hc : condition.Flat F) (ha : accepted.Tidy F)
    (hr : ∀ n ∈ rejected, n.Tidy F) :
    Tidy F (.mk mark (.conditional condition accepted rejected failed)) := by
  have word : F.Begins "if ".toList := F.word (by decide) (by decide)
  have test : F.Within (if condition.isOperation then (condition.text 0).toList
      else '(' :: ((condition.text 0).toList ++ [')'])) := by
    split
    · exact hc.within
    · exact F.within (F.parens hc.within)
  refine tidy_braced (F.extend word test) ?_
  obtain ⟨rows, hrows, text⟩ := ha.nested
  cases rejected with
  | none =>
    refine ⟨rows, hrows, fun depth => ?_⟩
    rw [toList_text_conditional, text]
    simp
  | some n =>
    obtain ⟨more, hmore, text'⟩ := (hr n rfl).nested
    refine ⟨rows ++ _ :: more, hrows.append (.turns hmore), fun depth => ?_⟩
    rw [toList_text_conditional, text, Option.map_some, text']
    simp [Line.shown]

theorem Tidy.loop {mark : Mark} {init update : Option Node} {test body : Node} {failed : Bool}
    (semicolon : F.Within [';']) (hi : F.Within (headerText init).toList) (ht : test.Flat F)
    (hu : F.Within (headerText update).toList) (hb : body.Tidy F) :
    Tidy F (.mk mark (.loop init test update body failed)) := by
  have word : F.Begins "for ".toList := F.word (by decide) (by decide)
  have between : F.Within "; ".toList := F.append semicolon (F.letters (s := [' ']) rfl)
  have header := F.parens
    (F.append hi (F.append between (F.append ht.within (F.append between hu))))
  refine tidy_braced (F.extend word (F.within header)) ?_
  obtain ⟨rows, hrows, text⟩ := hb.nested
  refine ⟨rows, hrows, fun depth => ?_⟩
  rw [toList_text_loop, text]
  simp

theorem toList_text_function (mark mark' : Mark) (returns : Ty) (name : Value)
    (params : List (Ty × Value)) (body : Option Node) (failed : Bool) (depth : Int) :
    (text (.mk mark (.function returns name (some (.mk mark' (.signature params))) body failed))
        depth).toList =
      (indentation depth).toList ++ ((returns.spelling ++ " " ++ name.text).toList ++
        ('(' :: ((paramsText params).toList ++ [')'])) ++
          (body.map fun n => " \x7b\n".toList ++ (nestedText (depth + 1) n ++
            (indentation depth ++ "\x7d").toList)).getD [';']) := by
  cases body <;> simp [text, reports, optionReports, optionEmpty, toList_codeText_nested]

theorem Tidy.function (takes : F.Takes good) (semicolon : F.Within [';']) {line : Int}
    {returns : Ty} {name : Name} {params : List (Ty × Name)} {lines : Option (List Action)}
    {rejected : Bool} {body : Option Node}
    (proper : (Action.function returns name params lines).Proper)
    (own : ∀ s ∈ (Action.function returns name params lines).spellings, good s = true)
    (hb : ∀ n ∈ body, n.Tidy F) : Tidy F (functionNode line returns name params rejected body) := by
  obtain ⟨ht, hp⟩ := proper
  obtain ⟨hn, hw⟩ := List.forall_mem_cons.mp own
  rw [List.forall_mem_map] at hw
  have typed {type : Ty} {name : Name} (ht : type.isWritten = true)
      (hn : good name.written = true) :
      F.Begins (type.spelling ++ " " ++ name.toValue.text).toList := by
    simpa [Name.written] using begins_typed ht (F.within (takes _ hn))
  have list : F.Within (paramsText (signatureOf params)).toList := by
    rw [paramsText, String.toList_intercalate]
    refine F.intercalate (F.letters (by decide)) ?_
    simp only [signatureOf, List.forall_mem_map]
    exact fun p h => F.within (typed (hp p h) (hw p h))
  have front := F.extend (typed ht hn) (F.within (F.parens list))
  cases body with
  | none => exact (Flat.intro (F.extend front semicolon) fun depth => toList_text_function ..).tidy
  | some n =>
    obtain ⟨rows, hrows, text⟩ := (hb n rfl).nested
    refine tidy_braced front ⟨rows, hrows, fun depth => ?_⟩
    rw [functionNode, toList_text_function, Option.map_some, Option.getD_some, text]

structure LaidOut (F : Fabric) (n : Node) : Prop where
  tidy : n.Tidy F
  header : F.Within (headerText (some n)).toList

theorem Flat.laidOut (h : n.Flat F) (hd : n.isDeclaration = false) : n.LaidOut F := by
  refine ⟨h.tidy, ?_⟩
  rw [headerText_some hd]
  exact F.dropSemicolons h.within

theorem header_declaration {mark : Mark} {type : Ty} {kind symbolType : String} {ns : List Node}
    (written : type.isWritten = true) (h : ∀ n ∈ ns, n.Flat F) :
    F.Within (headerText (some (.mk mark (.declaration type kind symbolType ns)))).toList := by
  rw [headerText_declaration]
  cases ns with
  | nil => exact F.nil
  | cons n ns =>
    obtain ⟨hn, hns⟩ := List.forall_mem_cons.mp h
    have front : (type.spelling ++ " ").toList.all isPlain = true := by
      cases type <;> simp only [Ty.isWritten, Bool.false_eq_true] at written
      all_goals decide
    rw [List.map_cons, toList_joinBindings, List.map_map]
    refine F.intercalate (F.letters (by decide))
      (List.forall_mem_cons.mpr ⟨F.dropSemicolons hn.within, ?_⟩)
    rw [List.forall_mem_map]
    exact fun m hm => F.dropFront (F.dropSemicolons (hns m hm).within) front

section Statements

variable (takes : F.Takes good) (semicolon : F.Within [';'])
include takes semicolon

theorem Step.laidOut (h : n.Step good) : n.LaidOut F := by
  cases h with
  | ofExpression h => exact (h.flat takes).laidOut h.isDeclaration
  | nop =>
    refine ⟨tidy_of_text_nil fun depth => rfl, ?_⟩
    rw [headerText_some rfl]
    exact F.dropSemicolons F.nil
  | assignment target value =>
    exact ((Ended.assignment takes target value).flat semicolon).laidOut rfl
  | arrayDecl written spelled sized =>
    refine (Ended.flat semicolon ?_).laidOut rfl
    exact .arrayDecl takes written spelled (F.within (takes _ sized))
  | sizedArray written spelled sized =>
    refine (Ended.flat semicolon ?_).laidOut rfl
    exact .arrayDecl takes written spelled (sized.flat takes).within
  | declaration written bindings =>
    have flat := fun m hm => ((bindings m hm).ended takes written).flat semicolon
    exact ⟨.declaration fun m hm => (flat m hm).tidy, header_declaration written flat⟩

theorem within_header {part : Option Node} (h : ∀ n ∈ part, n.Step good) :
    F.Within (headerText part).toList := by
  cases part with
  | none => exact F.nil
  | some n => exact ((h n rfl).laidOut takes semicolon).header

theorem Statement.tidy (h : n.Statement good) : n.Tidy F := by
  induction h with
  | ofStep h => exact (h.laidOut takes semicolon).tidy
  | ret given => exact ((Ended.ret takes given).flat semicolon).tidy
  | block _ ih => exact .block ih
  | conditional test _ _ ih ih' => exact .conditional (test.flat takes) ih ih'
  | loop first condition next _ ih =>
    exact .loop semicolon (within_header takes semicolon first) (condition.flat takes)
      (within_header takes semicolon next) ih
  | function proper spelled _ ih => exact .function takes semicolon proper spelled ih

end Statements

end Node

/-- A program with values in its expressions, loop headers that stay on their lines, and names,
values and sizes that are words is built to its end. Its code is well nested at every depth, and
indented by its nesting. All that conforms to the format reads as actions that fit. -/
theorem code_follows_nesting (s : Session) (program : List Value) (name : String)
    (fits : ∀ v ∈ program, (Action.ofValue v).Fits layout .item)
    (words : ∀ v ∈ program, (Action.ofValue v).Spells isWord) :
    let r := s.runAll (.list program) name
    r.1.isOk = true ∧ ∀ depth, ∃ code, r.2.tree.render depth = .ok code ∧
      WellNested code.toList ∧ Indented depth (code.toList.splitOn '\n') := by
  intro r
  have htotal : ∀ a ∈ program.map Action.ofValue, a.Total := by
    rw [List.forall_mem_map]
    exact fun v hv => ((fits v hv).imp layout_flawless fun _ _ => layout_flawless).total
  have places : ∀ a ∈ program.map Action.ofValue, a.Places isWord .item := by
    rw [List.forall_mem_map]
    exact fun v hv => (fits v hv).places (words v hv)
  obtain ⟨t, nodes, d, run⟩ := exists_run_all htotal { reportAll := s.options.reportAll }
  obtain ⟨hcode, htree, -⟩ :=
    Session.runAll_built (Reading.sequence_list program) (exec_of_run run) name
  have tidy : r.2.tree.Tidy .nesting := by
    rw [htree]
    refine .block fun n hn => ?_
    have statement : n.Statement isWord := run.forall_nodes places n hn
    exact statement.tidy takes_isWord (Inline.of_plain rfl)
  have renders : r.2.tree.fault? = none := by
    rw [htree]
    exact Node.lineFault?_eq_none run.renders
  refine ⟨by rw [hcode]; rfl, fun depth => ?_⟩
  obtain ⟨rows, hne, hrows, text⟩ := tidy
  exact ⟨r.2.tree.text depth, by rw [Node.render, renders], hrows.wellNested hne (text depth)⟩

def countdown : List Value :=
  let k := Value.object [("node", .string "var"), ("name", .string "k")]
  let zero :=
    Value.object [("node", .string "const"), ("type", .string "int"), ("value", .string "0")]
  [.object [("node", .string "function"), ("returns", .string "void"), ("name", .string "count"),
    ("params", .list [.list [.string "int", .string "k"]]),
    ("body", .list [.object [("node", .string "for"),
      ("test", .object [("node", .string "op"), ("op", .string ">"),
        ("operands", .list [k, zero])]),
      ("update", .object [("node", .string "assign"), ("target", k), ("value", zero)]),
      ("body", .list [.object [("node", .string "if"), ("condition", k),
        ("then", .list [.object [("node", .string "nop")]]),
        ("else", .list [.object [("node", .string "return")]])]])]])]]

theorem code_follows_nesting_countdown :
    let r := (Session.new {}).runAll (.list countdown) "main"
    (∀ v ∈ countdown, (Action.ofValue v).Fits layout .item) ∧
      (∀ v ∈ countdown, (Action.ofValue v).Spells isWord) ∧
      r.1.toOption = some ("void count(int k) \x7b\n    for (; (k > 0); k = 0) \x7b\n" ++
        "        if (k) \x7b\n        \x7d else \x7b\n            return;\n" ++
        "        \x7d\n    \x7d\n\x7d") ∧
      r.1.isOk = true ∧ ∀ depth, ∃ code, r.2.tree.render depth = .ok code ∧
        WellNested code.toList ∧ Indented depth (code.toList.splitOn '\n') := by
  intro r
  obtain ⟨hconforms, hspells, written⟩ :
      (countdown.all fun v => v.conforms layout 5 .item) = true ∧
      (countdown.all fun v => (Action.ofValue v).spells isWord 5) = true ∧
      r.1.toOption = some ("void count(int k) \x7b\n    for (; (k > 0); k = 0) \x7b\n" ++
        "        if (k) \x7b\n        \x7d else \x7b\n            return;\n" ++
        "        \x7d\n    \x7d\n\x7d") := by decide +kernel
  have fits : ∀ v ∈ countdown, (Action.ofValue v).Fits layout .item := fun v hv =>
    (Conforms.forall_of_check hconforms v hv).fits rfl
  have words : ∀ v ∈ countdown, (Action.ofValue v).Spells isWord := fun v hv =>
    .of_check (List.all_eq_true.mp hspells v hv)
  exact ⟨fits, words, written,
    code_follows_nesting (Session.new {}) countdown "main" fits words⟩

end Treewright
