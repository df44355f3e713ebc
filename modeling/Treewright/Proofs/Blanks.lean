import Treewright.Proofs.Format
import Treewright.Proofs.Nesting
import Treewright.Proofs.Regions
set_option autoImplicit false

namespace Treewright

open Build

theorem length_intercalate_newline {parts : List (List Char)} (h : parts ≠ []) :
    ("\n".toList.intercalate parts).length + 1 = (parts.flatMap ("\n".toList ++ ·)).length := by
  rw [← append_intercalate h, List.length_append, Nat.add_comm]
  rfl

theorem length_flatMap_filter (parts : List (List Char)) :
    (parts.flatMap ("\n".toList ++ ·)).length =
      ((parts.filter (!·.isEmpty)).flatMap ("\n".toList ++ ·)).length + parts.count [] := by
  induction parts with
  | nil => rfl
  | cons part parts ih =>
    rw [List.flatMap_cons, List.length_append, ih]
    cases part with
    | nil =>
      have one : ("\n".toList ++ []).length = 1 := rfl
      rw [List.filter_cons_of_neg (by simp), List.count_cons_self, one]
      omega
    | cons c part =>
      rw [List.filter_cons_of_pos (by simp), List.flatMap_cons, List.count_cons_of_ne (by simp),
        @List.length_append _ ("\n".toList ++ c :: part)]
      omega

theorem intercalate_filter_iff {parts : List (List Char)} :
    "\n".toList.intercalate parts = "\n".toList.intercalate (parts.filter (!·.isEmpty)) ↔
      parts.length ≤ 1 ∨ ∀ part ∈ parts, part ≠ [] := by
  constructor
  · intro same
    -- Each empty part that is left out takes a line end with it, so the lengths differ.
    by_contra! h
    obtain ⟨many, part, mem, rfl⟩ := h
    have left : parts.filter (!·.isEmpty) ≠ [] := by
      intro none
      rw [none, List.intercalate_nil, intercalate_eq_nil_iff (by decide)] at same
      rcases same with rfl | rfl <;> simp at many
    have gone : 0 < parts.count [] := List.count_pos_iff.mpr mem
    have whole := length_intercalate_newline (List.ne_nil_of_mem mem)
    have rest := length_intercalate_newline left
    rw [same, rest, length_flatMap_filter parts] at whole
    omega
  · rintro (few | full)
    · rcases Nat.le_one_iff_eq_zero_or_eq_one.mp few with none | one
      · rw [List.length_eq_zero_iff.mp none]
        rfl
      · obtain ⟨part, rfl⟩ := List.length_eq_one_iff.mp one
        cases part <;> rfl
    · rw [List.filter_eq_self.mpr fun part hp => by simpa using full part hp]

theorem Form.mem_edges_of_mem_bodies {ν : Type} {form : Form ν} {body : ν}
    (h : body ∈ form.bodies) : body ∈ form.edges := by
  cases form <;> simp_all [Form.bodies, Form.edges]

namespace Node

mutual
/-- The node renders nothing at the depth, and yet no block passes over it. -/
def hollow (depth : Int) : Node → Bool
  | .mk _ (.constant _ value) => depth ≤ 0 && value = ""
  | .mk _ (.variable name _ _) => depth ≤ 0 && name.written = ""
  | .mk _ (.declaration _ _ _ bindings) => bindings.isEmpty
  | .mk _ (.block _ lines) => hollowAlone depth lines
  | _ => false

def hollowAlone (depth : Int) : List Node → Bool
  | [] => false
  | n :: ns => if n.isEmpty then hollowAlone depth ns else n.hollow depth && allEmpty ns
end

theorem hollowAlone_iff (depth : Int) (lines : List Node) :
    hollowAlone depth lines = true ↔
      ∃ n, lines.filter (!·.isEmpty) = [n] ∧ n.hollow depth = true := by
  induction lines with
  | nil => simp [hollowAlone]
  | cons n lines ih =>
    cases h : n.isEmpty with
    | true => simp [hollowAlone, h, ih]
    | false => simp [hollowAlone, h, allEmpty_eq_all, and_comm]

theorem isEmpty_block_iff {mark : Mark} {title : String} {lines : List Node} :
    isEmpty (.mk mark (.block title lines)) = true ↔ lines.filter (!·.isEmpty) = [] := by
  simp [isEmpty, allEmpty_eq_all]

theorem hollow_of_isEmpty {n : Node} (h : n.isEmpty = true) (depth : Int) :
    n.hollow depth = false := by
  obtain ⟨mark, form⟩ := n
  cases form with
  | nop => rfl
  | block title lines =>
    rw [hollow, Bool.eq_false_iff, ne_eq, hollowAlone_iff, isEmpty_block_iff.mp h]
    simp
  | _ => cases h

def Discerned (n : Node) : Prop :=
  ∀ depth, n.text depth = "" ↔ n.isEmpty = true ∨ n.hollow depth = true

namespace Discerned

theorem of_text {n : Node} (shown : ∀ depth, n.text depth ≠ "") (full : n.isEmpty = false)
    (solid : ∀ depth, n.hollow depth = false) : n.Discerned := by
  intro depth
  simp [shown, full, solid]

theorem block {title : String} {lines : List Node} (h : ∀ n ∈ lines, n.Discerned) :
    (Build.block title lines).Discerned := by
  intro depth
  have alone : (lines.filter (!·.isEmpty)).map (fun n => (n.text depth).toList) = [[]] ↔
      ∃ n, lines.filter (!·.isEmpty) = [n] ∧ n.hollow depth = true := by
    rw [List.map_eq_singleton_iff]
    refine exists_congr fun n => and_congr_right fun one => ?_
    have mem : n ∈ lines.filter (!·.isEmpty) := by simp [one]
    obtain ⟨mem, full⟩ := List.mem_filter.mp mem
    rw [String.toList_eq_nil_iff, h n mem depth]
    simp_all
  rw [← String.toList_eq_nil_iff, Build.block, toList_text_block,
    intercalate_eq_nil_iff (by decide), alone, List.map_eq_nil_iff, ← hollowAlone_iff,
    isEmpty_block_iff]
  rfl

theorem declaration {mark : Mark} {type : Ty} {kind symbolType : String} {bindings : List Node}
    (h : ∀ n ∈ bindings, ∀ depth, n.text depth ≠ "") :
    Discerned (.mk mark (.declaration type kind symbolType bindings)) := by
  intro depth
  rw [← String.toList_eq_nil_iff, toList_text_declaration, intercalate_eq_nil_iff (by decide)]
  cases bindings with
  | nil => simp [isEmpty, hollow]
  | cons n ns => simp [isEmpty, hollow, h n (by simp)]

theorem conditional {mark : Mark} {condition accepted : Node} {rejected : Option Node}
    {failed : Bool} : Discerned (.mk mark (.conditional condition accepted rejected failed)) := by
  refine .of_text (fun depth => ?_) rfl fun _ => rfl
  rw [ne_eq, ← String.toList_eq_nil_iff, toList_text_conditional]
  simp

theorem loop {mark : Mark} {init update : Option Node} {test body : Node} {failed : Bool} :
    Discerned (.mk mark (.loop init test update body failed)) := by
  refine .of_text (fun depth => ?_) rfl fun _ => rfl
  rw [ne_eq, ← String.toList_eq_nil_iff, toList_text_loop]
  simp

theorem function {mark : Mark} {returns : Ty} {name : Value} {params body : Option Node}
    {failed : Bool} : Discerned (.mk mark (.function returns name params body failed)) := by
  refine .of_text (fun depth => ?_) rfl fun _ => rfl
  rw [ne_eq, ← String.toList_eq_nil_iff]
  simp [text, reports]

end Discerned

theorem text_bound_ne {type : Ty} {name : Name} {value : Option Node} {c : Context} (depth : Int) :
    (boundNode type name value c).1.text depth ≠ "" := by
  rw [ne_eq, ← String.toList_eq_nil_iff]
  simp [boundNode, Form.ofBinding, text, reports]

end Node

theorem indentation_eq_empty_iff {depth : Int} : indentation depth = "" ↔ depth ≤ 0 := by
  rw [← String.toList_eq_nil_iff, toList_indentation, List.replicate_eq_nil_iff]
  omega

theorem discerned_made {action : Action} {ns : List Node} {c : Context} :
    (action.made ns c).1.Discerned := by
  unfold Action.made
  split
  case h_2 | h_3 =>
    intro depth
    rw [← String.toList_eq_nil_iff]
    simp [Node.text, Node.reports, Form.ofVariable, Node.hollow, Node.isEmpty,
      indentation_eq_empty_iff]
  case h_13 =>
    intro depth
    exact ⟨fun _ => .inl rfl, fun _ => rfl⟩
  all_goals
    refine .of_text (fun depth => ?_) rfl fun _ => rfl
    rw [ne_eq, ← String.toList_eq_nil_iff]
  case h_4 | h_5 | h_6 =>
    simp [Form.ofOperation, Form.ofFold, Node.toList_text_operation]
  case h_8 =>
    cases ns <;> simp [Node.text, Node.reports]
  all_goals
    simp [Form.ofArrayDecl, Form.ofAssignment, Form.ofCall, Form.ofAccess, Form.ofWrapper,
      Node.text, Node.reports, Wrap.glyph]

theorem text_ne_of_run {type : Ty} {items : List (Name × Option Action)} {c d : Context}
    {t : List Event} {ns : List Node} (h : Run (.bindings type items) c t ns d) :
    ∀ n ∈ ns, ∀ depth, n.text depth ≠ "" := by
  induction items generalizing c t ns with
  | nil =>
    cases h
    simp
  | cons item items ih =>
    cases h with
    | binding _ _ bound others =>
      obtain ⟨rfl, rfl⟩ := Prod.ext_iff.mp bound
      exact List.forall_mem_cons.mpr ⟨Node.text_bound_ne, ih others⟩

structure Node.Framed (n : Node) : Prop where
  bodies : ∀ body ∈ n.form.bodies, body.isBlock = true
  lines : ∀ line ∈ n.lines, line.Discerned

namespace Node.Framed

variable {n : Node}

theorem of_bodies (bodies : ∀ body ∈ n.form.bodies, body.isBlock = true) (lines : n.lines = []) :
    n.Framed :=
  ⟨bodies, by simp [lines]⟩

theorem of_plain (bodies : n.form.bodies = []) (lines : n.lines = []) : n.Framed :=
  .of_bodies (by simp [bodies]) lines

end Node.Framed

structure Node.Surveyed (n : Node) : Prop where
  discerned : n.Discerned
  framed : n.Every Node.Framed

namespace Node.Surveyed

theorem block {title : String} {ns : List Node} (h : ∀ n ∈ ns, n.Surveyed) :
    (Build.block title ns).Surveyed where
  discerned := .block fun n hn => (h n hn).discerned
  framed := .intro ⟨by simp [Build.block, form, Form.bodies], fun n hn => (h n hn).discerned⟩
    fun n hn => (h n hn).framed

theorem head? {ns : List Node} (h : ∀ n ∈ ns, n.Surveyed) : ∀ n ∈ ns.head?, n.Every Node.Framed :=
  fun n hn => (h n (List.mem_of_head? hn)).framed

theorem function {line : Int} {returns : Ty} {name : Name} {params : List (Ty × Name)}
    {rejected : Bool} {body : Option Node} (blocks : ∀ b ∈ body, b.isBlock = true)
    (framed : ∀ b ∈ body, b.Every Framed) :
    (functionNode line returns name params rejected body).Surveyed where
  discerned := .function
  framed := .function (.of_bodies (fun b hb => blocks b (Option.mem_toList.mp hb)) rfl)
    (.of_plain rfl rfl) framed

end Node.Surveyed

theorem Run.surveyed {task : Task} {c d : Context} {t : List Event} {ns : List Node}
    (h : Run task c t ns d) : ∀ n ∈ ns, n.Surveyed := by
  induction h with
  | nil | noBlock | noBinding | noLine => simp
  | cons _ _ ih ih' | line _ _ _ ih ih' =>
    exact List.forall_mem_cons.mpr ⟨ih _ (by simp), ih'⟩
  | block _ _ _ ih ih' => exact List.forall_mem_cons.mpr ⟨.block ih, ih'⟩
  | binding _ _ bound _ ih ih' =>
    obtain ⟨rfl, rfl⟩ := Prod.ext_iff.mp bound
    refine List.forall_mem_cons.mpr ⟨⟨?_, .bound (.of_plain rfl rfl) (Node.Surveyed.head? ih)⟩, ih'⟩
    exact .of_text Node.text_bound_ne rfl fun _ => rfl
  | lined _ ih | scope _ ih => exact ih
  | check operands _ _ ih =>
    refine List.forall_mem_singleton.mpr ⟨discerned_made, ?_⟩
    obtain ⟨hbodies, hlines⟩ := plain_made ‹_› ‹_› ‹_›
    exact .made (.of_plain hbodies hlines) (.of_plain rfl rfl) fun n hn => (ih n hn).framed
  | declaration _ inner ih =>
    refine List.forall_mem_singleton.mpr ⟨.declaration (text_ne_of_run inner), ?_⟩
    exact .intro (.of_plain rfl rfl) fun n hn => (ih n hn).framed
  | sizedArray _ _ _ made _ =>
    obtain ⟨rfl, rfl⟩ := Prod.ext_iff.mp made
    refine List.forall_mem_singleton.mpr ⟨discerned_made, ?_⟩
    exact .intro (.of_plain rfl rfl) fun _ hm => by cases hm
  | @conditional _ _ _ n b m bs _ _ _ _ _ _ test inside made ih ih' =>
    obtain ⟨rfl, rfl⟩ := Prod.ext_iff.mp made
    have blocks := isBlock_of_run inside
    refine List.forall_mem_singleton.mpr ⟨.conditional, ?_⟩
    exact .conditional (.of_bodies (isBlock_of_mem_branches blocks) rfl) (ih n (by simp)).framed
      (ih' b (by simp)).framed
      fun k hk => (ih' k (List.mem_cons_of_mem _ (List.mem_of_head? hk))).framed
  | @loop _ _ _ _ n b m is us _ _ _ _ _ _ _ _ _ _ _ _ _ _ inside _ made ih₁ ih₂ ih₃ ih₄ =>
    obtain ⟨rfl, rfl⟩ := Prod.ext_iff.mp made
    refine List.forall_mem_singleton.mpr ⟨.loop, ?_⟩
    refine .loop (.of_bodies (fun body hm => ?_) rfl) (Node.Surveyed.head? ih₁)
      (ih₂ n (by simp)).framed (Node.Surveyed.head? ih₃) (ih₄ b (by simp)).framed
    rw [List.mem_singleton.mp hm]
    exact isBlock_of_run inside b (by simp)
  | prototype => exact List.forall_mem_singleton.mpr (.function (by simp) (by simp))
  | emptyBody =>
    have nop : Node.Surveyed (.mk {} .nop) :=
      ⟨fun _ => ⟨fun _ => .inl rfl, fun _ => rfl⟩,
        .intro (.of_plain rfl rfl) fun _ hm => by cases hm⟩
    refine List.forall_mem_singleton.mpr (.function (by simp [Build.block, Node.isBlock]) ?_)
    simpa using (@Node.Surveyed.block "Body" _ (List.forall_mem_singleton.mpr nop)).framed
  | function _ _ _ _ ih =>
    refine List.forall_mem_singleton.mpr (.function (by simp [Build.block, Node.isBlock]) ?_)
    simpa using (Node.Surveyed.block ih).framed

namespace Node

/-- The lines that render something at the depth, with line ends between them. -/
def joined (depth : Int) (n : Node) : List Char :=
  "\n".toList.intercalate ((n.lines.map fun line => (line.text depth).toList).filter (!·.isEmpty))

theorem filter_texts (depth : Int) (lines : List Node) :
    (lines.map fun line => (line.text depth).toList).filter (!·.isEmpty) =
      ((lines.filter (!·.isEmpty)).map fun line => (line.text depth).toList).filter
        (!·.isEmpty) := by
  induction lines with
  | nil => rfl
  | cons n lines ih =>
    cases h : n.isEmpty with
    | true => simp [h, ih, text_of_isEmpty]
    | false => simp [h, ih, List.filter_cons]

theorem text_eq_joined_iff {n : Node} (block : n.isBlock = true)
    (h : ∀ line ∈ n.lines, line.Discerned) (depth : Int) :
    (n.text depth).toList = n.joined depth ↔ (n.lines.filter (!·.isEmpty)).length ≤ 1 ∨
      ∀ line ∈ n.lines, line.hollow depth = false := by
  obtain ⟨mark, form⟩ := n
  cases form with
  | block title lines =>
    rw [toList_text_block, joined, filter_texts]
    refine intercalate_filter_iff.trans ?_
    rw [List.length_map]
    refine or_congr_right ?_
    rw [List.forall_mem_map]
    constructor
    · intro full line hl
      cases he : line.isEmpty with
      | true => exact hollow_of_isEmpty he depth
      | false =>
        have shown := full line (List.mem_filter.mpr ⟨hl, by simp [he]⟩)
        rw [ne_eq, String.toList_eq_nil_iff, h line hl depth, not_or] at shown
        simpa using shown.2
    · intro solid line hl
      obtain ⟨hl, full⟩ := List.mem_filter.mp hl
      rw [ne_eq, String.toList_eq_nil_iff, h line hl depth, solid line hl]
      simpa using full
  | _ => cases block

/-- Of a body whose lines all render nothing there is nothing left between braces, unless a line of
it is hollow. -/
theorem nestedText_eq_nil_iff {n : Node} (block : n.isBlock = true)
    (h : ∀ line ∈ n.lines, line.Discerned) {depth : Int}
    (silent : ∀ line ∈ n.lines, line.text depth = "") :
    nestedText depth n = [] ↔ ∀ line ∈ n.lines, line.hollow depth = false := by
  have passed : nestedText depth n = [] ↔ n.isEmpty = true := by
    unfold nestedText
    split <;> simp_all
  obtain ⟨mark, form⟩ := n
  cases form with
  | block title lines =>
    rw [passed, isEmpty, allEmpty_eq_all, List.all_eq_true]
    refine forall₂_congr fun line hl => ⟨fun he => hollow_of_isEmpty he depth, fun solid => ?_⟩
    have either := (h line hl depth).mp (silent line hl)
    simpa [solid] using either
  | _ => cases block

/-- Somewhere in the text the inner one stands between braces, the second at the depth. -/
def Braced (depth : Int) (inner s : List Char) : Prop :=
  ∃ front back, s = front ++ ("\x7b\n".toList ++ (inner ++
    ((indentation depth ++ "\x7d").toList ++ back)))

theorem Braced.append_left {depth : Int} {inner s : List Char} (h : Braced depth inner s)
    (q : List Char) : Braced depth inner (q ++ s) := by
  obtain ⟨front, back, rfl⟩ := h
  exact ⟨q ++ front, back, by rw [List.append_assoc]⟩

theorem braced_of_mem_bodies {n body : Node} (h : body ∈ n.form.bodies) (depth : Int) :
    Braced depth (nestedText (depth + 1) body) (n.text depth).toList := by
  obtain ⟨mark, form⟩ := n
  cases form with
  | conditional condition accepted rejected failed =>
    rw [toList_text_conditional]
    iterate 2 refine Braced.append_left ?_ _
    rcases List.mem_cons.mp h with rfl | hr
    · cases rejected with
      | none => exact ⟨[' '], [], by simp⟩
      | some other =>
        exact ⟨[' '], " else \x7b\n".toList ++ (nestedText (depth + 1) other ++
          (indentation depth ++ "\x7d").toList), by simp⟩
    · rw [Option.mem_toList.mp hr]
      iterate 2 refine Braced.append_left ?_ _
      exact ⟨(indentation depth ++ "\x7d else ").toList, [], by simp⟩
  | loop init test update inner failed =>
    rw [List.mem_singleton.mp h, toList_text_loop]
    iterate 6 refine Braced.append_left ?_ _
    exact ⟨") ".toList, [], by simp⟩
  | function returns name params inner failed =>
    rw [Option.mem_toList.mp h]
    refine ⟨(indentation depth ++ returns.spelling ++ " " ++ name.text ++ "(").toList ++
      ((codeText (optionReports 0 params)).toList ++ ") ".toList), [], ?_⟩
    simp [text, reports, optionReports, optionEmpty, toList_codeText_nested]
  | _ => cases h

end Node

/-- A program that conforms to the format is rendered as a tree of blocks. A block joins the lines
that render something exactly if it shows one line at most or none of its lines is hollow. What
stands between braces is a block, and when all its lines render nothing, there is no line between
the braces exactly if none is hollow. -/
theorem block_skips_iff_no_hollow (s : Session) (program : List Value) (name : String)
    (conforms : ∀ v ∈ program, Conforms flawless .item v) :
    let r := s.runAll (.list program) name
    r.1 = .ok (r.2.tree.text 0) ∧ r.2.tree.isBlock = true ∧ r.2.tree.Every fun n =>
      (n.isBlock = true → ∀ depth, (n.text depth).toList = n.joined depth ↔
        (n.lines.filter (!·.isEmpty)).length ≤ 1 ∨ ∀ line ∈ n.lines, line.hollow depth = false) ∧
      ∀ body ∈ n.form.bodies, body.isBlock = true ∧ ∀ depth,
        Node.Braced depth (body.nestedText (depth + 1)) (n.text depth).toList ∧
        ((∀ line ∈ body.lines, line.text (depth + 1) = "") →
          (body.nestedText (depth + 1) = [] ↔
            ∀ line ∈ body.lines, line.hollow (depth + 1) = false)) := by
  intro r
  obtain ⟨t, nodes, d, run⟩ := exists_run_of_conforms conforms s.options.reportAll
  obtain ⟨hcode, htree, -⟩ :=
    Session.runAll_built (Reading.sequence_list program) (exec_of_run run) name
  refine ⟨by rw [htree]; exact hcode, by rw [htree]; rfl, ?_⟩
  rw [htree]
  have framed := (@Node.Surveyed.block "Program" _ run.surveyed).framed
  refine framed.beside.imp fun n h => ⟨fun block => ?_, fun body hb => ?_⟩
  · exact Node.text_eq_joined_iff block h.1.lines
  · have block := h.1.bodies body hb
    have lines := (h.2 body (Form.mem_edges_of_mem_bodies hb)).lines
    exact ⟨block, fun depth =>
      ⟨Node.braced_of_mem_bodies hb depth, Node.nestedText_eq_nil_iff block lines⟩⟩

def noNames : Value :=
  .object [("node", .string "declaration"), ("type", .string "int"), ("bindings", .list [])]

def noOp : Value := .object [("node", .string "nop")]

def idle : List Value :=
  [.object [("node", .string "function"), ("returns", .string "void"), ("name", .string "f"),
      ("params", .list []), ("body", .list [noOp, blockOf [noNames]])],
    .object [("node", .string "if"), ("condition", .object [("node", .string "const"),
      ("type", .string "bool"), ("value", .string "true")]), ("then", .list [noOp, blockOf [noOp]]),
      ("else", .list [])]]

theorem block_skips_iff_no_hollow_idle :
    let r := (Session.new {}).runAll (.list idle) "main"
    (∀ v ∈ idle, Conforms flawless .item v) ∧
      r.1.toOption =
        some "void f() \x7b\n\n\x7d\nif (true) \x7b\n\x7d else \x7b\n\x7d" ∧
      r.1 = .ok (r.2.tree.text 0) ∧ r.2.tree.isBlock = true ∧ r.2.tree.Every fun n =>
        (n.isBlock = true → ∀ depth, (n.text depth).toList = n.joined depth ↔
          (n.lines.filter (!·.isEmpty)).length ≤ 1 ∨ ∀ line ∈ n.lines, line.hollow depth = false) ∧
        ∀ body ∈ n.form.bodies, body.isBlock = true ∧ ∀ depth,
          Node.Braced depth (body.nestedText (depth + 1)) (n.text depth).toList ∧
          ((∀ line ∈ body.lines, line.text (depth + 1) = "") →
            (body.nestedText (depth + 1) = [] ↔
              ∀ line ∈ body.lines, line.hollow (depth + 1) = false)) := by
  intro r
  obtain ⟨hcheck, written⟩ : (idle.all fun v => v.conforms flawless 4 .item) = true ∧
      r.1.toOption =
        some "void f() \x7b\n\n\x7d\nif (true) \x7b\n\x7d else \x7b\n\x7d" := by decide +kernel
  have conforms := Conforms.forall_of_check hcheck
  exact ⟨conforms, written, block_skips_iff_no_hollow (Session.new {}) idle "main" conforms⟩

/-- A declaration of no names and a constant after it. The block joins the two, although the first
renders nothing. -/
theorem declaration_of_no_names_leaves_blank :
    let program : List Value := [noNames, .object [("node", .string "const"),
      ("type", .string "int"), ("value", .string "1")]]
    let r := (Session.new {}).runAll (.list program) "main"
    (∀ v ∈ program, Conforms flawless .item v) ∧ r.1.toOption = some "\n1" ∧
      r.2.tree.text 0 = "\n1" ∧ r.2.tree.joined 0 = ['1'] := by
  intro program r
  have checked : (program.all fun v => v.conforms flawless 2 .item) = true ∧
      r.1.toOption = some "\n1" ∧ r.2.tree.text 0 = "\n1" ∧ r.2.tree.joined 0 = ['1'] := by
    decide +kernel
  exact ⟨.forall_of_check checked.1, checked.2⟩

end Treewright
