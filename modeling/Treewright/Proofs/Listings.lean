import Treewright.Proofs.Preorder
import Treewright.Proofs.Schedules
set_option autoImplicit false

namespace Treewright

open Build

def Form.titled {ν : Type} : Form ν → Bool
  | .bare _ => false
  | .block title _ => title ≠ ""
  | _ => true

namespace Node

/-- The node at the end of a way. A way says at each step to which child it goes. -/
def follow? : Node → List Nat → Option Node
  | n, [] => some n
  | n, i :: way => n.edges[i]?.bind fun m => m.follow? way

/-- Whether the node at the end of a way is a last child. Of the first node `last` says so. -/
def lastAt : Node → Bool → List Nat → Bool
  | _, last, [] => last
  | n, _, i :: way => n.edges[i]?.any fun m => m.lastAt (i + 1 = n.edges.length) way

def labelAt (n : Node) (way : List Nat) : String := ((n.follow? way).map label).getD ""

/-- The ways to the node and to all that is below it, in preorder. -/
def ways (n : Node) : List (List Nat) :=
  [] :: n.edges.attach.zipIdx.flatMap fun m => m.1.1.ways.map (m.2 :: ·)
termination_by sizeOf n
decreasing_by exact sizeOf_lt_of_mem_edges m.1.2

theorem ways_eq (n : Node) :
    n.ways = [] :: n.edges.zipIdx.flatMap fun m => m.1.ways.map (m.2 :: ·) := by
  have children : n.edges.zipIdx = n.edges.attach.zipIdx.map (Prod.map Subtype.val id) := by
    rw [← List.zipIdx_map, List.attach_map_subtype_val]
  rw [ways, children, List.flatMap_map]
  rfl

theorem ways_ne_nil (n : Node) : n.ways ≠ [] := by
  rw [ways_eq]
  exact List.cons_ne_nil _ _

theorem mem_ways {n : Node} {way : List Nat} : way ∈ n.ways ↔ (n.follow? way).isSome = true := by
  induction n using edges_induction generalizing way with
  | step n ih =>
    rw [ways_eq]
    cases way with
    | nil => simp [follow?]
    | cons i way =>
      simp only [List.mem_cons, reduceCtorEq, List.mem_flatMap, List.mem_map, List.cons.injEq,
        false_or, follow?, List.mem_zipIdx_iff_getElem?]
      constructor
      · rintro ⟨⟨m, i⟩, hm, w, hw, rfl, rfl⟩
        simpa [hm] using (ih m (List.mem_of_getElem? hm)).mp hw
      · intro h
        cases hm : n.edges[i]? with
        | none => simp [hm] at h
        | some m =>
          rw [hm] at h
          exact ⟨(m, i), hm, way, (ih m (List.mem_of_getElem? hm)).mpr h, rfl, rfl⟩

/-- In preorder a node comes before what is below it, and all that is below a child before the next
child: the ways are in the order of a dictionary. -/
theorem pairwise_ways (n : Node) : n.ways.Pairwise (· < ·) := by
  induction n using edges_induction with
  | step n ih =>
    rw [ways_eq, List.pairwise_cons, List.pairwise_flatMap]
    refine ⟨?_, ?_, ?_⟩
    · intro way hw
      obtain ⟨m, -, hm⟩ := List.mem_flatMap.mp hw
      obtain ⟨w, -, rfl⟩ := List.mem_map.mp hm
      exact List.nil_lt_cons _ _
    · intro m hm
      have child := List.mem_of_getElem? (List.mem_zipIdx_iff_getElem?.mp hm)
      refine List.pairwise_map.mpr ((ih m.1 child).imp fun h => ?_)
      exact List.cons_lt_cons_iff.mpr (.inr ⟨rfl, h⟩)
    · have places : (n.edges.zipIdx.map Prod.snd).Pairwise (· < ·) := by
        rw [List.zipIdx_map_snd]
        exact List.pairwise_lt_range' 1
      refine (List.pairwise_map.mp places).imp fun h way hw way' hw' => ?_
      obtain ⟨w, -, rfl⟩ := List.mem_map.mp hw
      obtain ⟨w', -, rfl⟩ := List.mem_map.mp hw'
      exact List.cons_lt_cons_iff.mpr (.inl h)

theorem follow?_cons {n m : Node} {i : Nat} (h : n.edges[i]? = some m) (way : List Nat) :
    n.follow? (i :: way) = m.follow? way := by
  simp [follow?, h]

theorem map_follow?_ways (n : Node) : n.ways.map n.follow? = n.preorder.map some := by
  induction n using edges_induction with
  | step n ih =>
    rw [ways_eq, preorder_eq, List.map_cons, List.map_cons, List.map_flatMap, descendants,
      List.map_flatMap]
    refine congrArg (some n :: ·) ?_
    conv_rhs => rw [← List.zipIdx_map_fst 0 n.edges, List.flatMap_map]
    refine List.flatMap_congr fun m hm => ?_
    have child := List.mem_zipIdx_iff_getElem?.mp hm
    rw [← ih m.1 (List.mem_of_getElem? child), List.map_map]
    exact List.map_congr_left fun way _ => follow?_cons child way

/-- What stands on the line of a node after what is before the whole listing: a group for each node
on the way to it, its own corner and its label. -/
def branch (n : Node) (last : Bool) (way : List Nat) : String :=
  String.join ((List.range way.length).map fun i => Outline.margin (n.lastAt last (way.take i))) ++
    Outline.corner (n.lastAt last way) ++ n.labelAt way

/-- The line of the node at the end of a way. -/
def row (n : Node) (before : String) (last : Bool) (way : List Nat) : String :=
  before ++ n.branch last way

variable {n m : Node} {i : Nat}

theorem labelAt_cons (h : n.edges[i]? = some m) (way : List Nat) :
    n.labelAt (i :: way) = m.labelAt way := by
  rw [labelAt, follow?_cons h, labelAt]

theorem lastAt_cons (h : n.edges[i]? = some m) (last : Bool) (way : List Nat) :
    n.lastAt last (i :: way) = m.lastAt (i + 1 = n.edges.length) way := by
  simp [lastAt, h]

theorem branch_cons (h : n.edges[i]? = some m) (last : Bool) (way : List Nat) :
    n.branch last (i :: way) =
      Outline.margin last ++ m.branch (i + 1 = n.edges.length) way := by
  have groups : ((List.range way.length).map Nat.succ).map
        (fun j => Outline.margin (n.lastAt last ((i :: way).take j))) =
      (List.range way.length).map
        fun j => Outline.margin (m.lastAt (i + 1 = n.edges.length) (way.take j)) := by
    rw [List.map_map]
    exact List.map_congr_left fun j _ => by
      rw [Function.comp_apply, List.take_succ_cons, lastAt_cons h]
  rw [branch, List.length_cons, List.range_succ_eq_map, List.map_cons, String.join_cons, groups,
    lastAt_cons h, labelAt_cons h, branch, List.take_zero, lastAt, String.append_assoc,
    String.append_assoc, String.append_assoc]

theorem row_cons (h : n.edges[i]? = some m) (before : String) (last : Bool) (way : List Nat) :
    n.row before last (i :: way) =
      m.row (before ++ Outline.margin last) (i + 1 = n.edges.length) way := by
  rw [row, branch_cons h, row, String.append_assoc]

/-- The node has a line of its own, and its place decides whether it is shown as a last child. -/
structure Shown (n : Node) : Prop where
  titled : n.form.titled = true
  placed : n.mark.last = none

theorem Shown.label_ne (h : n.Shown) : n.label ≠ "" := by
  obtain ⟨titled, -⟩ := h
  obtain ⟨mark, form⟩ := n
  rw [ne_eq, ← String.toList_eq_nil_iff]
  cases form with
  | bare => cases titled
  | block title lines => simpa [label, Form.titled, Node.form] using titled
  | arguments items =>
    simp only [label, Node.form]
    split <;> simp
  | function returns name params body failed =>
    simp only [label, Node.form]
    split <;> simp
  | _ => simp [label, Node.form]

theorem outline_eq (n : Node) :
    n.outline = .mk n.label n.error n.mark.last (n.edges.map outline) := by
  have parts : n.outline = .mk n.outline.label n.outline.failed n.mark.last n.outline.children := by
    obtain ⟨mark, form⟩ := n
    cases form <;> rfl
  rw [parts, label_outline, failed_outline, children_outline]

def nextLines (before : String) (ns : List Node) : List Char :=
  if ns.isEmpty then [] else '\n' :: (Outline.listingAll before (ns.map outline)).toList

theorem nextLines_eq (before : String) (ns : List Node) (k : Nat) :
    nextLines before ns = (ns.zipIdx k).flatMap fun m =>
      '\n' :: (m.1.listing before (m.2 + 1 = k + ns.length)).toList := by
  induction ns generalizing k with
  | nil => rfl
  | cons n ns ih =>
    cases ns with
    | nil => simp [nextLines, Outline.listingAll, listing]
    | cons m ms =>
      have others := ih (k + 1)
      have same : k + 1 + (m :: ms).length = k + (n :: m :: ms).length := by
        simp only [List.length_cons]
        omega
      rw [same] at others
      rw [List.zipIdx_cons, List.flatMap_cons, ← others]
      simp [nextLines, Outline.listingAll, listing]

theorem listing_eq (h : n.Shown) (before : String) (last : Bool) :
    (n.listing before last).toList = (before ++ Outline.corner last ++ n.label).toList ++
      nextLines (before ++ Outline.margin last) n.edges := by
  rw [listing, outline_eq, Outline.listing, h.placed, nextLines]
  cases hn : n.edges with
  | nil => simp [h.label_ne, Outline.listingAll]
  | cons m ms => simp [h.label_ne]

theorem next_listing (h : n.Every Shown) (before : String) (last : Bool) :
    '\n' :: (n.listing before last).toList =
      n.ways.flatMap fun way => '\n' :: (n.row before last way).toList := by
  induction h generalizing before last with
  | @intro n here below ih =>
    have children : nextLines (before ++ Outline.margin last) n.edges =
        n.edges.zipIdx.flatMap fun m => (m.1.ways.map (m.2 :: ·)).flatMap fun way =>
          '\n' :: (n.row before last way).toList := by
      rw [nextLines_eq _ _ 0, Nat.zero_add]
      refine List.flatMap_congr fun m hm => ?_
      have child := List.mem_zipIdx_iff_getElem?.mp hm
      rw [ih m.1 (List.mem_of_getElem? child), List.flatMap_map]
      exact List.flatMap_congr fun way _ => by rw [row_cons child]
    rw [listing_eq here, children, ways_eq, List.flatMap_cons, List.flatMap_assoc]
    simp [row, branch, labelAt, follow?, lastAt]

theorem listing_eq_intercalate (h : n.Every Shown) (before : String) (last : Bool) :
    (n.listing before last).toList =
      ['\n'].intercalate (n.ways.map fun way => (n.row before last way).toList) := by
  have nonempty : (n.ways.map fun way => (n.row before last way).toList) ≠ [] := by
    simp [n.ways_ne_nil]
  have next := @append_intercalate _ ['\n'] _ nonempty
  rw [List.flatMap_map] at next
  exact (List.cons.inj ((next_listing h before last).trans next.symm)).2

theorem mem_preorder_of_follow? {way : List Nat} (h : n.follow? way = some m) : m ∈ n.preorder := by
  have found : some m ∈ n.ways.map n.follow? :=
    List.mem_map.mpr ⟨way, mem_ways.mpr (Option.isSome_of_eq_some h), h⟩
  simpa [map_follow?_ways] using found

theorem not_mem_labelAt {c : Char} (h : ∀ m ∈ n.preorder, c ∉ m.label.toList) (way : List Nat) :
    c ∉ (n.labelAt way).toList := by
  cases hm : n.follow? way with
  | none => simp [labelAt, hm]
  | some m => simpa [labelAt, hm] using h m (mem_preorder_of_follow? hm)

theorem newline_not_mem_branch (h : ∀ m ∈ n.preorder, '\n' ∉ m.label.toList) (last : Bool)
    (way : List Nat) : '\n' ∉ (n.branch last way).toList := by
  have corner (last : Bool) : '\n' ∉ (Outline.corner last).toList := by cases last <;> decide
  have margin (last : Bool) : '\n' ∉ (Outline.margin last).toList := by cases last <;> decide
  simp only [branch, String.toList_append, String.toList_join, List.mem_append, List.mem_flatMap,
    List.mem_map, not_or, not_exists, not_and]
  refine ⟨⟨?_, corner _⟩, not_mem_labelAt h way⟩
  rintro _ ⟨i, -, rfl⟩
  exact margin _

theorem splitOn_listing (h : n.Every Shown) (flat : ∀ m ∈ n.preorder, '\n' ∉ m.label.toList)
    {before : String} (hb : '\n' ∉ before.toList) (last : Bool) :
    (n.listing before last).toList.splitOn '\n' =
      n.ways.map fun way => (n.row before last way).toList := by
  rw [listing_eq_intercalate h]
  refine List.splitOn_intercalate '\n' ?_ (by simp [n.ways_ne_nil])
  simp only [List.mem_map, forall_exists_index, and_imp, forall_apply_eq_imp_iff₂, row,
    String.toList_append, List.mem_append, not_or]
  exact fun way _ => ⟨hb, newline_not_mem_branch flat last way⟩

end Node

/-- The labels of a tree, without what else its nodes hold. -/
inductive LabelTree where
  | mk (label : String) (children : List LabelTree)

def Node.labels (n : Node) : LabelTree := .mk n.label (n.edges.attach.map fun m => m.1.labels)
termination_by sizeOf n
decreasing_by exact sizeOf_lt_of_mem_edges m.2

theorem Node.labels_eq (n : Node) : n.labels = .mk n.label (n.edges.map labels) := by
  rw [labels]
  simp

namespace LabelTree

/-- Cuts a text into its lines and takes so many characters off each of them. What is taken off may
hold line ends itself. Each line is expected after a line end. -/
def cut (width : Nat) : List Char → List (List Char)
  | [] => []
  | _ :: cs =>
    (cs.drop width).takeWhile (· ≠ '\n') :: cut width ((cs.drop width).dropWhile (· ≠ '\n'))
termination_by cs => cs.length
decreasing_by
  have shorter := (List.dropWhile_suffix (l := cs.drop width) (· ≠ '\n')).length_le
  simp only [List.length_drop, List.length_cons] at shorter ⊢
  omega

/-- How deep a line is and which label it has. Groups of four characters come before the corner. -/
def readBranch : List Char → Option (Nat × String)
  | a :: b :: c :: d :: rest =>
    let group := String.ofList [a, b, c, d]
    if group = Outline.corner true ∨ group = Outline.corner false then some (0, String.ofList rest)
    else if group = Outline.margin true ∨ group = Outline.margin false then
      (readBranch rest).map fun (depth, label) => (depth + 1, label)
    else none
  | _ => none

/-- A label above trees that were grown before: those that are deeper become its children. -/
def place (line : Nat × String) (grown : List (Nat × LabelTree)) : List (Nat × LabelTree) :=
  (line.1, .mk line.2 ((grown.takeWhile (line.1 < ·.1)).map (·.2))) ::
    grown.dropWhile (line.1 < ·.1)

/-- The trees of some lines, from the last line to the first. -/
def grow (lines : List (Nat × String)) : List (Nat × LabelTree) := lines.foldr place []

/-- The tree that a listing shows, with so many characters before each line. -/
def read (width : Nat) (text : String) : Option LabelTree := do
  let lines ← (cut width ('\n' :: text.toList)).mapM readBranch
  match grow lines with
  | [(_, tree)] => some tree
  | _ => none

theorem cut_lines {before : List Char} {lines : List (List Char)}
    (h : ∀ line ∈ lines, '\n' ∉ line) :
    cut before.length (lines.flatMap fun line => '\n' :: (before ++ line)) = lines := by
  induction lines with
  | nil => rw [List.flatMap_nil, cut]
  | cons line lines ih =>
    obtain ⟨hline, hlines⟩ := List.forall_mem_cons.mp h
    have inside : ∀ c ∈ line, decide (c ≠ '\n') = true := by
      intro c hc
      simpa using fun he : c = '\n' => hline (he ▸ hc)
    have stop : (lines.flatMap fun line => '\n' :: (before ++ line)).takeWhile (· ≠ '\n') = [] ∧
        (lines.flatMap fun line => '\n' :: (before ++ line)).dropWhile (· ≠ '\n') =
          lines.flatMap fun line => '\n' :: (before ++ line) := by
      cases lines <;> simp
    rw [List.flatMap_cons, List.cons_append, cut, List.append_assoc, List.drop_left,
      List.takeWhile_append_of_pos inside, List.dropWhile_append_of_pos inside, stop.1, stop.2,
      ih hlines, List.append_nil]

theorem readBranch_corner (last : Bool) (label : String) :
    readBranch ((Outline.corner last).toList ++ label.toList) = some (0, label) := by
  cases last <;> simp [Outline.corner, readBranch]

theorem readBranch_margin (last : Bool) (cs : List Char) :
    readBranch ((Outline.margin last).toList ++ cs) =
      (readBranch cs).map fun (depth, label) => (depth + 1, label) := by
  cases last <;> simp [Outline.margin, Outline.corner, readBranch]

theorem readBranch_margins (lasts : List Bool) (cs : List Char) :
    readBranch ((String.join (lasts.map Outline.margin)).toList ++ cs) =
      (readBranch cs).map fun (depth, label) => (depth + lasts.length, label) := by
  induction lasts with
  | nil => simp
  | cons last lasts ih =>
    rw [List.map_cons, String.join_cons, String.toList_append, List.append_assoc,
      readBranch_margin, ih, Option.map_map]
    rfl

theorem readBranch_branch (n : Node) (last : Bool) (way : List Nat) :
    readBranch (n.branch last way).toList = some (way.length, n.labelAt way) := by
  have groups : (List.range way.length).map
        (fun i => Outline.margin (n.lastAt last (way.take i))) =
      ((List.range way.length).map fun i => n.lastAt last (way.take i)).map Outline.margin := by
    rw [List.map_map]
    rfl
  rw [Node.branch, groups, String.toList_append, String.toList_append, List.append_assoc,
    readBranch_margins, readBranch_corner, List.length_map, List.length_range]
  simp

theorem mapM_readBranch (n : Node) (last : Bool) (ways : List (List Nat)) :
    (ways.map fun way => (n.branch last way).toList).mapM readBranch =
      some (ways.map fun way => (way.length, n.labelAt way)) := by
  induction ways with
  | nil => rfl
  | cons way ways ih =>
    rw [List.map_cons, List.mapM_cons, readBranch_branch, ih]
    rfl

def linesOf (depth : Nat) (n : Node) : List (Nat × String) :=
  n.ways.map fun way => (depth + way.length, n.labelAt way)

theorem linesOf_eq (depth : Nat) (n : Node) :
    linesOf depth n = (depth, n.label) :: n.edges.flatMap (linesOf (depth + 1)) := by
  have children : n.edges.flatMap (linesOf (depth + 1)) = n.edges.zipIdx.flatMap fun m =>
      (m.1.ways.map (m.2 :: ·)).map fun way => (depth + way.length, n.labelAt way) := by
    conv_lhs => rw [← List.zipIdx_map_fst 0 n.edges, List.flatMap_map]
    refine List.flatMap_congr fun m hm => ?_
    have child := List.mem_zipIdx_iff_getElem?.mp hm
    rw [linesOf, List.map_map]
    refine List.map_congr_left fun way _ => ?_
    simp [Node.labelAt_cons child, Nat.add_assoc, Nat.add_comm 1]
  rw [children, linesOf, Node.ways_eq, List.map_cons, List.map_flatMap]
  rfl

def Above (depth : Nat) (grown : List (Nat × LabelTree)) : Prop := ∀ t ∈ grown.head?, t.1 ≤ depth

theorem Above.stops {depth : Nat} {grown : List (Nat × LabelTree)} (h : Above depth grown) :
    grown.takeWhile (depth < ·.1) = [] ∧ grown.dropWhile (depth < ·.1) = grown := by
  cases grown with
  | nil => exact ⟨rfl, rfl⟩
  | cons t grown =>
    have hd : ¬depth < t.1 := Nat.not_lt.mpr (h t rfl)
    simp [hd]

theorem place_above {depth : Nat} {grown : List (Nat × LabelTree)} (h : Above depth grown)
    (label : String) (children : List LabelTree) :
    place (depth, label) (children.map (depth + 1, ·) ++ grown) =
      (depth, .mk label children) :: grown := by
  have deeper : ∀ t ∈ children.map (fun t => (depth + 1, t)), decide (depth < t.1) = true := by
    simp
  rw [place, List.takeWhile_append_of_pos deeper, List.dropWhile_append_of_pos deeper, h.stops.1,
    h.stops.2]
  simp [Function.comp_def]

theorem grow_all {depth : Nat} {ns : List Node}
    (h : ∀ n ∈ ns, ∀ rest, Above depth (grow rest) →
      grow (linesOf depth n ++ rest) = (depth, n.labels) :: grow rest)
    {rest : List (Nat × String)} (above : Above depth (grow rest)) :
    grow (ns.flatMap (linesOf depth) ++ rest) =
      (ns.map Node.labels).map (depth, ·) ++ grow rest := by
  induction ns with
  | nil => rfl
  | cons n ns ih =>
    obtain ⟨hn, hns⟩ := List.forall_mem_cons.mp h
    have others := ih hns
    have next : Above depth (grow (ns.flatMap (linesOf depth) ++ rest)) := by
      rw [others]
      cases ns with
      | nil => exact above
      | cons m ms => simp [Above]
    rw [List.flatMap_cons, List.append_assoc, hn _ next, others]
    rfl

/-- From the lines of a node its tree is grown, whatever lines come after it on the same level or
above. -/
theorem grow_linesOf (n : Node) (depth : Nat) (rest : List (Nat × String))
    (above : Above depth (grow rest)) :
    grow (linesOf depth n ++ rest) = (depth, n.labels) :: grow rest := by
  induction n using Node.edges_induction generalizing depth rest with
  | step n ih =>
    have below : Above (depth + 1) (grow rest) := fun t ht => Nat.le_succ_of_le (above t ht)
    have children := grow_all (fun m hm => ih m hm (depth + 1)) below
    calc grow (linesOf depth n ++ rest)
        = place (depth, n.label) (grow (n.edges.flatMap (linesOf (depth + 1)) ++ rest)) := by
          rw [linesOf_eq]
          rfl
      _ = (depth, n.labels) :: grow rest := by
          rw [children, place_above above, n.labels_eq]

theorem read_listing {n : Node} (h : n.Every Node.Shown)
    (flat : ∀ m ∈ n.preorder, '\n' ∉ m.label.toList) (before : String) (last : Bool) :
    read before.length (n.listing before last) = some n.labels := by
  have lines : cut before.length ('\n' :: (n.listing before last).toList) =
      n.ways.map fun way => (n.branch last way).toList := by
    have unbroken : ∀ line ∈ n.ways.map fun way => (n.branch last way).toList, '\n' ∉ line := by
      simpa using fun way _ => Node.newline_not_mem_branch flat last way
    have rows := @cut_lines before.toList _ unbroken
    rw [List.flatMap_map, String.length_toList] at rows
    rw [Node.next_listing h, ← rows]
    simp only [Node.row, String.toList_append]
  have grown : grow (n.ways.map fun way => (way.length, n.labelAt way)) = [(0, n.labels)] := by
    have all := grow_linesOf n 0 [] (by simp [Above, grow])
    simpa [linesOf, grow] using all
  rw [read, lines, mapM_readBranch]
  simp [grown]

end LabelTree

def Task.Titled : Task → Prop
  | .blocks items => ∀ b ∈ items, b.1 ≠ ""
  | _ => True

theorem shown_made (action : Action) (ns : List Node) (c : Context) :
    (action.made ns c).1.Shown := by
  unfold Action.made
  split <;> exact ⟨rfl, rfl⟩

theorem Node.Every.block {title : String} (h : title ≠ "") {ns : List Node}
    (hn : ∀ n ∈ ns, n.Every Node.Shown) : (Build.block title ns).Every Node.Shown :=
  .intro ⟨decide_eq_true h, rfl⟩ hn

theorem Node.Every.head? {ns : List Node} (hn : ∀ n ∈ ns, n.Every Node.Shown) :
    ∀ n ∈ ns.head?, n.Every Node.Shown := fun n h => hn n (List.mem_of_head? h)

theorem Run.shown {task : Task} {c d : Context} {t : List Event} {ns : List Node}
    (h : Run task c t ns d) (titled : task.Titled) : ∀ n ∈ ns, n.Every Node.Shown := by
  induction h with
  | nil | noBlock | noBinding | noLine => simp
  | cons _ _ ih ih' | line _ _ _ ih ih' =>
    exact List.forall_mem_cons.mpr ⟨ih trivial _ (by simp), ih' trivial⟩
  | block _ _ _ ih ih' =>
    obtain ⟨here, others⟩ := List.forall_mem_cons.mp titled
    exact List.forall_mem_cons.mpr ⟨.block here (ih trivial), ih' others⟩
  | binding _ _ bound _ ih ih' =>
    obtain ⟨rfl, rfl⟩ := Prod.ext_iff.mp bound
    exact List.forall_mem_cons.mpr ⟨.bound ⟨rfl, rfl⟩ (.head? (ih trivial)), ih' trivial⟩
  | lined _ ih => exact ih trivial
  | scope _ ih => exact ih (by simp [Task.Titled])
  | check _ _ _ ih =>
    exact List.forall_mem_singleton.mpr (.made (shown_made _ _ _) ⟨rfl, rfl⟩ (ih trivial))
  | declaration _ _ ih => exact List.forall_mem_singleton.mpr (.intro ⟨rfl, rfl⟩ (ih trivial))
  | sizedArray _ _ _ made _ =>
    obtain ⟨rfl, rfl⟩ := Prod.ext_iff.mp made
    exact List.forall_mem_singleton.mpr (.intro ⟨rfl, rfl⟩ fun _ hm => by cases hm)
  | @conditional _ _ rejected _ _ _ _ _ _ _ _ _ _ _ _ made ih ih' =>
    obtain ⟨rfl, rfl⟩ := Prod.ext_iff.mp made
    have blocks := ih' (by cases rejected <;> simp [Task.Titled, branches])
    refine List.forall_mem_singleton.mpr ?_
    exact .conditional ⟨rfl, rfl⟩ (ih trivial _ (by simp)) (blocks _ (by simp))
      (.head? fun k hk => blocks k (by simp [hk]))
  | loop _ _ _ _ _ made ih₁ ih₂ ih₃ ih₄ =>
    obtain ⟨rfl, rfl⟩ := Prod.ext_iff.mp made
    refine List.forall_mem_singleton.mpr ?_
    exact .loop ⟨rfl, rfl⟩ (.head? (ih₁ trivial)) (ih₂ trivial _ (by simp)) (.head? (ih₃ trivial))
      (ih₄ (by simp [Task.Titled]) _ (by simp))
  | prototype =>
    exact List.forall_mem_singleton.mpr (.function ⟨rfl, rfl⟩ ⟨rfl, rfl⟩ (by simp))
  | emptyBody =>
    have nop : Node.Every Node.Shown (.mk {} .nop) := .intro ⟨rfl, rfl⟩ fun _ hm => by cases hm
    have body := @Node.Every.block "Body" (by decide) _ (List.forall_mem_singleton.mpr nop)
    exact List.forall_mem_singleton.mpr (.function ⟨rfl, rfl⟩ ⟨rfl, rfl⟩ (by simpa using body))
  | function _ _ _ _ ih =>
    have body := @Node.Every.block "Body" (by decide) _ (ih trivial)
    exact List.forall_mem_singleton.mpr (.function ⟨rfl, rfl⟩ ⟨rfl, rfl⟩ (by simpa using body))

theorem Action.WellFormed.shown {action : Action} (h : action.WellFormed) {c d : Context} {n : Node}
    (built : exec (build action) c = (.ok n, d)) : n.Every Node.Shown := by
  obtain ⟨t, run⟩ := h.runs c [n] d (exec_one_node.mpr built)
  exact run.shown trivial n (by simp)

namespace Session

def Shown (s : Session) : Prop := ∀ n ∈ s.lines, n.Every Node.Shown

theorem Shown.move {s : Session} (h : s.Shown) (ready : s.Ready) (m : Move) :
    (s.move m).2.Shown := by
  cases m with
  | tick =>
    obtain ⟨-, ticked⟩ | ⟨-, ticked⟩ | ⟨action, rest, node, d, hb, built, ticked⟩ |
      ⟨_, _, _, _, -, -, ticked⟩ := s.tick_cases <;> rw [move_tick ticked]
    · exact h
    · exact h
    · have line := (ready _ hb action (by simp)).shown built
      exact List.forall_mem_append.mpr ⟨h, List.forall_mem_singleton.mpr line⟩
    · exact h
  | finish => exact fun n hn => h n (s.finish_keeps.2.1 ▸ hn)
  | beginCode => exact h
  | tickCode => exact fun n hn => h n (s.tickCode_keeps.2.1 ▸ hn)

theorem Shown.after {s : Session} (h : s.Shown) (ready : s.Ready) (moves : List Move) :
    (s.after moves).Shown := by
  induction moves generalizing s with
  | nil => exact h
  | cons m moves ih => exact ih (h.move ready m) (ready.move m)

end Session

/-- A node that a document was built into, the program of a session at any time, or a node below
one of these. -/
inductive Node.Built : Node → Prop where
  | document {v : Value} {c d : Context} {n : Node}
      (h : exec (build (.ofValue v)) c = (.ok n, d)) : Built n
  | program {s₀ s : Session} {program : Value} {name : String}
      (begun : s₀.begin program name = (.ok (), s)) (moves : List Session.Move) :
      Built (s.after moves).tree
  | child {n m : Node} (h : Built n) (edge : m ∈ n.edges) : Built m

theorem Node.Built.shown {n : Node} (h : n.Built) : n.Every Node.Shown := by
  induction h with
  | @document v c d n h => exact (Action.wellFormed_ofValue v).shown h
  | @program s₀ s program name begun moves =>
    obtain ⟨actions, read, rfl⟩ := Session.begin_ok begun
    rw [Session.tree, Session.root_after]
    refine .block (by decide) (Session.Shown.after ?_ ?_ moves)
    · exact fun n hn => by cases hn
    · intro rest hr
      obtain rfl := Option.some.inj hr
      exact Action.wellFormed_sequence read
  | child _ edge ih =>
    cases ih with
    | intro _ below => exact below _ edge

/-- Take a node that was built, or the program itself, with no label that breaks over lines. Its
listing has one line for each way down from the node, in preorder, and nothing else: a node on the
way stands for a group of blanks when it is a last child and for a bar when it is not; then come the
corner that tells whether the node itself is a last child, and its label. From the listing the tree
of labels can be read back. -/
theorem listing_faithful {n : Node} (built : n.Built)
    (flat : ∀ m ∈ n.preorder, '\n' ∉ m.label.toList) (before : String) (last : Bool) :
    n.ways.Pairwise (· < ·) ∧ (∀ way, way ∈ n.ways ↔ (n.follow? way).isSome = true) ∧
      n.ways.map n.follow? = n.preorder.map some ∧
      n.listing before last = "\n".intercalate (n.ways.map (n.row before last)) ∧
      ('\n' ∉ before.toList → (n.listing before last).toList.splitOn '\n' =
        n.ways.map fun way => (n.row before last way).toList) ∧
      LabelTree.read before.length (n.listing before last) = some n.labels := by
  have shown := built.shown
  refine ⟨n.pairwise_ways, fun way => Node.mem_ways, n.map_follow?_ways, ?_, ?_, ?_⟩
  · refine String.toList_injective ?_
    rw [Node.listing_eq_intercalate shown, String.toList_intercalate, List.map_map]
    rfl
  · exact fun hb => Node.splitOn_listing shown flat hb last
  · exact LabelTree.read_listing shown flat before last

def oneWay : Value :=
  let yes :=
    Value.object [("node", .string "const"), ("type", .string "bool"), ("value", .string "true")]
  .list [.object [("node", .string "if"), ("condition", yes), ("then", .list []),
      ("else", .list [yes])], .object [("node", .string "return"), ("operand", yes)]]

theorem listing_faithful_oneWay :
    let n := (((Session.new {}).begin oneWay "main").2.after [.tick, .tick]).tree
    n.Built ∧ (∀ m ∈ n.preorder, '\n' ∉ m.label.toList) ∧
      n.listing "> " true = "> └── Program\n>     ├── If Statement\n" ++
        ">     │   ├── LITERAL : true : bool\n>     │   ├── Then Branch\n" ++
        ">     │   └── Else Branch\n>     │       └── LITERAL : true : bool\n" ++
        ">     └── Return Statement\n>         └── LITERAL : true : bool" ∧
      LabelTree.read 2 (n.listing "> " true) = some n.labels := by
  intro n
  have begun : (Session.new {}).begin oneWay "main" =
      (.ok (), ((Session.new {}).begin oneWay "main").2) := rfl
  have built : n.Built := .program begun [.tick, .tick]
  have outlines : ∀ o ∈ n.outline.preorder, '\n' ∉ o.label.toList := by decide +kernel
  have flat : ∀ m ∈ n.preorder, '\n' ∉ m.label.toList := by
    intro m hm
    rw [← m.label_outline]
    exact outlines _ (n.preorder_outline ▸ List.mem_map_of_mem hm)
  exact ⟨built, flat, by decide +kernel, (listing_faithful built flat "> " true).2.2.2.2.2⟩

end Treewright
