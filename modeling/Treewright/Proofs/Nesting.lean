import Mathlib.Data.List.Basic
import Treewright.Proofs.Texts
import Treewright.Text.Blank
set_option autoImplicit false

/-!
Texts with brackets, and texts laid out in lines. `Rows` follows lines from one level of braces to
another: at each level the lines are indented alike, braces stand at line ends only, and everything
else is of one fabric. If that closes on its line what it opens, texts of such lines are well nested
and indented by their nesting.
-/

namespace Treewright

def closing? : Char → Option Char
  | '(' => some ')'
  | '[' => some ']'
  | '\x7b' => some '\x7d'
  | _ => none

def isBracket (c : Char) : Bool := ['(', ')', '[', ']', '\x7b', '\x7d'].contains c

def isPlain (c : Char) : Bool := c ≠ '\n' && !isBracket c

/-- The brackets still to be closed after a character, the innermost first. One that closes another
bracket than the innermost is refused. -/
def readBracket (awaited : List Char) (c : Char) : Option (List Char) :=
  match closing? c with
  | some close => some (close :: awaited)
  | none =>
    if isBracket c then if awaited.head? = some c then some awaited.tail else none
    else some awaited

def nest : List Char → List Char → Option (List Char)
  | awaited, [] => some awaited
  | awaited, c :: cs => (readBracket awaited c).bind (nest · cs)

/-- Every bracket is closed, by its own kind and the innermost first. -/
def WellNested (s : List Char) : Prop := nest [] s = some []

instance (s : List Char) : Decidable (WellNested s) :=
  inferInstanceAs (Decidable (nest [] s = some []))

theorem nest_append (awaited s t : List Char) :
    nest awaited (s ++ t) = (nest awaited s).bind (nest · t) := by
  induction s generalizing awaited with
  | nil => rfl
  | cons c s ih =>
    rw [List.cons_append, nest, nest]
    cases readBracket awaited c with
    | none => rfl
    | some left => exact ih left

theorem closing?_of_not_bracket {c : Char} (h : isBracket c = false) : closing? c = none := by
  unfold closing?
  split
  · cases h
  · cases h
  · cases h
  · rfl

theorem not_bracket_of_isPlain {c : Char} (h : isPlain c = true) : isBracket c = false := by
  simp only [isPlain, Bool.and_eq_true, Bool.not_eq_true'] at h
  exact h.2

theorem nest_plain {s : List Char} (h : ∀ c ∈ s, isBracket c = false) (awaited : List Char) :
    nest awaited s = some awaited := by
  induction s with
  | nil => rfl
  | cons c s ih =>
    obtain ⟨hc, hs⟩ := List.forall_mem_cons.mp h
    have kept : readBracket awaited c = some awaited := by
      simp [readBracket, closing?_of_not_bracket hc, hc]
    rw [nest, kept]
    exact ih hs

structure Inline (s : List Char) : Prop where
  unbroken : '\n' ∉ s
  unbraced : '\x7b' ∉ s ∧ '\x7d' ∉ s
  nested : ∀ awaited, nest awaited s = some awaited

namespace Inline

variable {s t : List Char}

theorem of_plain (h : s.all isPlain = true) : Inline s := by
  have plain : ∀ c ∈ s, isPlain c = true := List.all_eq_true.mp h
  exact
    { unbroken := fun hc => absurd (plain _ hc) (by decide)
      unbraced := ⟨fun hc => absurd (plain _ hc) (by decide),
        fun hc => absurd (plain _ hc) (by decide)⟩
      nested := nest_plain fun c hc => not_bracket_of_isPlain (plain c hc) }

theorem append (hs : Inline s) (ht : Inline t) : Inline (s ++ t) where
  unbroken := by simp [hs.unbroken, ht.unbroken]
  unbraced := by simp [hs.unbraced, ht.unbraced]
  nested awaited := by
    rw [nest_append, hs.nested]
    exact ht.nested awaited

theorem parens (h : Inline s) : Inline ('(' :: (s ++ [')'])) where
  unbroken := by simp [h.unbroken]
  unbraced := by simp [h.unbraced]
  nested awaited := by
    change nest (')' :: awaited) (s ++ [')']) = _
    rw [nest_append, h.nested]
    rfl

theorem square (h : Inline s) : Inline ('[' :: (s ++ [']'])) where
  unbroken := by simp [h.unbroken]
  unbraced := by simp [h.unbraced]
  nested awaited := by
    change nest (']' :: awaited) (s ++ [']']) = _
    rw [nest_append, h.nested]
    rfl

theorem of_append_left (h : Inline (t ++ s)) (ht : ∀ c ∈ t, isBracket c = false) : Inline s where
  unbroken hc := h.unbroken (List.mem_append_right _ hc)
  unbraced := ⟨fun hc => h.unbraced.1 (List.mem_append_right _ hc),
    fun hc => h.unbraced.2 (List.mem_append_right _ hc)⟩
  nested awaited := by
    have whole := h.nested awaited
    rwa [nest_append, nest_plain ht] at whole

theorem of_append_right (h : Inline (s ++ t)) (ht : ∀ c ∈ t, isBracket c = false) : Inline s where
  unbroken hc := h.unbroken (List.mem_append_left _ hc)
  unbraced := ⟨fun hc => h.unbraced.1 (List.mem_append_left _ hc),
    fun hc => h.unbraced.2 (List.mem_append_left _ hc)⟩
  nested awaited := by
    have whole := h.nested awaited
    rw [nest_append] at whole
    cases first : nest awaited s with
    | none =>
      rw [first] at whole
      cases whole
    | some left =>
      rw [first] at whole
      exact (nest_plain ht left).symm.trans whole

end Inline

structure Row (s : List Char) : Prop extends Inline s where
  begins : ∃ c cs, s = c :: cs ∧ c ≠ ' '

theorem Row.append {s t : List Char} (h : Row s) (ht : Inline t) : Row (s ++ t) := by
  obtain ⟨c, cs, rfl, hc⟩ := h.begins
  exact ⟨h.toInline.append ht, c, cs ++ t, rfl, hc⟩

def isLetter (c : Char) : Bool := isPlain c && c ≠ ';'

theorem isPlain_of_isLetter {s : List Char} (h : s.all isLetter = true) : s.all isPlain = true := by
  refine List.all_eq_true.mpr fun c hc => ?_
  have letter := List.all_eq_true.mp h c hc
  rw [isLetter, Bool.and_eq_true] at letter
  exact letter.1

/-- What lines are made of: the texts that may stand within a line, and those that may begin one.
They are closed under all that is done to put an expression or a header together. -/
structure Fabric where
  Within : List Char → Prop
  Begins : List Char → Prop
  within {s : List Char} : Begins s → Within s
  letters {s : List Char} : s.all isLetter = true → Within s
  word {c : Char} {s : List Char} : c ≠ ' ' → (c :: s).all isLetter = true → Begins (c :: s)
  append {s t : List Char} : Within s → Within t → Within (s ++ t)
  extend {s t : List Char} : Begins s → Within t → Begins (s ++ t)
  parens {s : List Char} : Within s → Begins ('(' :: (s ++ [')']))
  square {s : List Char} : Within s → Within ('[' :: (s ++ [']']))
  cutFront {s t : List Char} : Within (s ++ t) → s.all isPlain = true → Within t
  cutEnd {s t : List Char} : Within (s ++ t) → t.all isPlain = true → Within s

namespace Fabric

def nesting : Fabric where
  Within := Inline
  Begins := Row
  within h := h.toInline
  letters h := .of_plain (isPlain_of_isLetter h)
  word hc h := ⟨.of_plain (isPlain_of_isLetter h), _, _, rfl, hc⟩
  append := Inline.append
  extend := Row.append
  parens h := ⟨h.parens, _, _, rfl, by decide⟩
  square := Inline.square
  cutFront h ht := h.of_append_left fun c hc => not_bracket_of_isPlain (List.all_eq_true.mp ht c hc)
  cutEnd h ht := h.of_append_right fun c hc => not_bracket_of_isPlain (List.all_eq_true.mp ht c hc)

variable (F : Fabric)

theorem nil : F.Within [] := F.letters rfl

theorem intercalate {between : List Char} {parts : List (List Char)} (hb : F.Within between)
    (h : ∀ part ∈ parts, F.Within part) : F.Within (between.intercalate parts) := by
  induction parts with
  | nil => exact F.nil
  | cons part parts ih =>
    obtain ⟨hp, hps⟩ := List.forall_mem_cons.mp h
    cases parts with
    | nil =>
      rw [List.intercalate_singleton]
      exact hp
    | cons next parts =>
      rw [List.intercalate_cons_cons]
      exact F.append (F.append hp hb) (ih hps)

theorem markIf (coerced : Bool) : F.Within (markIf coerced) := by
  cases coerced with
  | false => exact F.nil
  | true =>
    have float : F.Within "float".toList := F.letters rfl
    exact F.append (F.square float) (F.letters rfl)

theorem markParts {parts : List (List Char)} (h : ∀ part ∈ parts, F.Within part)
    (coerced : Nat → Bool) (i : Nat) : ∀ part ∈ markParts coerced i parts, F.Within part := by
  induction parts generalizing i with
  | nil => simp [Treewright.markParts]
  | cons part parts ih =>
    obtain ⟨hp, hps⟩ := List.forall_mem_cons.mp h
    rw [Treewright.markParts, List.forall_mem_cons]
    exact ⟨F.append (F.markIf _) hp, ih hps (i + 1)⟩

theorem dropSemicolons {s : String} (h : F.Within s.toList) :
    F.Within (dropSemicolons s).toList := by
  have split : s.toList = (Treewright.dropSemicolons s).toList ++
      (s.toList.reverse.takeWhile (· = ';')).reverse := by
    have parts := List.takeWhile_append_dropWhile (p := (· = ';')) (l := s.toList.reverse)
    have back := congrArg List.reverse parts
    rw [List.reverse_append, List.reverse_reverse] at back
    rw [Treewright.dropSemicolons, String.toList_ofList]
    exact back.symm
  rw [split] at h
  refine F.cutEnd h (List.all_eq_true.mpr fun c hc => ?_)
  have semicolon := List.mem_takeWhile_imp (List.mem_reverse.mp hc)
  rw [of_decide_eq_true semicolon]
  rfl

theorem dropFront {front s : String} (h : F.Within s.toList)
    (hf : front.toList.all isPlain = true) : F.Within (dropFront front s).toList := by
  unfold Treewright.dropFront
  split
  · next begins =>
    obtain ⟨rest, split⟩ := List.isPrefixOf_iff_prefix.mp begins
    rw [← split] at h
    rw [String.toList_ofList, ← split, ← String.length_toList, List.drop_left]
    exact F.cutFront h hf
  · exact h

end Fabric

def openBraces (s : List Char) : Int := s.count '\x7b' - s.count '\x7d'

/-- Each line that is not empty begins with four blanks for each level of its depth: the depth at
the start and one for each brace that is open before the line, less one where the line begins by
closing a brace. -/
def Indented (depth : Int) (lines : List (List Char)) : Prop :=
  ∀ before line after, lines = before ++ line :: after → line ≠ [] →
    (line.takeWhile (· = ' ')).length = (4 * (depth + openBraces before.flatten -
      if (line.dropWhile (· = ' ')).head? = some '\x7d' then 1 else 0)).toNat

inductive Line where
  | blank
  | row (level : Nat) (text : List Char)

namespace Line

def shown (depth : Int) : Line → List Char
  | .blank => []
  | .row level text => (indentation (depth + level)).toList ++ text

def deeper : Line → Line
  | .blank => .blank
  | .row level text => .row (level + 1) text

theorem shown_deeper (depth : Int) (line : Line) :
    line.deeper.shown depth = line.shown (depth + 1) := by
  cases line with
  | blank => rfl
  | row level text =>
    have same : depth + (level + 1 : Nat) = depth + 1 + level := by omega
    rw [deeper, shown, shown, same]

end Line

inductive Rows (F : Fabric) : Nat → List Line → Nat → Prop where
  | nil (level : Nat) : Rows F level [] level
  | blank {level last : Nat} {rows : List Line} (h : Rows F level rows last) :
      Rows F level (.blank :: rows) last
  | flat {level last : Nat} {rows : List Line} {s : List Char} (row : F.Begins s)
      (h : Rows F level rows last) : Rows F level (.row level s :: rows) last
  | opens {level last : Nat} {rows : List Line} {s : List Char} (row : F.Begins s)
      (h : Rows F (level + 1) rows last) :
      Rows F level (.row level (s ++ [' ', '\x7b']) :: rows) last
  | turns {level last : Nat} {rows : List Line} (h : Rows F (level + 1) rows last) :
      Rows F (level + 1) (.row level "\x7d else \x7b".toList :: rows) last
  | closes {level last : Nat} {rows : List Line} (h : Rows F level rows last) :
      Rows F (level + 1) (.row level ['\x7d'] :: rows) last

theorem toList_indentation (depth : Int) :
    (indentation depth).toList = List.replicate (4 * depth.toNat) ' ' := by
  rw [indentation, String.toList_ofList]

theorem nest_indentation (awaited s : List Char) (depth : Int) :
    nest awaited ((indentation depth).toList ++ s) = nest awaited s := by
  rw [nest_append, nest_plain]
  · rfl
  · intro c hc
    rw [toList_indentation] at hc
    rw [List.eq_of_mem_replicate hc]
    rfl

theorem openBraces_append (s t : List Char) :
    openBraces (s ++ t) = openBraces s + openBraces t := by
  simp only [openBraces, List.count_append]
  omega

theorem Inline.openBraces {s : List Char} (h : Inline s) : openBraces s = 0 := by
  rw [Treewright.openBraces, List.count_eq_zero.mpr h.unbraced.1,
    List.count_eq_zero.mpr h.unbraced.2]
  rfl

theorem openBraces_indentation (depth : Int) : openBraces (indentation depth).toList = 0 := by
  refine (Inline.of_plain (List.all_eq_true.mpr fun c hc => ?_)).openBraces
  rw [toList_indentation] at hc
  rw [List.eq_of_mem_replicate hc]
  rfl

namespace Rows

variable {F : Fabric} {level last : Nat} {rows : List Line}

theorem append {mid : Nat} {more : List Line} (h : Rows F level rows mid)
    (h' : Rows F mid more last) : Rows F level (rows ++ more) last := by
  induction h with
  | nil => exact h'
  | blank _ ih => exact .blank (ih h')
  | flat row _ ih => exact .flat row (ih h')
  | opens row _ ih => exact .opens row (ih h')
  | turns _ ih => exact .turns (ih h')
  | closes _ ih => exact .closes (ih h')

theorem deeper (h : Rows F level rows last) :
    Rows F (level + 1) (rows.map Line.deeper) (last + 1) := by
  induction h with
  | nil => exact .nil _
  | blank _ ih => exact .blank ih
  | flat row _ ih => exact .flat row ih
  | opens row _ ih => exact .opens row ih
  | turns _ ih => exact .turns ih
  | closes _ ih => exact .closes ih

theorem unbroken (inside : ∀ s, F.Within s → '\n' ∉ s) (h : Rows F level rows last)
    (depth : Int) : ∀ row ∈ rows.map (Line.shown depth), '\n' ∉ row := by
  have blanks (e : Int) : '\n' ∉ (indentation e).toList := by
    rw [toList_indentation]
    exact fun hc => absurd (List.eq_of_mem_replicate hc) (by decide)
  induction h with
  | nil => simp
  | blank _ ih => exact List.forall_mem_cons.mpr ⟨by simp [Line.shown], ih⟩
  | flat row _ ih | opens row _ ih =>
    exact List.forall_mem_cons.mpr ⟨by simp [Line.shown, blanks, inside _ (F.within row)], ih⟩
  | turns _ ih | closes _ ih =>
    exact List.forall_mem_cons.mpr ⟨by simp [Line.shown, blanks], ih⟩

theorem nest_flatten (h : Rows .nesting level rows last) (depth : Int) :
    nest (.replicate level '\x7d') (rows.map (Line.shown depth)).flatten =
      some (.replicate last '\x7d') := by
  induction h with
  | nil => rfl
  | blank _ ih => exact ih
  | flat row _ ih =>
    rw [List.map_cons, List.flatten_cons, nest_append, Line.shown, nest_indentation, row.nested]
    exact ih
  | opens row _ ih =>
    rw [List.map_cons, List.flatten_cons, nest_append, Line.shown, nest_indentation, nest_append,
      row.nested]
    exact ih
  | turns _ ih =>
    rw [List.map_cons, List.flatten_cons, nest_append, Line.shown, nest_indentation]
    exact ih
  | closes _ ih =>
    rw [List.map_cons, List.flatten_cons, nest_append, Line.shown, nest_indentation]
    exact ih

end Rows

theorem split_indentation {c : Char} (hc : c ≠ ' ') (e : Int) (cs : List Char) :
    (((indentation e).toList ++ c :: cs).takeWhile (· = ' ')).length = 4 * e.toNat ∧
      ((indentation e).toList ++ c :: cs).dropWhile (· = ' ') = c :: cs := by
  rw [toList_indentation]
  have blanks : ∀ b ∈ List.replicate (4 * e.toNat) ' ', decide (b = ' ') = true := by
    intro b hb
    rw [List.eq_of_mem_replicate hb]
    rfl
  rw [List.takeWhile_append_of_pos blanks, List.dropWhile_append_of_pos blanks]
  simp [hc]

theorem Indented.blank {depth : Int} {lines : List (List Char)} (h : Indented depth lines) :
    Indented depth ([] :: lines) := by
  intro before line after split hne
  cases before with
  | nil =>
    cases split
    contradiction
  | cons first before =>
    obtain ⟨rfl, rfl⟩ := List.cons.inj split
    exact h before line after rfl hne

theorem Indented.cons {depth next e : Int} {c : Char} {cs : List Char} {lines : List (List Char)}
    (hc : c ≠ ' ') (own : e = depth - if c = '\x7d' then 1 else 0)
    (braces : openBraces (c :: cs) = next - depth) (h : Indented next lines) :
    Indented depth (((indentation e).toList ++ c :: cs) :: lines) := by
  intro before line after split hne
  cases before with
  | nil =>
    obtain ⟨rfl, rfl⟩ := List.cons.inj split
    obtain ⟨taken, dropped⟩ := split_indentation hc e cs
    have none_open : openBraces [] = 0 := rfl
    rw [taken, dropped, List.flatten_nil, none_open, own]
    simp only [List.head?_cons, Option.some.injEq]
    split <;> omega
  | cons first before =>
    obtain ⟨rfl, rfl⟩ := List.cons.inj split
    rw [h before line after rfl hne, List.flatten_cons, openBraces_append, openBraces_append,
      openBraces_indentation, braces]
    congr 2
    omega

theorem Rows.indented {level last : Nat} {rows : List Line} (h : Rows .nesting level rows last)
    (depth : Int) : Indented (depth + level) (rows.map (Line.shown depth)) := by
  induction h with
  | nil =>
    intro before line after split
    simp at split
  | blank _ ih => exact ih.blank
  | flat row _ ih =>
    obtain ⟨c, cs, rfl, hc⟩ := row.begins
    have unclosed : c ≠ '\x7d' := fun h => row.unbraced.2 (by simp [h])
    exact .cons hc (by simp [unclosed]) (by rw [row.openBraces]; omega) ih
  | opens row _ ih =>
    obtain ⟨c, cs, rfl, hc⟩ := row.begins
    have unclosed : c ≠ '\x7d' := fun h => row.unbraced.2 (by simp [h])
    refine .cons hc (by simp [unclosed]) ?_ ih
    have brace : openBraces [' ', '\x7b'] = 1 := by decide
    change openBraces ((c :: cs) ++ [' ', '\x7b']) = _
    rw [openBraces_append, row.openBraces, brace]
    omega
  | turns _ ih =>
    have line : "\x7d else \x7b".toList = '\x7d' :: " else \x7b".toList := by decide
    have braces : openBraces ('\x7d' :: " else \x7b".toList) = 0 := by decide
    rw [line]
    exact .cons (by decide) (by rw [if_pos rfl]; omega) (by rw [braces]; omega) ih
  | closes _ ih =>
    have brace : openBraces ['\x7d'] = -1 := by decide
    exact .cons (by decide) (by rw [if_pos rfl]; omega) (by rw [brace]; omega) ih

theorem nest_intercalate {between : List Char} (h : ∀ c ∈ between, isBracket c = false)
    (awaited : List Char) (rows : List (List Char)) :
    nest awaited (between.intercalate rows) = nest awaited rows.flatten := by
  induction rows generalizing awaited with
  | nil => rfl
  | cons row rows ih =>
    cases rows with
    | nil => simp
    | cons next rows =>
      rw [List.intercalate_cons_cons, List.flatten_cons, nest_append, nest_append, nest_append]
      cases nest awaited row with
      | none => rfl
      | some left =>
        rw [Option.bind_some, Option.bind_some, nest_plain h, Option.bind_some]
        exact ih left

theorem Rows.wellNested {rows : List Line} (h : Rows .nesting 0 rows 0) (hne : rows ≠ [])
    {depth : Int} {text : List Char}
    (htext : text = ['\n'].intercalate (rows.map (Line.shown depth))) :
    WellNested text ∧ Indented depth (text.splitOn '\n') := by
  have lines : text.splitOn '\n' = rows.map (Line.shown depth) := by
    rw [htext]
    exact List.splitOn_intercalate '\n' (h.unbroken (fun _ => Inline.unbroken) depth)
      (by simpa using hne)
  have nested : nest [] text = some [] := by
    rw [htext, nest_intercalate (List.forall_mem_singleton.mpr rfl)]
    exact h.nest_flatten depth
  have indented : Indented depth (rows.map (Line.shown depth)) := by simpa using h.indented depth
  exact ⟨nested, by rw [lines]; exact indented⟩

end Treewright
