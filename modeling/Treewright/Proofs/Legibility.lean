import Mathlib.Data.List.Forall2
import Mathlib.Data.List.TakeWhile
import Treewright.Proofs.Divergence
set_option autoImplicit false

namespace Treewright

/-- Letters, digits, underscores and dots. What is not ASCII may be a letter. -/
def isWordChar (c : Char) : Bool := c.isAlphanum || c = '_' || c = '.' || 127 < c.toNat

def isToken (s : String) : Bool := s ≠ "" && s.toList.all isWordChar

theorem token_cons {s : String} (h : isToken s = true) :
    ∃ c cs, s.toList = c :: cs ∧ ∀ x ∈ c :: cs, isWordChar x = true := by
  simp only [isToken, Bool.and_eq_true, decide_eq_true_eq, List.all_eq_true] at h
  cases chars : s.toList with
  | nil => exact absurd (String.toList_eq_nil_iff.mp chars) h.1
  | cons c cs => exact ⟨c, cs, rfl, chars ▸ h.2⟩

def Stops (s : List Char) : Prop := ∀ c ∈ s.head?, c ∈ [' ', ',', ')', ']']

theorem Stops.nil : Stops [] := by simp [Stops]

theorem Stops.cons {c : Char} (h : c ∈ [' ', ',', ')', ']']) (s : List Char) : Stops (c :: s) := by
  rintro _ ⟨⟩
  exact h

theorem Stops.not_word {s : List Char} (h : Stops s) : ∀ c ∈ s.head?, isWordChar c = false := by
  intro c hc
  have stop := h c hc
  simp only [List.mem_cons, List.not_mem_nil, or_false] at stop
  rcases stop with rfl | rfl | rfl | rfl <;> rfl

theorem not_word_cons {c : Char} (h : isWordChar c = false) (s : List Char) :
    ∀ x ∈ (c :: s).head?, isWordChar x = false := by
  rintro _ ⟨⟩
  exact h

theorem append_inj_of_class {p : Char → Bool} {u v s t : List Char} (hu : ∀ c ∈ u, p c = true)
    (hv : ∀ c ∈ v, p c = true) (hs : ∀ c ∈ s.head?, p c = false)
    (ht : ∀ c ∈ t.head?, p c = false) (h : u ++ s = v ++ t) : u = v ∧ s = t := by
  have read {w z : List Char} (hw : ∀ c ∈ w, p c = true) (hz : ∀ c ∈ z.head?, p c = false) :
      (w ++ z).takeWhile p = w := by
    rw [List.takeWhile_append_of_pos hw]
    cases z with
    | nil => simp
    | cons c z => simp [hz c rfl]
  have same : u = v := by rw [← read hu hs, h, read hv ht]
  subst same
  exact ⟨rfl, List.append_cancel_left h⟩

theorem token_append_inj {name name' : String} (h : isToken name = true)
    (h' : isToken name' = true) {s t : List Char} (hs : ∀ c ∈ s.head?, isWordChar c = false)
    (ht : ∀ c ∈ t.head?, isWordChar c = false) (same : name.toList ++ s = name'.toList ++ t) :
    name = name' ∧ s = t := by
  obtain ⟨c, cs, chars, hw⟩ := token_cons h
  obtain ⟨c', cs', chars', hw'⟩ := token_cons h'
  obtain ⟨names, rest⟩ := append_inj_of_class (chars ▸ hw) (chars' ▸ hw') hs ht same
  exact ⟨String.toList_inj.mp names, rest⟩

def Begins (s : List Char) : Prop :=
  ∃ c t, s = c :: t ∧ (isWordChar c || ['(', '&', '*'].contains c) = true

/-- What may stand right before the first operand of an operation: nothing, the sign of a single
operand, or the type of a cast or a widening. -/
def leads : List (List Char) :=
  ["", "-", "!", "[int] ", "[float] ", "[bool] ", "[void] "].map String.toList

def leadOf : List Char → List Char
  | '-' :: _ => ['-']
  | '!' :: _ => ['!']
  | '[' :: s => '[' :: (s.takeWhile (· ≠ ' ') ++ [' '])
  | _ => []

theorem leadOf_append {lead s : List Char} (hl : lead ∈ leads) (hs : Begins s) :
    leadOf (lead ++ s) = lead := by
  obtain ⟨c, t, rfl, hc⟩ := hs
  simp only [leads, List.map_cons, List.map_nil, List.mem_cons, List.not_mem_nil, or_false] at hl
  rcases hl with rfl | rfl | rfl | rfl | rfl | rfl | rfl
  · change leadOf (c :: t) = []
    unfold leadOf
    split
    case h_4 => rfl
    all_goals
      rename_i heq
      cases heq
      exact absurd hc (by decide)
  all_goals simp [leadOf]

theorem lead_inj {lead lead' s t : List Char} (hl : lead ∈ leads) (hl' : lead' ∈ leads)
    (hs : Begins s) (ht : Begins t) (h : lead ++ s = lead' ++ t) : lead = lead' ∧ s = t := by
  have same : lead = lead' := by rw [← leadOf_append hl hs, h, leadOf_append hl' ht]
  subst same
  exact ⟨rfl, List.append_cancel_left h⟩

theorem markIf_mem_leads (b : Bool) : markIf b ∈ leads := by cases b <;> decide

theorem markIf_inj {b b' : Bool} (h : markIf b = markIf b') : b = b' := by
  cases b <;> cases b' <;> revert h <;> decide

theorem Ty.eq_of_spelling {t t' : Ty} (h : t.isWritten = true) (h' : t'.isWritten = true)
    (same : t.spelling = t'.spelling) : t = t' := by
  cases t <;> simp only [isWritten, Bool.false_eq_true] at h <;> cases t' <;>
    simp only [isWritten, Bool.false_eq_true] at h'
  all_goals first | rfl | exact absurd same (by decide)

namespace Style

inductive StandsBefore : Style → Op → Prop where
  | paren : StandsBefore .paren .par
  | negation : StandsBefore .negation .unaryMinus
  | not : StandsBefore .connective .not
  | cast {target : Ty} (h : target.isWritten = true) : StandsBefore (.cast target) .cast

def StandsBetween (style : Style) (op : Op) : Prop :=
  op.isReserved = false ∧ op ≠ .not ∧ op ≠ .unaryMinus ∧ style = (styleOf op 2).1

variable {style style' : Style} {op op' : Op}

theorem StandsBefore.mem_leads (h : style.StandsBefore op) : (style.before op).toList ∈ leads := by
  cases h with
  | cast ht =>
    rename_i target
    cases target <;> simp only [Ty.isWritten, Bool.false_eq_true] at ht
    all_goals decide
  | _ => decide

theorem StandsBefore.inj (h : style.StandsBefore op) (h' : style'.StandsBefore op')
    (same : (style.before op).toList = (style'.before op').toList) : style = style' ∧ op = op' := by
  cases h <;> cases h' <;> simp [before, glyph, Op.glyph?] at same ⊢
  case cast.cast ht _ ht' => exact Ty.eq_of_spelling ht ht' (String.toList_inj.mp same)

theorem StandsBetween.ofGlyph? (h : style.StandsBetween op) :
    Op.ofGlyph? (style.glyph op) = some op := by
  obtain ⟨reserved, not, minus, rfl⟩ := h
  cases op <;> simp_all [Op.isReserved] <;> decide

theorem StandsBetween.no_blank (h : style.StandsBetween op) :
    (style.glyph op).toList.all (· != ' ') = true := by
  rw [h.2.2.2]
  cases op <;> rfl

theorem StandsBetween.inj (h : style.StandsBetween op) (h' : style'.StandsBetween op')
    (same : style.glyph op = style'.glyph op') : style = style' ∧ op = op' := by
  have hop : op = op' := by
    rw [← Option.some_inj, ← h.ofGlyph?, same, h'.ofGlyph?]
  subst hop
  exact ⟨h.2.2.2.trans h'.2.2.2.symm, rfl⟩

end Style

namespace Node

def leaf? : Node → Option String
  | .mk _ (.variable name _ _) => some name.written
  | .mk _ (.constant _ value) => some value
  | _ => none

/-- The nodes are of one kind, with the same operators, types of casts and names, the same positions
are widened, and so it is with the nodes below them. A variable and a constant are not told apart
when they are spelled alike. -/
inductive SameShape : Node → Node → Prop where
  | leaf {n m : Node} {s : String} (hn : n.leaf? = some s) (hm : m.leaf? = some s) : SameShape n m
  | operation {mark mark' : Mark} {style : Style} {op : Op} {ns ms : List Node}
      {expected expected' : Ty} {result result' : Option Ty} {coerced coerced' : List Nat}
      {failed failed' : Bool} (operands : List.Forall₂ SameShape ns ms)
      (widened : ∀ i, i ∈ coerced ↔ i ∈ coerced') :
      SameShape (.mk mark (.operation style op ns expected result coerced failed))
        (.mk mark' (.operation style op ms expected' result' coerced' failed'))
  | call {mark mark' list list' : Mark} {name : Name} {ns ms : List Node} {type type' : Ty}
      {coerced coerced' : List Nat} {failed failed' : Bool}
      (args : List.Forall₂ SameShape ns ms) (widened : ∀ i, i ∈ coerced ↔ i ∈ coerced') :
      SameShape (.mk mark (.call name (.mk list (.arguments ns)) type coerced failed))
        (.mk mark' (.call name (.mk list' (.arguments ms)) type' coerced' failed'))
  | access {mark mark' : Mark} {name : Name} {n m : Node} {type type' : Ty}
      {failed failed' : Bool} (index : SameShape n m) :
      SameShape (.mk mark (.access name n type failed)) (.mk mark' (.access name m type' failed'))
  | wrapper {mark mark' : Mark} {wrap : Wrap} {n m : Node} {type type' : Ty}
      {failed failed' : Bool} (target : SameShape n m) :
      SameShape (.mk mark (.wrapper wrap n type failed)) (.mk mark' (.wrapper wrap m type' failed'))

/-- Expressions that can be read back: names and values are words, an operator has as many operands
as it stands between, and none is widened that is not there. -/
inductive Legible : Node → Prop where
  | ofVariable {mark : Mark} {name : String} {type : Ty} {failed : Bool}
      (word : isToken name = true) : Legible (.mk mark (.variable (.text name) type failed))
  | ofConstant {mark : Mark} {type : Ty} {value : String} (word : isToken value = true) :
      Legible (.mk mark (.constant type value))
  | single {mark : Mark} {style : Style} {op : Op} {n : Node} {expected : Ty}
      {result : Option Ty} {failed : Bool} (before : style.StandsBefore op) (operand : Legible n) :
      Legible (.mk mark (.operation style op [n] expected result [] failed))
  | several {mark : Mark} {style : Style} {op : Op} {n m : Node} {ns : List Node} {expected : Ty}
      {result : Option Ty} {coerced : List Nat} {failed : Bool} (between : style.StandsBetween op)
      (operands : ∀ x ∈ n :: m :: ns, Legible x)
      (widened : ∀ i ∈ coerced, i < (n :: m :: ns).length) :
      Legible (.mk mark (.operation style op (n :: m :: ns) expected result coerced failed))
  | call {mark list : Mark} {name : String} {ns : List Node} {type : Ty} {coerced : List Nat}
      {failed : Bool} (word : isToken name = true) (args : ∀ x ∈ ns, Legible x)
      (widened : ∀ i ∈ coerced, i < ns.length) :
      Legible (.mk mark (.call (.text name) (.mk list (.arguments ns)) type coerced failed))
  | access {mark : Mark} {name : String} {n : Node} {type : Ty} {failed : Bool}
      (word : isToken name = true) (index : Legible n) :
      Legible (.mk mark (.access (.text name) n type failed))
  | wrapper {mark : Mark} {wrap : Wrap} {n : Node} {type : Ty} {failed : Bool}
      (marked : wrap ≠ .plain) (target : Legible n) :
      Legible (.mk mark (.wrapper wrap n type failed))

def rowText (between : List Char) (coerced : Nat → Bool) : Nat → List Node → List Char
  | _, [] => []
  | i, n :: ns => between ++ (markIf (coerced i) ++
      ((n.text 0).toList ++ rowText between coerced (i + 1) ns))

def itemsText (between : List Char) (coerced : Nat → Bool) : List Node → List Char
  | [] => []
  | n :: ns => markIf (coerced 0) ++ ((n.text 0).toList ++ rowText between coerced 1 ns)

theorem intercalate_markParts (between : List Char) (coerced : Nat → Bool) (i : Nat) (n : Node)
    (ns : List Node) :
    between.intercalate (markParts coerced i ((n :: ns).map fun n => (n.text 0).toList)) =
      markIf (coerced i) ++ ((n.text 0).toList ++ rowText between coerced (i + 1) ns) := by
  induction ns generalizing i n with
  | nil => simp [markParts, rowText]
  | cons m ns ih =>
    rw [List.map_cons, markParts, List.map_cons, markParts, List.intercalate_cons_cons]
    have rest := ih (i + 1) m
    rw [List.map_cons, markParts] at rest
    simp [rest, rowText]

theorem intercalate_items (between : List Char) (coerced : Nat → Bool) (ns : List Node) :
    between.intercalate (markParts coerced 0 (ns.map fun n => (n.text 0).toList)) =
      itemsText between coerced ns := by
  cases ns with
  | nil => rfl
  | cons n ns => exact intercalate_markParts between coerced 0 n ns

@[simp] theorem indentation_zero : indentation 0 = "" := rfl

variable {mark list : Mark} {type : Ty} {failed : Bool} {n : Node}

theorem toList_text_leaf {s : String} (h : n.leaf? = some s) : (n.text 0).toList = s.toList := by
  unfold leaf? at h
  split at h <;> cases h
  all_goals simp [text, reports]

theorem toList_text_single {style : Style} {op : Op} {expected : Ty} {result : Option Ty}
    (r : List Char) :
    (text (.mk mark (.operation style op [n] expected result [] failed)) 0).toList ++ r =
      '(' :: ((style.before op).toList ++ ((n.text 0).toList ++ ')' :: r)) := by
  rw [toList_text_operation]
  simp [markParts, markIf]

theorem toList_text_several {style : Style} {op : Op} {m : Node} {ns : List Node} {expected : Ty}
    {result : Option Ty} {coerced : List Nat} (r : List Char) :
    (text (.mk mark (.operation style op (n :: m :: ns) expected result coerced failed)) 0).toList
        ++ r =
      '(' :: (markIf (coerced.contains 0) ++ ((n.text 0).toList ++
        (rowText (' ' :: ((style.glyph op).toList ++ [' '])) coerced.contains 1 (m :: ns) ++
          ')' :: r))) := by
  rw [toList_text_operation, intercalate_items]
  simp [itemsText]

theorem toList_text_arguments {name : String} {ns : List Node} {coerced : List Nat}
    (r : List Char) :
    (text (.mk mark (.call (.text name) (.mk list (.arguments ns)) type coerced failed)) 0).toList
        ++ r =
      name.toList ++ '(' :: (itemsText ", ".toList coerced.contains ns ++ ')' :: r) := by
  rw [toList_text_call, intercalate_items]
  simp

theorem toList_text_access {name : String} (r : List Char) :
    (text (.mk mark (.access (.text name) n type failed)) 0).toList ++ r =
      name.toList ++ '[' :: ((n.text 0).toList ++ ']' :: r) := by
  simp [text, reports]

theorem toList_text_wrapper {wrap : Wrap} (r : List Char) :
    (text (.mk mark (.wrapper wrap n type failed)) 0).toList ++ r =
      wrap.glyph.toList ++ ((n.text 0).toList ++ r) := by
  simp [text, reports]

inductive Opening where
  | word
  | operation
  | call
  | access
  | wrapper (wrap : Wrap)

def openingOf (s : List Char) : Opening :=
  match s.head? with
  | some '(' => .operation
  | some '&' => .wrapper .address
  | some '*' => .wrapper .reference
  | _ =>
    match (s.dropWhile isWordChar).head? with
    | some '(' => .call
    | some '[' => .access
    | _ => .word

def opening : Node → Opening
  | .mk _ (.operation ..) => .operation
  | .mk _ (.call ..) => .call
  | .mk _ (.access ..) => .access
  | .mk _ (.wrapper wrap ..) => .wrapper wrap
  | _ => .word

theorem openingOf_word {name : String} (word : isToken name = true) {s : List Char}
    (hs : ∀ c ∈ s.head?, isWordChar c = false) :
    openingOf (name.toList ++ s) =
      match s.head? with
      | some '(' => .call
      | some '[' => .access
      | _ => .word := by
  obtain ⟨c, cs, chars, hw⟩ := token_cons word
  have rest : (name.toList ++ s).dropWhile isWordChar = s := by
    rw [chars, List.dropWhile_append_of_pos hw]
    cases s with
    | nil => rfl
    | cons d s => simp [hs d rfl]
  have first : (name.toList ++ s).head? = some c := by simp [chars]
  have hc : isWordChar c = true := hw c (by simp)
  unfold openingOf
  rw [rest, first]
  split
  case h_4 => rfl
  all_goals
    rename_i heq
    cases heq
    exact absurd hc (by decide)

theorem Legible.openingOf_text (h : n.Legible) {r : List Char} (hr : Stops r) :
    openingOf ((n.text 0).toList ++ r) = n.opening := by
  have leaf {n : Node} {s : String} (hn : n.leaf? = some s) (word : isToken s = true) :
      openingOf ((n.text 0).toList ++ r) = .word := by
    rw [toList_text_leaf hn, openingOf_word word hr.not_word]
    split
    case h_3 => rfl
    all_goals
      rename_i heq
      exact absurd (hr _ heq) (by decide)
  cases h with
  | ofVariable word => exact leaf rfl word
  | ofConstant word => exact leaf rfl word
  | single =>
    rw [toList_text_single]
    rfl
  | several =>
    rw [toList_text_several]
    rfl
  | call word =>
    rw [toList_text_arguments, openingOf_word word (not_word_cons (by decide) _)]
    rfl
  | access word =>
    rw [toList_text_access, openingOf_word word (not_word_cons (by decide) _)]
    rfl
  | @wrapper _ wrap _ _ _ marked =>
    rw [toList_text_wrapper]
    cases wrap with
    | plain => exact absurd rfl marked
    | address | reference => rfl

theorem begins_token {name : String} (word : isToken name = true) (s : List Char) :
    Begins (name.toList ++ s) := by
  obtain ⟨c, cs, chars, hw⟩ := token_cons word
  rw [chars]
  exact ⟨c, cs ++ s, rfl, by simp [hw c (by simp)]⟩

theorem Legible.begins (h : n.Legible) (r : List Char) : Begins ((n.text 0).toList ++ r) := by
  cases h with
  | ofVariable word | ofConstant word =>
    rw [toList_text_leaf rfl]
    exact begins_token word r
  | single =>
    rw [toList_text_single]
    exact ⟨_, _, rfl, by decide⟩
  | several =>
    rw [toList_text_several]
    exact ⟨_, _, rfl, by decide⟩
  | call word =>
    rw [toList_text_arguments]
    exact begins_token word _
  | access word =>
    rw [toList_text_access]
    exact begins_token word _
  | @wrapper _ wrap _ _ _ marked =>
    rw [toList_text_wrapper]
    cases wrap with
    | plain => exact absurd rfl marked
    | address | reference => exact ⟨_, _, rfl, by decide⟩

def ReadsBack (n : Node) : Prop :=
  ∀ {m : Node} {r r' : List Char}, m.Legible → Stops r → Stops r' →
    (n.text 0).toList ++ r = (m.text 0).toList ++ r' → n.SameShape m ∧ r = r'

theorem Legible.opening_eq {m : Node} (hn : n.Legible) (hm : m.Legible) {r r' : List Char}
    (hr : Stops r) (hr' : Stops r') (h : (n.text 0).toList ++ r = (m.text 0).toList ++ r') :
    n.opening = m.opening := by
  rw [← hn.openingOf_text hr, h, hm.openingOf_text hr']

theorem ReadsBack.led (h : n.ReadsBack) (hn : n.Legible) {m : Node} (hm : m.Legible)
    {lead lead' : List Char} (hl : lead ∈ leads) (hl' : lead' ∈ leads) {r r' : List Char}
    (hr : Stops r) (hr' : Stops r')
    (same : lead ++ ((n.text 0).toList ++ r) = lead' ++ ((m.text 0).toList ++ r')) :
    lead = lead' ∧ n.SameShape m ∧ r = r' := by
  obtain ⟨leads, rest⟩ := lead_inj hl hl' (hn.begins r) (hm.begins r') same
  exact ⟨leads, h hm hr hr' rest⟩

theorem ReadsBack.marked (h : n.ReadsBack) (hn : n.Legible) {m : Node} (hm : m.Legible)
    {r r' : List Char} (hr : Stops r) (hr' : Stops r') {b b' : Bool}
    (same : markIf b ++ ((n.text 0).toList ++ r) = markIf b' ++ ((m.text 0).toList ++ r')) :
    b = b' ∧ n.SameShape m ∧ r = r' := by
  obtain ⟨marks, rest⟩ := h.led hn hm (markIf_mem_leads b) (markIf_mem_leads b') hr hr' same
  exact ⟨markIf_inj marks, rest⟩

theorem stops_rowText {between : List Char} {c : Char} (hc : c ∈ [' ', ',', ')', ']'])
    {coerced : Nat → Bool} {i : Nat} {ns : List Node} {r : List Char} :
    Stops (rowText (c :: between) coerced i ns ++ ')' :: r) := by
  cases ns with
  | nil => exact .cons (by decide) r
  | cons n ns => exact .cons hc _

theorem rowText_inj {between : List Char} {c : Char} (hc : c ∈ [' ', ','])
    {coerced coerced' : Nat → Bool} {i : Nat} {ns ms : List Node}
    (hns : ∀ n ∈ ns, n.Legible ∧ n.ReadsBack) (hms : ∀ m ∈ ms, m.Legible) {r r' : List Char}
    (same : rowText (c :: between) coerced i ns ++ ')' :: r =
      rowText (c :: between) coerced' i ms ++ ')' :: r') :
    List.Forall₂ SameShape ns ms ∧ (∀ j, i ≤ j → j < i + ns.length → coerced j = coerced' j) ∧
      r = r' := by
  have separates : ∀ c ∈ [' ', ','], c ≠ ')' ∧ c ∈ [' ', ',', ')', ']'] := by simp
  obtain ⟨hend, hstop⟩ := separates c hc
  induction ns generalizing i ms with
  | nil =>
    cases ms with
    | nil => exact ⟨.nil, fun j hj hj' => absurd hj' (by simpa using hj), (List.cons.inj same).2⟩
    | cons m ms => exact absurd (List.cons.inj same).1.symm hend
  | cons n ns ih =>
    cases ms with
    | nil => exact absurd (List.cons.inj same).1 hend
    | cons m ms =>
      obtain ⟨⟨hn, reads⟩, hns⟩ := List.forall_mem_cons.mp hns
      obtain ⟨hm, hms⟩ := List.forall_mem_cons.mp hms
      simp only [rowText, List.append_assoc] at same
      obtain ⟨hmark, hshape, hrest⟩ := reads.marked hn hm
        (stops_rowText hstop) (stops_rowText hstop) (List.append_cancel_left same)
      obtain ⟨hshapes, hmarks, hr⟩ := ih hns hms hrest
      refine ⟨.cons hshape hshapes, fun j hj hj' => ?_, hr⟩
      rcases Nat.eq_or_lt_of_le hj with rfl | hlt
      · exact hmark
      · exact hmarks j hlt (by rw [List.length_cons] at hj'; omega)

theorem mem_coerced_iff {coerced coerced' : List Nat} {k : Nat} (h : ∀ i ∈ coerced, i < k)
    (h' : ∀ i ∈ coerced', i < k) (same : ∀ i < k, coerced.contains i = coerced'.contains i)
    (i : Nat) : i ∈ coerced ↔ i ∈ coerced' := by
  by_cases hi : i < k
  · rw [← List.contains_iff_mem, same i hi, List.contains_iff_mem]
  · exact iff_of_false (fun hm => hi (h i hm)) fun hm => hi (h' i hm)

theorem itemsText_inj {ns ms : List Node} {coerced coerced' : Nat → Bool}
    (hns : ∀ n ∈ ns, n.Legible ∧ n.ReadsBack) (hms : ∀ m ∈ ms, m.Legible) {r r' : List Char}
    (same : itemsText ", ".toList coerced ns ++ ')' :: r =
      itemsText ", ".toList coerced' ms ++ ')' :: r') :
    List.Forall₂ SameShape ns ms ∧ (∀ i < ns.length, coerced i = coerced' i) ∧ r = r' := by
  have unended {n : Node} (hn : n.Legible) (b : Bool) (s t : List Char) :
      markIf b ++ ((n.text 0).toList ++ s) ≠ ')' :: t := by
    obtain ⟨c, cs, text, hc⟩ := hn.begins s
    rw [text]
    cases b with
    | false =>
      intro h
      cases h
      exact absurd hc (by decide)
    | true => exact fun h => absurd (List.cons.inj h).1 (by decide)
  cases ns with
  | nil =>
    cases ms with
    | nil => exact ⟨.nil, by simp, (List.cons.inj same).2⟩
    | cons m ms =>
      rw [itemsText, itemsText, List.append_assoc, List.append_assoc] at same
      exact absurd same.symm (unended (hms m (by simp)) _ _ _)
  | cons n ns =>
    obtain ⟨⟨hn, reads⟩, hns⟩ := List.forall_mem_cons.mp hns
    rw [itemsText, List.append_assoc, List.append_assoc] at same
    cases ms with
    | nil => exact absurd same (unended hn _ _ _)
    | cons m ms =>
      obtain ⟨hm, hms⟩ := List.forall_mem_cons.mp hms
      rw [itemsText, List.append_assoc, List.append_assoc] at same
      obtain ⟨hmark, hshape, hrest⟩ := reads.marked hn hm (stops_rowText (by decide))
        (stops_rowText (by decide)) same
      obtain ⟨hshapes, hmarks, hr⟩ := rowText_inj (by decide) hns hms hrest
      refine ⟨.cons hshape hshapes, fun i hi => ?_, hr⟩
      cases i with
      | zero => exact hmark
      | succ i => exact hmarks (i + 1) (by omega) (by rw [List.length_cons] at hi; omega)

theorem readsBack_leaf {s : String} (hn : n.leaf? = some s) (legible : n.Legible)
    (word : isToken s = true) (hopening : n.opening = .word) : n.ReadsBack := by
  intro m r r' hm hr hr' same
  have kinds := legible.opening_eq hm hr hr' same
  rw [hopening] at kinds
  have leaf {m : Node} {s' : String} (hm : m.leaf? = some s') (word' : isToken s' = true)
      (same : (n.text 0).toList ++ r = (m.text 0).toList ++ r') : n.SameShape m ∧ r = r' := by
    rw [toList_text_leaf hn, toList_text_leaf hm] at same
    obtain ⟨rfl, hrest⟩ := token_append_inj word word' hr.not_word hr'.not_word same
    exact ⟨.leaf hn hm, hrest⟩
  cases hm with
  | ofVariable word' => exact leaf rfl word' same
  | ofConstant word' => exact leaf rfl word' same
  | _ => cases kinds

theorem rowText_glyph_inj {style style' : Style} {op op' : Op} (h : style.StandsBetween op)
    (h' : style'.StandsBetween op') {coerced coerced' : Nat → Bool} {i : Nat} {m : Node}
    {ns ms : List Node} {r r' : List Char}
    (same : rowText (' ' :: ((style.glyph op).toList ++ [' '])) coerced i (n :: ns) ++ r =
      rowText (' ' :: ((style'.glyph op').toList ++ [' '])) coerced' i (m :: ms) ++ r') :
    style = style' ∧ op = op' := by
  simp only [rowText, List.cons_append, List.append_assoc, List.cons.injEq, true_and] at same
  have glyphs := append_inj_of_class (List.all_eq_true.mp h.no_blank)
    (List.all_eq_true.mp h'.no_blank) (by simp) (by simp) same
  exact h.inj h' (String.toList_inj.mp glyphs.1)

theorem Legible.readsBack (h : n.Legible) : n.ReadsBack := by
  induction h with
  | ofVariable word => exact readsBack_leaf rfl (.ofVariable word) word rfl
  | ofConstant word => exact readsBack_leaf rfl (.ofConstant word) word rfl
  | single before operand ih =>
    intro m r r' hm hr hr' same
    have kinds := (Legible.single before operand).opening_eq hm hr hr' same
    cases hm with
    | single before' operand' =>
      rw [toList_text_single, toList_text_single] at same
      obtain ⟨hlead, hshape, hr⟩ := ReadsBack.led ih operand operand' before.mem_leads
        before'.mem_leads (.cons (by decide) r) (.cons (by decide) r') (List.cons.inj same).2
      obtain ⟨rfl, rfl⟩ := before.inj before' hlead
      exact ⟨.operation (.cons hshape .nil) (by simp), (List.cons.inj hr).2⟩
    | several between' operands' =>
      -- A cast to float and a widened first operand are told apart by what follows the operand.
      rw [toList_text_single, toList_text_several] at same
      have operand' := operands' _ List.mem_cons_self
      obtain ⟨-, -, hr⟩ := ReadsBack.led ih operand operand' before.mem_leads (markIf_mem_leads _)
        (.cons (by decide) r) (stops_rowText (by decide)) (List.cons.inj same).2
      exact absurd (List.cons.inj hr).1 (by decide)
    | _ => cases kinds
  | several between operands widened ih =>
    intro m r r' hm hr hr' same
    have kinds := (Legible.several between operands widened).opening_eq hm hr hr' same
    obtain ⟨operand, operands⟩ := List.forall_mem_cons.mp operands
    obtain ⟨reads, ih⟩ := List.forall_mem_cons.mp ih
    cases hm with
    | single before' operand' =>
      rw [toList_text_several, toList_text_single] at same
      obtain ⟨-, -, hr⟩ := ReadsBack.led reads operand operand' (markIf_mem_leads _)
        before'.mem_leads (stops_rowText (by decide)) (.cons (by decide) r') (List.cons.inj same).2
      exact absurd (List.cons.inj hr).1 (by decide)
    | several between' operands' widened' =>
      obtain ⟨operand', operands'⟩ := List.forall_mem_cons.mp operands'
      rw [toList_text_several, toList_text_several] at same
      obtain ⟨hmark, hshape, hrest⟩ := ReadsBack.marked reads operand operand'
        (stops_rowText (by decide)) (stops_rowText (by decide)) (List.cons.inj same).2
      obtain ⟨rfl, rfl⟩ := rowText_glyph_inj between between' hrest
      obtain ⟨hshapes, hmarks, hr⟩ := rowText_inj (by decide)
        (fun x hx => ⟨operands x hx, ih x hx⟩) operands' hrest
      have lengths := hshapes.length_eq
      refine ⟨.operation (.cons hshape hshapes) (mem_coerced_iff widened ?_ ?_), hr⟩
      · simpa [lengths] using widened'
      · intro i hi
        cases i with
        | zero => exact hmark
        | succ i => exact hmarks (i + 1) (by omega) (by simp at hi ⊢; omega)
    | _ => cases kinds
  | call word args widened ih =>
    intro m r r' hm hr hr' same
    have kinds := (Legible.call word args widened).opening_eq hm hr hr' same
    cases hm with
    | call word' args' widened' =>
      rw [toList_text_arguments, toList_text_arguments] at same
      obtain ⟨rfl, hrest⟩ := token_append_inj word word' (not_word_cons (by decide) _)
        (not_word_cons (by decide) _) same
      obtain ⟨hshapes, hmarks, hr⟩ := itemsText_inj (fun x hx => ⟨args x hx, ih x hx⟩) args'
        (List.cons.inj hrest).2
      refine ⟨.call hshapes (mem_coerced_iff widened ?_ hmarks), hr⟩
      rwa [hshapes.length_eq]
    | _ => cases kinds
  | access word index ih =>
    intro m r r' hm hr hr' same
    have kinds := (Legible.access word index).opening_eq hm hr hr' same
    cases hm with
    | access word' index' =>
      rw [toList_text_access, toList_text_access] at same
      obtain ⟨rfl, hrest⟩ := token_append_inj word word' (not_word_cons (by decide) _)
        (not_word_cons (by decide) _) same
      obtain ⟨hshape, hr⟩ := ih index' (.cons (by decide) r) (.cons (by decide) r')
        (List.cons.inj hrest).2
      exact ⟨.access hshape, (List.cons.inj hr).2⟩
    | _ => cases kinds
  | wrapper marked target ih =>
    intro m r r' hm hr hr' same
    have kinds := (Legible.wrapper marked target).opening_eq hm hr hr' same
    cases hm with
    | wrapper marked' target' =>
      cases kinds
      rw [toList_text_wrapper, toList_text_wrapper] at same
      obtain ⟨hshape, hr⟩ := ih target' hr hr' (List.append_cancel_left same)
      exact ⟨.wrapper hshape, hr⟩
    | _ => cases kinds

theorem contains_eq_of_mem_iff {coerced coerced' : List Nat}
    (h : ∀ i, i ∈ coerced ↔ i ∈ coerced') : coerced.contains = coerced'.contains := by
  funext i
  rw [Bool.eq_iff_iff, List.contains_iff_mem, List.contains_iff_mem, h i]

theorem map_text_eq {ns ms : List Node}
    (h : ∀ n ∈ ns, ∀ m, n.SameShape m → (n.text 0).toList = (m.text 0).toList)
    (shapes : List.Forall₂ SameShape ns ms) :
    (ns.map fun n => (n.text 0).toList) = ms.map fun m => (m.text 0).toList := by
  induction shapes with
  | nil => rfl
  | cons shape _ ih =>
    obtain ⟨hn, hns⟩ := List.forall_mem_cons.mp h
    rw [List.map_cons, List.map_cons, hn _ shape, ih hns]

theorem text_operation_congr {mark mark' : Mark} {style : Style} {op : Op} {ns ms : List Node}
    {expected expected' : Ty} {result result' : Option Ty} {coerced coerced' : List Nat}
    {failed failed' : Bool}
    (h : ∀ n ∈ ns, ∀ m, n.SameShape m → (n.text 0).toList = (m.text 0).toList)
    (shapes : List.Forall₂ SameShape ns ms) (widened : ∀ i, i ∈ coerced ↔ i ∈ coerced') :
    (text (.mk mark (.operation style op ns expected result coerced failed)) 0).toList =
      (text (.mk mark' (.operation style op ms expected' result' coerced' failed')) 0).toList := by
  rw [toList_text_operation, toList_text_operation, shapes.length_eq, map_text_eq h shapes,
    contains_eq_of_mem_iff widened]

theorem Legible.text_eq {n : Node} (h : n.Legible) :
    ∀ m, n.SameShape m → (n.text 0).toList = (m.text 0).toList := by
  have leaf {n m : Node} {s : String} (hn : n.leaf? = some s) (hm : m.leaf? = some s) :
      (n.text 0).toList = (m.text 0).toList := by rw [toList_text_leaf hn, toList_text_leaf hm]
  induction h with
  | ofVariable | ofConstant =>
    intro m shape
    cases shape with
    | leaf hn hm => exact leaf hn hm
  | single before operand ih =>
    intro m shape
    cases shape with
    | leaf hn _ => cases hn
    | operation shapes widened =>
      exact text_operation_congr (List.forall_mem_singleton.mpr ih) shapes widened
  | several between operands _ ih =>
    intro m shape
    cases shape with
    | leaf hn _ => cases hn
    | operation shapes widened => exact text_operation_congr ih shapes widened
  | call word args _ ih =>
    intro m shape
    cases shape with
    | leaf hn _ => cases hn
    | call shapes widened =>
      rw [toList_text_call, toList_text_call, map_text_eq ih shapes, contains_eq_of_mem_iff widened]
  | access word index ih =>
    intro m shape
    cases shape with
    | leaf hn _ => cases hn
    | access shape => simpa [text, reports] using ih _ shape
  | wrapper marked target ih =>
    intro m shape
    cases shape with
    | leaf hn _ => cases hn
    | wrapper shape => simpa [text, reports] using ih _ shape

end Node

end Treewright
