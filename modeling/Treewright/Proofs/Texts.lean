import Mathlib.Data.List.Basic
import Mathlib.Data.List.TakeWhile
import Treewright.Node.Render
set_option autoImplicit false

/-!
Texts that part ways. Two texts are apart when they differ at a place that both have, so nothing
that follows can make them equal again. The mark of a widening in front of one of them could shift
it back into step; it cannot where both begin with the same text and that text has a character which
no mark has.
-/

namespace Treewright

section Intercalate

variable {α : Type} {between : List α} {parts more : List (List α)}

theorem append_intercalate (h : parts ≠ []) :
    between ++ between.intercalate parts = parts.flatMap (between ++ ·) := by
  induction parts with
  | nil => exact absurd rfl h
  | cons part parts ih =>
    cases parts with
    | nil => simp
    | cons next parts =>
      rw [List.intercalate_cons_cons, List.append_assoc, ih (by simp)]
      simp

theorem intercalate_append (hp : parts ≠ []) (hm : more ≠ []) :
    between.intercalate (parts ++ more) =
      between.intercalate parts ++ (between ++ between.intercalate more) := by
  have all : between ++ between.intercalate (parts ++ more) =
      between ++ (between.intercalate parts ++ (between ++ between.intercalate more)) := by
    rw [append_intercalate (by simp [hp]), List.flatMap_append, ← append_intercalate hp,
      ← append_intercalate hm]
    simp
  exact List.append_cancel_left all

theorem intercalate_eq_nil_iff (h : between ≠ []) :
    between.intercalate parts = [] ↔ parts = [] ∨ parts = [[]] := by
  cases parts with
  | nil => simp
  | cons part parts =>
    cases parts with
    | nil => simp
    | cons next parts => simp [List.intercalate_cons_cons, h]

variable (between parts)

theorem intercalate_concat (last : List α) :
    between.intercalate (parts ++ [last]) = parts.flatMap (· ++ between) ++ last := by
  induction parts with
  | nil => simp
  | cons part parts ih =>
    cases parts with
    | nil => simp [List.intercalate_cons_cons]
    | cons next parts =>
      rw [List.cons_append, List.cons_append, List.intercalate_cons_cons, ← List.cons_append, ih]
      simp

theorem intercalate_append_cons (front part : List α) :
    between.intercalate ((front ++ part) :: parts) =
      front ++ between.intercalate (part :: parts) := by
  cases parts with
  | nil => simp
  | cons next parts => simp [List.intercalate_cons_cons]

theorem exists_intercalate_cons (part : List α) :
    ∃ rest, between.intercalate (part :: parts) = part ++ rest :=
  ⟨_, by simpa using intercalate_append_cons between parts part []⟩

theorem intercalate_cons_append (part next close : List α) :
    between.intercalate (part :: next :: parts) ++ close =
      part ++ (between ++ (between.intercalate (next :: parts) ++ close)) := by
  simp [List.intercalate_cons_cons]

end Intercalate

def Lasting (s : List Char) : Prop := ∃ x ∈ s, x ≠ ';'

def Apart (s t : List Char) : Prop :=
  ∃ front a b u v, s = front ++ a :: u ∧ t = front ++ b :: v ∧ a ≠ b ∧
    Lasting (a :: u) ∧ Lasting (b :: v)

theorem Lasting.append {s : List Char} (h : Lasting s) (t : List Char) : Lasting (s ++ t) := by
  obtain ⟨x, hx, hne⟩ := h
  exact ⟨x, by simp [hx], hne⟩

theorem Lasting.reverse {s : List Char} (h : Lasting s) : Lasting s.reverse := by
  obtain ⟨x, hx, hne⟩ := h
  exact ⟨x, List.mem_reverse.mpr hx, hne⟩

namespace Apart

variable {s t : List Char}

theorem ne (h : Apart s t) : s ≠ t := by
  obtain ⟨front, a, b, u, v, rfl, rfl, hne, -⟩ := h
  simp [hne]

theorem symm (h : Apart s t) : Apart t s := by
  obtain ⟨front, a, b, u, v, hs, ht, hne, hu, hv⟩ := h
  exact ⟨front, b, a, v, u, ht, hs, hne.symm, hv, hu⟩

theorem lasting (h : Apart s t) : Lasting s := by
  obtain ⟨front, a, b, u, v, rfl, -, -, ⟨x, hx, hne⟩, -⟩ := h
  exact ⟨x, by simp [List.mem_cons.mp hx], hne⟩

theorem append_left (h : Apart s t) (q : List Char) : Apart (q ++ s) (q ++ t) := by
  obtain ⟨front, a, b, u, v, rfl, rfl, hne, hu, hv⟩ := h
  exact ⟨q ++ front, a, b, u, v, by simp, by simp, hne, hu, hv⟩

theorem append_right (h : Apart s t) (e e' : List Char) : Apart (s ++ e) (t ++ e') := by
  obtain ⟨front, a, b, u, v, rfl, rfl, hne, hu, hv⟩ := h
  exact ⟨front, a, b, u ++ e, v ++ e', by simp, by simp, hne, hu.append e, hv.append e'⟩

theorem of_idxOf {x : Char} (hx : x ≠ ';') (hs : x ∈ s) (ht : x ∈ t)
    (h : s.idxOf x < t.idxOf x) : Apart s t := by
  induction s generalizing t with
  | nil => cases hs
  | cons a s ih =>
    cases t with
    | nil => cases ht
    | cons b t =>
      have hb : b ≠ x := by
        rintro rfl
        simp at h
      by_cases hab : a = b
      · subst hab
        have hs' : x ∈ s := (List.mem_cons.mp hs).resolve_left hb.symm
        have ht' : x ∈ t := (List.mem_cons.mp ht).resolve_left hb.symm
        have hlt : s.idxOf x < t.idxOf x := by simpa [List.idxOf_cons_ne _ hb] using h
        exact (ih hs' ht' hlt).append_left [a]
      · exact ⟨[], a, b, s, t, rfl, rfl, hab, ⟨x, hs, hx⟩, ⟨x, ht, hx⟩⟩

end Apart

theorem Lasting.dropWhile {s : List Char} (h : Lasting s) : Lasting (s.dropWhile (· = ';')) := by
  obtain ⟨x, hx, hne⟩ := h
  rw [← List.takeWhile_append_dropWhile (p := (· = ';')) (l := s)] at hx
  rcases List.mem_append.mp hx with hx | hx
  · have hp := List.mem_takeWhile_imp hx
    exact absurd (of_decide_eq_true hp) hne
  · exact ⟨x, hx, hne⟩

theorem toList_dropSemicolons {s t : String} {q : List Char} (h : s.toList = q ++ t.toList)
    (ht : Lasting t.toList) : (dropSemicolons s).toList = q ++ (dropSemicolons t).toList := by
  have hne : (t.toList.reverse.dropWhile (· = ';')).isEmpty = false := by
    obtain ⟨x, hx, -⟩ := ht.reverse.dropWhile
    simpa using List.ne_nil_of_mem hx
  simp [dropSemicolons, h, List.dropWhile_append, hne]

theorem dropSemicolons_cons {a : Char} {u : List Char} (h : Lasting (a :: u)) :
    ∃ w, (dropSemicolons (String.ofList (a :: u))).toList = a :: w ∧ Lasting (a :: w) := by
  have hr := h.reverse
  have hl : Lasting (dropSemicolons (String.ofList (a :: u))).toList := by
    simpa [dropSemicolons, Lasting] using hr.dropWhile
  have hp : (dropSemicolons (String.ofList (a :: u))).toList <+: a :: u := by
    have hs := List.reverse_prefix.mpr
      (List.dropWhile_suffix (p := (· = ';')) (l := (a :: u).reverse))
    simpa [dropSemicolons] using hs
  generalize (dropSemicolons (String.ofList (a :: u))).toList = w at hl hp
  cases w with
  | nil =>
    obtain ⟨x, hx, -⟩ := hl
    cases hx
  | cons b w =>
    obtain ⟨rfl, -⟩ := List.cons_prefix_cons.mp hp
    exact ⟨w, rfl, hl⟩

theorem Apart.dropSemicolons {s t : String} (h : Apart s.toList t.toList) :
    Apart (dropSemicolons s).toList (dropSemicolons t).toList := by
  obtain ⟨front, a, b, u, v, hs, ht, hne, hu, hv⟩ := h
  rw [← String.toList_ofList (l := a :: u)] at hs
  rw [← String.toList_ofList (l := b :: v)] at ht
  rw [toList_dropSemicolons hs (by simpa using hu), toList_dropSemicolons ht (by simpa using hv)]
  obtain ⟨u', hu, hlu⟩ := dropSemicolons_cons hu
  obtain ⟨v', hv, hlv⟩ := dropSemicolons_cons hv
  exact ⟨front, a, b, u', v', by rw [hu], by rw [hv], hne, hlu, hlv⟩

theorem toList_dropFront {front s : String} {rest : List Char}
    (h : s.toList = front.toList ++ rest) : (dropFront front s).toList = rest := by
  simp [dropFront, h, ← String.length_toList]

def Anchored (s : List Char) : Prop := ∃ x ∈ s, x ∉ coercionMark.toList ∧ x ≠ ';'

theorem Anchored.append_left {s : List Char} (h : Anchored s) (q : List Char) :
    Anchored (q ++ s) := by
  obtain ⟨x, hx, hne⟩ := h
  exact ⟨x, by simp [hx], hne⟩

theorem apart_mark {q : List Char} (h : Anchored q) (s t : List Char) :
    Apart (q ++ s) (coercionMark.toList ++ (q ++ t)) := by
  obtain ⟨x, hx, hmark, hne⟩ := h
  refine .of_idxOf hne (by simp [hx]) (by simp [hx]) ?_
  simp only [List.idxOf_append, hx, hmark, if_true, if_false]
  have hlen : 0 < coercionMark.toList.length := by decide
  omega

def markIf (coerced : Bool) : List Char := if coerced then coercionMark.toList else []

theorem apart_markIf {q : List Char} (h : Anchored q) (s t : List Char) {b b' : Bool}
    (hne : b ≠ b') :
    Apart (markIf b ++ (q ++ s)) (markIf b' ++ (q ++ t)) := by
  cases b <;> cases b'
  · contradiction
  · exact apart_mark h s t
  · exact (apart_mark h t s).symm
  · contradiction

def Fork (s t : List Char) : Prop :=
  ∃ q s' t', s = q ++ s' ∧ t = q ++ t' ∧ Anchored q ∧ Apart s' t'

theorem Apart.fork {s t : List Char} (h : Apart s t) {q : List Char} (hq : Anchored q) :
    Fork (q ++ s) (q ++ t) := ⟨q, s, t, rfl, rfl, hq, h⟩

namespace Fork

variable {s t : List Char}

theorem apart (h : Fork s t) : Apart s t := by
  obtain ⟨q, s', t', rfl, rfl, -, h⟩ := h
  exact h.append_left q

theorem append_left (h : Fork s t) (p : List Char) : Fork (p ++ s) (p ++ t) := by
  obtain ⟨q, s', t', rfl, rfl, hq, h⟩ := h
  exact ⟨p ++ q, s', t', by simp, by simp, hq.append_left p, h⟩

theorem append_right (h : Fork s t) (e e' : List Char) : Fork (s ++ e) (t ++ e') := by
  obtain ⟨q, s', t', rfl, rfl, hq, h⟩ := h
  exact ⟨q, s' ++ e, t' ++ e', by simp, by simp, hq, h.append_right e e'⟩

theorem marked (h : Fork s t) (b b' : Bool) : Apart (markIf b ++ s) (markIf b' ++ t) := by
  by_cases hb : b = b'
  · subst hb
    exact h.apart.append_left (markIf b)
  · obtain ⟨q, s', t', rfl, rfl, hq, -⟩ := h
    exact apart_markIf hq s' t' hb

end Fork

def markParts (coerced : Nat → Bool) : Nat → List (List Char) → List (List Char)
  | _, [] => []
  | i, part :: parts => (markIf (coerced i) ++ part) :: markParts coerced (i + 1) parts

/-- The rows differ in the mark of an equal part, or in a part, with equal parts before. -/
inductive Splits (coerced coerced' : Nat → Bool) : Nat → List (List Char) → List (List Char) → Prop
  where
  | mark {i : Nat} (h : coerced i ≠ coerced' i) (part : List Char) (parts : List (List Char)) :
      Splits coerced coerced' i (part :: parts) (part :: parts)
  | part {i : Nat} {p p' : List Char} (h : Fork p p') (ps ps' : List (List Char)) :
      Splits coerced coerced' i (p :: ps) (p' :: ps')
  | later {i : Nat} {ps ps' : List (List Char)} (part : List Char)
      (h : Splits coerced coerced' (i + 1) ps ps') :
      Splits coerced coerced' i (part :: ps) (part :: ps')

theorem Splits.exists_cons {coerced coerced' : Nat → Bool} {i : Nat} {ps ps' : List (List Char)}
    (h : Splits coerced coerced' i ps ps') : ∃ p qs p' qs', ps = p :: qs ∧ ps' = p' :: qs' := by
  cases h with
  | mark _ p ps => exact ⟨p, ps, p, ps, rfl, rfl⟩
  | part _ ps ps' => exact ⟨_, ps, _, ps', rfl, rfl⟩
  | later p _ => exact ⟨p, _, p, _, rfl, rfl⟩

theorem Splits.apart {coerced coerced' : Nat → Bool} {i : Nat} {parts parts' : List (List Char)}
    (h : Splits coerced coerced' i parts parts') {sep close : List Char}
    (hs : 1 < parts.length → Anchored sep) (hc : Anchored close) :
    Apart (sep.intercalate (markParts coerced i parts) ++ close)
      (sep.intercalate (markParts coerced' i parts') ++ close) := by
  induction h with
  | mark h part parts =>
    -- The anchor is the text after the part: what closes the row, or what stands between two.
    cases parts with
    | nil =>
      simpa [markParts] using apart_markIf (hc.append_left part) [] [] h
    | cons next parts =>
      have hq := (hs (by simp)).append_left part
      simpa only [markParts, intercalate_cons_append, List.append_assoc] using apart_markIf hq _ _ h
  | @part i p p' h ps ps' =>
    rw [markParts, markParts]
    obtain ⟨rest, he⟩ := exists_intercalate_cons sep (markParts coerced (i + 1) ps)
      (markIf (coerced i) ++ p)
    obtain ⟨rest', he'⟩ := exists_intercalate_cons sep (markParts coerced' (i + 1) ps')
      (markIf (coerced' i) ++ p')
    rw [he, he', List.append_assoc, List.append_assoc (markIf _ ++ p')]
    exact (h.marked _ _).append_right _ _
  | @later i ps ps' part h ih =>
    obtain ⟨p, qs, p', qs', rfl, rfl⟩ := h.exists_cons
    have hsep := hs (by simp)
    simp only [markParts, intercalate_cons_append, List.append_assoc]
    -- The equal part may already be marked in one row alone.
    by_cases hm : coerced i = coerced' i
    · rw [hm]
      have hrest := ih fun _ => hsep
      simp only [markParts] at hrest
      exact ((hrest.append_left sep).append_left part).append_left _
    · have hq := hsep.append_left part
      simpa only [List.append_assoc] using apart_markIf hq _ _ hm

theorem toList_codeText (reports : List Report) :
    (codeText reports).toList = reports.flatMap (·.code.toList) := by
  simp [codeText, List.flatMap_map]

theorem toList_codeText_joinReports (between : Report) (parts : List (List Report)) :
    (codeText (joinReports between parts)).toList =
      between.code.toList.intercalate (parts.map fun part => (codeText part).toList) := by
  simp only [toList_codeText]
  induction parts with
  | nil => rfl
  | cons part parts ih =>
    cases parts with
    | nil => simp [joinReports]
    | cons next parts => simp [joinReports, List.intercalate_cons_cons, ih]

theorem map_coerceParts (m : Mark) (coerced : List Nat) (i : Nat) (parts : List (List Report)) :
    (coerceParts m coerced i parts).map (fun part => (codeText part).toList) =
      markParts coerced.contains i (parts.map fun part => (codeText part).toList) := by
  induction parts generalizing i with
  | nil => rfl
  | cons part parts ih =>
    rw [coerceParts, List.map_cons, ih, List.map_cons, markParts]
    cases coerced.contains i <;> simp [toList_codeText, markIf, Mark.report]

theorem Node.text_of_render {n : Node} {depth : Int} {text : String}
    (h : n.render depth = .ok text) : text = n.text depth := by
  unfold render at h
  split at h
  · cases h
  · exact (Except.ok.inj h).symm

end Treewright
