import Treewright.Proofs.Effects
import Treewright.Proofs.Texts
set_option autoImplicit false

namespace Treewright

@[simp] theorem Mark.report_code (m : Mark) (message code : String) :
    (m.report message code).code = code := rfl

@[simp] theorem toList_codeText_nil : (codeText []).toList = [] := by simp [toList_codeText]

@[simp] theorem toList_codeText_cons (report : Report) (reports : List Report) :
    (codeText (report :: reports)).toList = report.code.toList ++ (codeText reports).toList := by
  simp [toList_codeText]

@[simp] theorem toList_codeText_append (reports reports' : List Report) :
    (codeText (reports ++ reports')).toList =
      (codeText reports).toList ++ (codeText reports').toList := by
  simp [toList_codeText]

inductive Parted (R : Node → Node → Prop) : List Node → List Node → Prop where
  | here {n m : Node} (h : R n m) (ns ms : List Node) : Parted R (n :: ns) (m :: ms)
  | later {ns ms : List Node} (n : Node) (h : Parted R ns ms) : Parted R (n :: ns) (n :: ms)

namespace Node

def isDeclaration : Node → Bool
  | .mk _ (.declaration ..) => true
  | _ => false

structure Diverges (n m : Node) : Prop where
  code : ∀ depth, Fork (n.text depth).toList (m.text depth).toList
  isOperation : n.isOperation = m.isOperation
  header : Apart (headerText (some n)).toList (headerText (some m)).toList

theorem headerText_some {n : Node} (h : n.isDeclaration = false) :
    headerText (some n) = dropSemicolons (n.text 0) := by
  obtain ⟨mark, form⟩ := n
  cases form with
  | declaration => cases h
  | _ => simp only [headerText, text]

theorem Diverges.intro {n m : Node}
    (code : ∀ depth, Fork (n.text depth).toList (m.text depth).toList)
    (isOperation : n.isOperation = m.isOperation) (hn : n.isDeclaration = false)
    (hm : m.isDeclaration = false) : n.Diverges m where
  code := code
  isOperation := isOperation
  header := by
    rw [headerText_some hn, headerText_some hm]
    exact (code 0).apart.dropSemicolons

theorem Diverges.nonempty {n m : Node} (h : n.Diverges m) :
    n.isEmpty = false ∧ m.isEmpty = false := by
  obtain ⟨q, s, t, hn, hm, ⟨x, hx, -⟩, -⟩ := h.code 0
  constructor
  · rw [Bool.eq_false_iff]
    intro he
    rw [text_of_isEmpty he] at hn
    cases (List.append_eq_nil_iff.mp hn.symm).1 ▸ hx
  · rw [Bool.eq_false_iff]
    intro he
    rw [text_of_isEmpty he] at hm
    cases (List.append_eq_nil_iff.mp hm.symm).1 ▸ hx

end Node

namespace Parted

open Node

variable {ns ms : List Node}

theorem splits (h : Parted Diverges ns ms) (coerced coerced' : Nat → Bool) (i : Nat) (depth : Int) :
    Splits coerced coerced' i (ns.map fun n => (n.text depth).toList)
      (ms.map fun n => (n.text depth).toList) := by
  induction h generalizing i with
  | here h ns ms => exact .part (h.code depth) _ _
  | later n _ ih => exact .later _ (ih (i + 1))

theorem intercalate {R : Node → Node → Prop} {P : List Char → List Char → Prop}
    {f : Node → List Char} (h : Parted R ns ms) (hf : ∀ n m, R n m → P (f n) (f m))
    (left : ∀ s t q, P s t → P (q ++ s) (q ++ t))
    (right : ∀ s t e e', P s t → P (s ++ e) (t ++ e')) (sep : List Char) :
    P (sep.intercalate (ns.map f)) (sep.intercalate (ms.map f)) := by
  induction h with
  | @here n m h ns ms =>
    obtain ⟨rest, he⟩ := exists_intercalate_cons sep (ns.map f) (f n)
    obtain ⟨rest', he'⟩ := exists_intercalate_cons sep (ms.map f) (f m)
    rw [List.map_cons, List.map_cons, he, he']
    exact right _ _ rest rest' (hf n m h)
  | later n h ih =>
    cases h with
    | here | later =>
      simp only [List.map_cons, List.intercalate_cons_cons] at ih ⊢
      exact left _ _ _ ih

theorem fork (h : Parted Diverges ns ms) (sep : List Char) (depth : Int) :
    Fork (sep.intercalate (ns.map fun n => (n.text depth).toList))
      (sep.intercalate (ms.map fun n => (n.text depth).toList)) :=
  h.intercalate (fun _ _ h => h.code depth) (fun _ _ q h => h.append_left q)
    (fun _ _ e e' h => h.append_right e e') sep

theorem mono {R R' : Node → Node → Prop} (h : Parted R ns ms) (himp : ∀ n m, R n m → R' n m) :
    Parted R' ns ms := by
  induction h with
  | here h ns ms => exact .here (himp _ _ h) ns ms
  | later n _ ih => exact .later n ih

theorem head? {R : Node → Node → Prop} (h : Parted R ns ms) (hn : ns.length ≤ 1) :
    ∃ n m, ns.head? = some n ∧ ms.head? = some m ∧ R n m := by
  cases h with
  | here h _ _ => exact ⟨_, _, rfl, rfl, h⟩
  | later n h =>
    cases h with
    | here | later => simp at hn

theorem single {R : Node → Node → Prop} {n m : Node} (h : Parted R [n] [m]) : R n m := by
  cases h with
  | here h => exact h
  | later _ h => cases h

theorem filter (h : Parted Diverges ns ms) :
    Parted Diverges (ns.filter (!·.isEmpty)) (ms.filter (!·.isEmpty)) := by
  induction h with
  | here h ns ms =>
    obtain ⟨hn, hm⟩ := h.nonempty
    simp only [List.filter_cons, hn, hm, Bool.not_false, if_true]
    exact .here h _ _
  | later n _ ih =>
    simp only [List.filter_cons]
    split
    · exact .later n ih
    · exact ih

end Parted

namespace Node

theorem map_coerceParts_reportsAll (mark : Mark) (coerced : List Nat) (ns : List Node) :
    (coerceParts mark coerced 0 (reportsAll 0 ns)).map (fun part => (codeText part).toList) =
      markParts coerced.contains 0 (ns.map fun n => (n.text 0).toList) := by
  rw [map_coerceParts, reportsAll_eq_map, List.map_map]
  rfl

theorem toList_text_operation (mark : Mark) (style : Style) (op : Op) (ns : List Node)
    (expected : Ty) (result : Option Ty) (coerced : List Nat) (failed : Bool) (depth : Int) :
    (text (.mk mark (.operation style op ns expected result coerced failed)) depth).toList =
      (indentation depth ++ "(" ++ if ns.length = 1 then style.before op else "").toList ++
        ((" " ++ style.glyph op ++ " ").toList.intercalate
          (markParts coerced.contains 0 (ns.map fun n => (n.text 0).toList)) ++ [')']) := by
  rw [← map_coerceParts_reportsAll mark]
  simp only [text, reports]
  split
  · rename_i h
    obtain ⟨n, rfl⟩ := List.length_eq_one_iff.mp h
    simp [coerceParts, reportsAll]
  · simp [toList_codeText_joinReports]

theorem toList_text_call (mark mark' : Mark) (name : Name) (ns : List Node) (type : Ty)
    (coerced : List Nat) (failed : Bool) (depth : Int) :
    (text (.mk mark (.call name (.mk mark' (.arguments ns)) type coerced failed)) depth).toList =
      (indentation depth ++ name.written ++ "(").toList ++
        (", ".toList.intercalate
          (markParts coerced.contains 0 (ns.map fun n => (n.text 0).toList)) ++ [')']) := by
  rw [← map_coerceParts_reportsAll mark]
  simp [text, reports, argumentReports, toList_codeText_joinReports]

namespace Diverges

variable {mark mark' : Mark}

theorem block {title title' : String} {ns ms : List Node} (h : Parted Diverges ns ms) :
    Diverges (.mk mark (.block title ns)) (.mk mark' (.block title' ms)) := by
  refine .intro (fun depth => ?_) rfl rfl rfl
  simp only [text, reports, lineReports_eq_map, toList_codeText_joinReports, List.map_map]
  exact (Parted.filter h).fork _ depth

theorem operation {style : Style} {op : Op} {ns ms : List Node} {expected expected' : Ty}
    {result result' : Option Ty} {coerced coerced' : List Nat} {failed failed' : Bool}
    (h : Parted Diverges ns ms) (hlen : ns.length = ms.length)
    (hs : 1 < ns.length → Anchored (" " ++ style.glyph op ++ " ").toList) :
    Diverges (.mk mark (.operation style op ns expected result coerced failed))
      (.mk mark' (.operation style op ms expected' result' coerced' failed')) := by
  refine .intro (fun depth => ?_) rfl rfl rfl
  rw [toList_text_operation, toList_text_operation, hlen]
  refine Apart.fork (Splits.apart (h.splits _ _ 0 0) (by simpa using hs) ?_) ?_
  · exact ⟨')', by simp, by decide⟩
  · exact ⟨'(', by simp, by decide⟩

theorem call {args args' : Mark} {name : Name} {ns ms : List Node} {type type' : Ty}
    {coerced coerced' : List Nat} {failed failed' : Bool}
    (h : Splits coerced.contains coerced'.contains 0 (ns.map fun n => (n.text 0).toList)
      (ms.map fun n => (n.text 0).toList)) :
    Diverges (.mk mark (.call name (.mk args (.arguments ns)) type coerced failed))
      (.mk mark' (.call name (.mk args' (.arguments ms)) type' coerced' failed')) := by
  refine .intro (fun depth => ?_) rfl rfl rfl
  rw [toList_text_call, toList_text_call]
  refine Apart.fork (h.apart (fun _ => ?_) ?_) ?_
  · exact ⟨',', by simp, by decide⟩
  · exact ⟨')', by simp, by decide⟩
  · exact ⟨'(', by simp, by decide⟩

theorem assignment {target target' value value' : Node} {coerced coerced' failed failed' : Bool}
    (h : Parted Diverges [target, value] [target', value']) :
    Diverges (.mk mark (.assignment target value coerced failed))
      (.mk mark' (.assignment target' value' coerced' failed')) := by
  refine .intro (fun depth => ?_) rfl rfl rfl
  have hmark (b : Bool) : (if b then coercionMark else "").toList = markIf b := by
    cases b <;> rfl
  cases h with
  | here h =>
    have hcode := ((h.code 0).append_left (indentation depth).toList).append_right
      (" = ".toList ++ markIf coerced ++ (value.text 0).toList ++ ";".toList)
      (" = ".toList ++ markIf coerced' ++ (value'.text 0).toList ++ ";".toList)
    simpa [text, reports, hmark] using hcode
  | later _ h =>
    have hvalue := ((h.single.code 0).marked coerced coerced').append_right ";".toList ";".toList
    have hcode := hvalue.fork
      (q := (indentation depth).toList ++ (target.text 0).toList ++ " = ".toList)
      ⟨'=', by simp, by decide⟩
    simpa [text, reports, hmark] using hcode

theorem access {name : Name} {index index' : Node} {type type' : Ty} {failed failed' : Bool}
    (h : index.Diverges index') :
    Diverges (.mk mark (.access name index type failed))
      (.mk mark' (.access name index' type' failed')) := by
  refine .intro (fun depth => ?_) rfl rfl rfl
  have hcode := ((h.code 0).append_left
    (indentation depth ++ name.written ++ "[").toList).append_right "]".toList "]".toList
  simpa [text, reports] using hcode

theorem wrapper {wrap : Wrap} {target target' : Node} {type type' : Ty} {failed failed' : Bool}
    (h : target.Diverges target') :
    Diverges (.mk mark (.wrapper wrap target type failed))
      (.mk mark' (.wrapper wrap target' type' failed')) := by
  refine .intro (fun depth => ?_) rfl rfl rfl
  have hcode := (h.code 0).append_left (indentation depth ++ wrap.glyph).toList
  simpa [text, reports] using hcode

theorem ret {operand operand' : Node} (h : operand.Diverges operand') :
    Diverges (.mk mark (.ret (some operand))) (.mk mark' (.ret (some operand'))) := by
  refine .intro (fun depth => ?_) rfl rfl rfl
  have hcode := ((h.code 0).append_left (indentation depth ++ "return ").toList).append_right
    ";".toList ";".toList
  simpa [text, reports, optionReports] using hcode

theorem binding {type : Ty} {name : Name} {value value' : Node} {failed failed' : Bool}
    (h : value.Diverges value') :
    Diverges (.mk mark (.binding type name (some value) failed))
      (.mk mark' (.binding type name (some value') failed')) := by
  refine .intro (fun depth => ?_) rfl rfl rfl
  have hcode := ((h.code 0).append_left
    (indentation depth ++ type.spelling ++ " " ++ name.written ++ " = ").toList).append_right
      ";".toList ";".toList
  simpa [text, reports, optionReports] using hcode

theorem arrayDecl {type : Ty} {name : Name} {size size' : String} {failed failed' : Bool}
    (h : Fork size.toList size'.toList) :
    Diverges (.mk mark (.arrayDecl type name size failed))
      (.mk mark' (.arrayDecl type name size' failed')) := by
  refine .intro (fun depth => ?_) rfl rfl rfl
  have hcode := (h.append_left
    (indentation depth ++ type.spelling ++ " " ++ name.written ++ "[").toList).append_right
      "];".toList "];".toList
  simpa [text, reports] using hcode

end Diverges

inductive BoundApart (type : Ty) : Node → Node → Prop where
  | intro {mark mark' : Mark} {name : Name} {value value' : Node} {failed failed' : Bool}
      (h : value.Diverges value') :
      BoundApart type (.mk mark (.binding type name (some value) failed))
        (.mk mark' (.binding type name (some value') failed'))

namespace BoundApart

variable {type : Ty} {n m : Node}

theorem diverges (h : BoundApart type n m) : n.Diverges m := by
  cases h with
  | intro h => exact .binding h

theorem dropFront (h : BoundApart type n m) :
    Apart (dropFront (type.spelling ++ " ") (dropSemicolons (n.text 0))).toList
      (dropFront (type.spelling ++ " ") (dropSemicolons (m.text 0))).toList := by
  obtain @⟨mark, mark', name, value, value', failed, failed', h⟩ := h
  have hvalue : Apart (value.text 0 ++ ";").toList (value'.text 0 ++ ";").toList := by
    simpa using (h.code 0).apart.append_right [';'] [';']
  have htext (mark : Mark) (v : Node) (failed : Bool) (hv : Lasting (v.text 0 ++ ";").toList) :
      (Treewright.dropFront (type.spelling ++ " ")
        (dropSemicolons (text (.mk mark (.binding type name (some v) failed)) 0))).toList =
      (name.written ++ " = ").toList ++ (dropSemicolons (v.text 0 ++ ";")).toList := by
    refine toList_dropFront ?_
    rw [toList_dropSemicolons (q := (type.spelling ++ " " ++ name.written ++ " = ").toList) ?_ hv]
    · simp
    · simp [text, reports, optionReports, indentation]
  rw [htext mark value failed hvalue.lasting, htext mark' value' failed' hvalue.symm.lasting]
  exact hvalue.dropSemicolons.append_left _

end BoundApart

theorem headerText_declaration (mark : Mark) (type : Ty) (kind symbolType : String)
    (ns : List Node) :
    headerText (some (.mk mark (.declaration type kind symbolType ns))) =
      joinBindings type (ns.map (·.text 0)) := by
  simp [headerText, reportsAll_eq_map, Function.comp_def, text]

theorem toList_joinBindings (type : Ty) (b : String) (bs : List String) :
    (joinBindings type (b :: bs)).toList = ", ".toList.intercalate ((dropSemicolons b).toList ::
      bs.map fun t => (dropFront (type.spelling ++ " ") (dropSemicolons t)).toList) := by
  simp [joinBindings, String.toList_intercalate, Function.comp_def]

theorem Diverges.declaration {mark mark' : Mark} {type : Ty}
    {kind kind' symbolType symbolType' : String} {ns ms : List Node}
    (h : Parted (BoundApart type) ns ms) :
    Diverges (.mk mark (.declaration type kind symbolType ns))
      (.mk mark' (.declaration type kind' symbolType' ms)) where
  code depth := by
    have hcode := (h.mono fun _ _ h => h.diverges).fork "\n".toList depth
    simpa [text, reports, toList_codeText_joinReports, reportsAll_eq_map, Function.comp_def]
      using hcode
  isOperation := rfl
  header := by
    rw [headerText_declaration, headerText_declaration]
    -- In a header the first binding alone names the type, so the others are cut at their front.
    cases h with
    | @here n m h ns ms =>
      rw [List.map_cons, List.map_cons, toList_joinBindings, toList_joinBindings]
      obtain ⟨rest, he⟩ := exists_intercalate_cons ", ".toList
        ((ns.map (·.text 0)).map fun t =>
          (dropFront (type.spelling ++ " ") (dropSemicolons t)).toList)
        (dropSemicolons (n.text 0)).toList
      obtain ⟨rest', he'⟩ := exists_intercalate_cons ", ".toList
        ((ms.map (·.text 0)).map fun t =>
          (dropFront (type.spelling ++ " ") (dropSemicolons t)).toList)
        (dropSemicolons (m.text 0)).toList
      rw [he, he']
      exact ((h.diverges.code 0).apart.dropSemicolons).append_right rest rest'
    | later n h =>
      have hrest := h.intercalate (fun _ _ h => h.dropFront) (fun _ _ q h => h.append_left q)
        (fun _ _ e e' h => h.append_right e e') ", ".toList
      rw [List.map_cons, List.map_cons, toList_joinBindings, toList_joinBindings, List.map_map,
        List.map_map]
      cases h with
      | here | later =>
        simp only [List.map_cons] at hrest ⊢
        rw [List.intercalate_cons_cons, List.intercalate_cons_cons]
        exact hrest.append_left _

/-- A block between braces, with the line end that follows it. -/
def nestedText (depth : Int) (n : Node) : List Char :=
  if n.isEmpty then [] else (n.text depth).toList ++ ['\n']

theorem toList_codeText_nested (mark : Mark) (depth : Int) (n : Node) :
    (codeText (nested mark n.isEmpty (n.reports depth))).toList = nestedText depth n := by
  unfold nested nestedText
  split <;> simp [text]

namespace Diverges

variable {mark mark' : Mark}

theorem nestedText {n m : Node} (h : n.Diverges m) (depth : Int) :
    Fork (nestedText depth n) (nestedText depth m) := by
  obtain ⟨hn, hm⟩ := h.nonempty
  simpa [Node.nestedText, hn, hm] using (h.code depth).append_right ['\n'] ['\n']

theorem function {returns : Ty} {name : Value} {params : Option Node} {body body' : Node}
    {failed failed' : Bool} (h : body.Diverges body') :
    Diverges (.mk mark (.function returns name params (some body) failed))
      (.mk mark' (.function returns name params (some body') failed')) := by
  refine .intro (fun depth => ?_) rfl rfl rfl
  have hcode := ((h.nestedText (depth + 1)).append_left
    ((indentation depth ++ returns.spelling ++ " " ++ name.text ++ "(").toList ++
      (codeText (optionReports 0 params)).toList ++ ") \x7b\n".toList)).append_right
      (indentation depth ++ "\x7d").toList (indentation depth ++ "\x7d").toList
  simpa [text, reports, optionReports, optionEmpty, toList_codeText_nested] using hcode

end Diverges

theorem toList_text_conditional (mark : Mark) (condition accepted : Node) (rejected : Option Node)
    (failed : Bool) (depth : Int) :
    (text (.mk mark (.conditional condition accepted rejected failed)) depth).toList =
      (indentation depth ++ "if ").toList ++
        ((if condition.isOperation then (condition.text 0).toList
            else '(' :: ((condition.text 0).toList ++ [')'])) ++
          (" \x7b\n".toList ++ (nestedText (depth + 1) accepted ++
            ((rejected.map fun n => (indentation depth ++ "\x7d else \x7b\n").toList ++
              nestedText (depth + 1) n).getD [] ++ (indentation depth ++ "\x7d").toList)))) := by
  cases rejected <;> cases h : condition.isOperation <;>
    simp [text, reports, optionReports, optionEmpty, toList_codeText_nested, h]

theorem toList_text_loop (mark : Mark) (init update : Option Node) (test body : Node)
    (failed : Bool) (depth : Int) :
    (text (.mk mark (.loop init test update body failed)) depth).toList =
      (indentation depth ++ "for (").toList ++
        ((headerText init).toList ++ ("; ".toList ++ ((test.text 0).toList ++ ("; ".toList ++
          ((headerText update).toList ++ (") \x7b\n".toList ++ (nestedText (depth + 1) body ++
            (indentation depth ++ "\x7d").toList))))))) := by
  simp [text, reports, toList_codeText_nested]

namespace Diverges

variable {mark mark' : Mark} {failed failed' : Bool}

section Conditional

variable {condition condition' accepted accepted' : Node} {rejected rejected' : Option Node}

theorem conditional_test (h : condition.Diverges condition') :
    Diverges (.mk mark (.conditional condition accepted rejected failed))
      (.mk mark' (.conditional condition' accepted' rejected' failed')) := by
  refine .intro (fun depth => ?_) rfl rfl rfl
  rw [toList_text_conditional, toList_text_conditional, ← h.isOperation]
  refine Fork.append_left ?_ _
  split
  · exact (h.code 0).append_right _ _
  · exact (((h.code 0).append_right _ _).append_left ['(']).append_right _ _

theorem conditional_accepted (h : accepted.Diverges accepted') :
    Diverges (.mk mark (.conditional condition accepted rejected failed))
      (.mk mark' (.conditional condition accepted' rejected' failed')) := by
  refine .intro (fun depth => ?_) rfl rfl rfl
  rw [toList_text_conditional, toList_text_conditional]
  iterate 3 refine Fork.append_left ?_ _
  exact (h.nestedText (depth + 1)).append_right _ _

theorem conditional_rejected {n m : Node} (h : n.Diverges m) :
    Diverges (.mk mark (.conditional condition accepted (some n) failed))
      (.mk mark' (.conditional condition accepted (some m) failed')) := by
  refine .intro (fun depth => ?_) rfl rfl rfl
  rw [toList_text_conditional, toList_text_conditional]
  iterate 4 refine Fork.append_left ?_ _
  exact ((h.nestedText (depth + 1)).append_left _).append_right _ _

end Conditional

section Loop

variable {init init' update update' : Option Node} {test test' body body' : Node}

theorem anchored_for (depth : Int) : Anchored (indentation depth ++ "for (").toList :=
  ⟨'(', by simp, by decide⟩

theorem loop_init {n m : Node} (h : n.Diverges m) :
    Diverges (.mk mark (.loop (some n) test update body failed))
      (.mk mark' (.loop (some m) test' update' body' failed')) := by
  refine .intro (fun depth => ?_) rfl rfl rfl
  rw [toList_text_loop, toList_text_loop]
  exact (h.header.append_right _ _).fork (anchored_for depth)

theorem loop_test (h : test.Diverges test') :
    Diverges (.mk mark (.loop init test update body failed))
      (.mk mark' (.loop init test' update' body' failed')) := by
  refine .intro (fun depth => ?_) rfl rfl rfl
  rw [toList_text_loop, toList_text_loop]
  iterate 3 refine Fork.append_left ?_ _
  exact (h.code 0).append_right _ _

theorem loop_update {n m : Node} (h : n.Diverges m) :
    Diverges (.mk mark (.loop init test (some n) body failed))
      (.mk mark' (.loop init test (some m) body' failed')) := by
  refine .intro (fun depth => ?_) rfl rfl rfl
  rw [toList_text_loop, toList_text_loop]
  refine Apart.fork ?_ (anchored_for depth)
  iterate 4 refine Apart.append_left ?_ _
  exact h.header.append_right _ _

theorem loop_body (h : body.Diverges body') :
    Diverges (.mk mark (.loop init test update body failed))
      (.mk mark' (.loop init test update body' failed')) := by
  refine .intro (fun depth => ?_) rfl rfl rfl
  rw [toList_text_loop, toList_text_loop]
  iterate 7 refine Fork.append_left ?_ _
  exact (h.nestedText (depth + 1)).append_right _ _

end Loop

end Diverges
end Node
end Treewright
