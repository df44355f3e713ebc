import Treewright.Proofs.Layout
set_option autoImplicit false

namespace Treewright

open Build

/-- Four blanks for each level before the line, unless it is empty. -/
def shiftLine (depth : Nat) (line : List Char) : List Char :=
  if line = [] then [] else List.replicate (4 * depth) ' ' ++ line

/-- The text with all its lines moved to the right. -/
def shift (depth : Nat) (text : List Char) : List Char :=
  ['\n'].intercalate ((text.splitOn '\n').map (shiftLine depth))

/-- Something that is not empty and stays on its line. -/
def isLine (s : String) : Bool := s ≠ "" && s.toList.all (· ≠ '\n')

theorem isInner_unbroken (c : Char) (h : isInner c = true) : decide (c ≠ '\n') = true := by
  rw [isInner, Bool.and_eq_true] at h
  exact h.1

def Fabric.unbroken : Fabric := .ofClass (· ≠ '\n') isInner_unbroken false

theorem takes_isLine : Fabric.unbroken.Takes isLine := by
  intro s h
  rw [isLine, Bool.and_eq_true, decide_eq_true_eq] at h
  exact ⟨h.2, .inr (by simpa using h.1)⟩

theorem Line.shown_of_ne_nil {level : Nat} {text : List Char} (h : text ≠ []) (depth : Nat) :
    (Line.row level text).shown depth = shiftLine depth ((Line.row level text).shown 0) := by
  have deep : (depth + level : Int).toNat = depth + level := by omega
  have here : (0 + level : Int).toNat = level := by omega
  rw [shiftLine, if_neg (by simp [Line.shown, h]), Line.shown, Line.shown, toList_indentation,
    toList_indentation, deep, here, ← List.append_assoc, List.replicate_append_replicate,
    ← Nat.mul_add]

theorem Rows.shown_eq_shiftLine {level last : Nat} {rows : List Line}
    (h : Rows .unbroken level rows last) (depth : Nat) :
    rows.map (Line.shown depth) = (rows.map (Line.shown 0)).map (shiftLine depth) := by
  induction h with
  | nil => rfl
  | blank _ ih => exact congrArg _ ih
  | flat row _ ih =>
    have ne := row.2.resolve_left Bool.false_ne_true
    exact congrArg₂ _ (Line.shown_of_ne_nil ne depth) ih
  | opens _ _ ih => exact congrArg₂ _ (Line.shown_of_ne_nil (by simp) depth) ih
  | turns _ ih | closes _ ih => exact congrArg₂ _ (Line.shown_of_ne_nil (by simp) depth) ih

theorem Node.Tidy.toList_text {n : Node} (h : n.Tidy .unbroken) (depth : Nat) :
    (n.text depth).toList = shift depth (n.text 0).toList := by
  obtain ⟨rows, hne, hrows, text⟩ := h
  have inside (s : List Char) (h : Fabric.unbroken.Within s) : '\n' ∉ s := fun hc =>
    absurd (List.all_eq_true.mp h _ hc) (by decide)
  rw [shift, text 0, List.splitOn_intercalate '\n' (hrows.unbroken inside 0) (by simpa using hne),
    text, hrows.shown_eq_shiftLine]

/-- An action with values in its expressions, loop headers that stay on their lines, and names,
values and sizes that are not empty and stay on theirs, is built from any context. What it renders
at a depth is what it renders at the top, with four blanks for each level before each line that is
not empty. -/
theorem render_eq_shift {position : Position} {action : Action}
    (fits : action.Fits layout position) (spelled : action.Spells isLine) (c : Context) :
    ∃ n d code, exec (build action) c = (.ok n, d) ∧ n.render 0 = .ok code ∧
      ∀ depth : Nat, n.render depth = .ok (String.ofList (shift depth code.toList)) := by
  obtain ⟨t, n, d, run⟩ := (fits.imp layout_flawless fun _ _ => layout_flawless).total c
  have renders : n.fault? = none := run.renders n (by simp)
  have tidy := (fits.places spelled c d t n run).statement.tidy takes_isLine rfl
  refine ⟨n, d, n.text 0, exec_one_node.mp (exec_of_run run), by rw [Node.render, renders], ?_⟩
  intro depth
  rw [Node.render, renders, ← tidy.toList_text depth, String.ofList_toList]

/-- A loop with two names, one of which is spelled with a brace. A line of its body renders
nothing. -/
def sweep : Value :=
  let i := Value.object [("node", .string "var"), ("name", .string "i")]
  let n := Value.object [("node", .string "var"), ("name", .string "n \x7d")]
  let zero :=
    Value.object [("node", .string "const"), ("type", .string "int"), ("value", .string "0")]
  .object [("node", .string "for"),
    ("init", .object [("node", .string "declaration"), ("type", .string "int"),
      ("bindings", .list [.object [("name", .string "i"), ("init", zero)],
        .object [("name", .string "n \x7d")]])]),
    ("test", .object [("node", .string "op"), ("op", .string "<"), ("operands", .list [i, n])]),
    ("body", .list [
      .object [("node", .string "declaration"), ("type", .string "int"), ("bindings", .list [])],
      .object [("node", .string "if"), ("condition", i), ("then", .list []),
        ("else", .list [.object [("node", .string "return"), ("operand", i)]])]])]

theorem render_eq_shift_sweep :
    (Action.ofValue sweep).Fits layout .item ∧ (Action.ofValue sweep).Spells isLine ∧
      ∃ n d code, exec (build (.ofValue sweep)) {} = (.ok n, d) ∧ n.render 0 = .ok code ∧
        code = "for (int i = 0, n \x7d; (i < n \x7d); ) \x7b\n\n    if (i) \x7b\n" ++
          "    \x7d else \x7b\n        return i;\n    \x7d\n\x7d" ∧
        ∀ depth : Nat, n.render depth = .ok (String.ofList (shift depth code.toList)) := by
  obtain ⟨hconforms, hspells, text⟩ : sweep.conforms layout 5 .item = true ∧
      (Action.ofValue sweep).spells isLine 5 = true ∧
      (exec (build (.ofValue sweep)) {}).1.toOption.bind (fun n => (n.render 0).toOption) =
        some ("for (int i = 0, n \x7d; (i < n \x7d); ) \x7b\n\n    if (i) \x7b\n" ++
          "    \x7d else \x7b\n        return i;\n    \x7d\n\x7d") := by decide +kernel
  have fits : (Action.ofValue sweep).Fits layout .item := (Conforms.of_check hconforms).fits rfl
  have spelled : (Action.ofValue sweep).Spells isLine := .of_check hspells
  obtain ⟨n, d, code, built, rendered, shifted⟩ := render_eq_shift fits spelled {}
  refine ⟨fits, spelled, n, d, code, built, rendered, ?_, shifted⟩
  rw [built] at text
  simpa [Except.toOption, rendered] using text

end Treewright
