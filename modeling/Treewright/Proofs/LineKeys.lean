import Mathlib.Order.Bounds.Basic
import Treewright.Proofs.ClosedScopes
import Treewright.Proofs.Spellings
set_option autoImplicit false

namespace Treewright

open Build

/-- The counter did not go back, and if it went on, then to a line that it may move to. -/
structure Moved (moves : Int → Prop) (c d : Context) : Prop where
  le : c.line ≤ d.line
  line : d.line = c.line ∨ moves d.line

theorem Moved.of_eq {moves : Int → Prop} {c d : Context} (h : d.line = c.line) : Moved moves c d :=
  ⟨h.ge, .inl h⟩

theorem Moved.trans {moves : Int → Prop} {c d e : Context} (h : Moved moves c d)
    (h' : Moved moves d e) : Moved moves c e where
  le := h.le.trans h'.le
  line := by
    rcases h'.line with he | hm
    · rw [he]
      exact h.line
    · exact .inr hm

theorem Context.line_leave? {c d : Context} (h : c.leave? = some d) : d.line = c.line :=
  congrArg Log.line (log_leave? h)

theorem Context.line_advanceTo (c : Context) (line : Int) :
    (c.advanceTo line).line = max c.line line := Log.line_advanceTo c.log line

theorem Moved.scope {moves : Int → Prop} {c d e : Context} {name : Name}
    (h : Moved moves (c.enter name) d) (hl : d.leave? = some e) : Moved moves c e := by
  have hline := Context.line_leave? hl
  exact ⟨hline ▸ h.le, hline ▸ h.line⟩

theorem contract_moved (moves : Int → Prop) :
    Contract moves (Moved moves) fun _ => Moved moves where
  refl _ := .of_eq rfl
  trans _ _ _ h h' := h.trans h'
  advance c line h := by
    have hmax := Context.line_advanceTo c line
    rcases Int.le_total line c.line with hle | hle
    · exact .of_eq (by omega)
    · rw [Int.max_eq_right hle] at hmax
      exact ⟨by omega, .inr (by rwa [hmax])⟩
  report c problems := .of_eq (contract_line.report c problems)
  declare c name _ line h := .of_eq (contract_line.declare c name line h)
  declareFunction c name _ _ line hp hr := .of_eq (contract_line.declareFunction c name line hp hr)
  scope h hl := h.scope hl
  line h := h
  chain h h' := h.trans h'
  define _ := .of_eq rfl
  body _ h hl := h.scope hl

theorem steps_moved : Steps (Moved fun _ => True) where
  refl _ := .of_eq rfl
  trans h h' := h.trans h'
  advance c _ := (contract_moved _).advance c trivial
  report := (contract_moved _).report
  declare := (contract_moved _).declare
  declareFunction := (contract_moved _).declareFunction
  define _ := .of_eq rfl
  scope h hl := h.scope hl

theorem Run.forward {task : Task} {c d : Context} {t : List Event} {ns : List Node}
    (h : Run task c t ns d) : c.line ≤ d.line := (h.respects steps_moved).le

theorem Action.exists_part_of_says {line : Int} {action a : Action} (h : action.isLined = false)
    (ha : a ∈ (Task.one action).actions) (hs : a.Says line) :
    ∃ part ∈ action.parts, part.2.Says line := by
  rwa [List.mem_singleton.mp ha, says_iff_of_unlined h] at hs

theorem Run.line_le {line : Int} {task : Task} {c d : Context} {t : List Event} {ns : List Node}
    (h : Run task c t ns d) : ∀ a ∈ task.actions, a.Says line → line ≤ d.line := by
  -- The line is said in one part of the run, and whatever runs after that part only goes forward.
  induction h with
  | nil | noBlock | noBinding | noLine => simp [Task.actions]
  | cons _ tail ih ih' =>
    intro a ha hs
    rcases List.mem_cons.mp ha with rfl | ha
    · exact (ih a (by simp [Task.actions]) hs).trans tail.forward
    · exact ih' a ha hs
  | block _ leave others ih ih' =>
    intro a ha hs
    simp only [Task.actions, List.flatMap_cons, List.mem_append] at ha
    rcases ha with ha | ha
    · exact ((ih a ha hs).trans (Context.line_leave? leave).ge).trans others.forward
    · exact ih' a ha hs
  | binding proper _ bound others ih ih' =>
    intro a ha hs
    simp only [Task.actions, List.flatMap_cons, List.mem_append] at ha
    rcases ha with ha | ha
    · exact ((ih a ha hs).trans (steps_moved.boundNode proper bound).le).trans others.forward
    · exact ih' a ha hs
  | line _ mark tail ih ih' =>
    intro a ha hs
    rcases List.mem_cons.mp ha with rfl | ha
    · have hline := ih a (by simp [Task.actions]) hs
      exact (hline.trans (steps_moved.mark mark).le).trans tail.forward
    · exact ih' a ha hs
  | @lined line' a _ c _ _ inner ih =>
    intro a' ha hs
    rw [List.mem_singleton.mp ha, Action.says_lined_iff] at hs
    rcases hs with rfl | hs
    · have hmax := Context.line_advanceTo c line'
      have hforward := inner.forward
      omega
    · exact ih a (by simp [Task.actions]) hs
  | check operands proper _ ih =>
    intro a ha hs
    have unlined := (Action.flawless_of_operands? operands).1
    obtain ⟨part, hp, hs⟩ := Action.exists_part_of_says unlined ha hs
    rw [Action.parts_of_operands? operands] at hp
    obtain ⟨a', ha', rfl⟩ := List.mem_map.mp hp
    exact (ih a' ha' hs).trans (steps_moved.made _ proper _ _).le
  | declaration _ _ ih =>
    intro a ha hs
    obtain ⟨part, hp, hs⟩ := Action.exists_part_of_says rfl ha hs
    simp only [Action.parts, List.mem_flatMap, List.mem_map] at hp
    obtain ⟨b, hb, a', ha', rfl⟩ := hp
    exact ih a' (List.mem_flatMap.mpr ⟨b, hb, ha'⟩) hs
  | @sizedArray type name size text _ _ _ d _ _ proper _ _ made ih =>
    intro a ha hs
    obtain ⟨part, hp, hs⟩ := Action.exists_part_of_says rfl ha hs
    obtain rfl := List.mem_singleton.mp hp
    have hmade := steps_moved.made (.arrayDecl type name text) proper [] d
    rw [made] at hmade
    exact (ih size (by simp [Task.actions]) hs).trans hmade.le
  | scope _ ih =>
    intro a ha hs
    obtain ⟨part, hp, hs⟩ := Action.exists_part_of_says rfl ha hs
    obtain ⟨a', ha', rfl⟩ := List.mem_map.mp hp
    exact ih a' (by simpa [Task.actions] using ha') hs
  | @conditional condition _ rejected _ _ _ _ _ _ _ _ _ _ _ inside made ih ih' =>
    intro a ha hs
    obtain ⟨part, hp, hs⟩ := Action.exists_part_of_says rfl ha hs
    refine Int.le_trans ?_ (steps_moved.conditional made).le
    rcases List.mem_cons.mp hp with rfl | hp
    · exact (ih condition (by simp [Task.actions]) hs).trans inside.forward
    · obtain ⟨a', ha', rfl⟩ := List.mem_map.mp hp
      exact ih' a' (by rwa [Task.actions, flatMap_branches]) hs
  | loop _ condition next inside leave made ih₁ ih₂ ih₃ ih₄ =>
    intro a ha hs
    obtain ⟨part, hp, hs⟩ := Action.exists_part_of_says rfl ha hs
    have hleave := Context.line_leave? leave
    have hmade := (steps_moved.loop made).le
    have hcondition := condition.forward
    have hnext := next.forward
    have hinside := inside.forward
    simp only [Action.parts, List.mem_append, List.mem_cons, List.mem_map, List.cons_append] at hp
    rcases hp with rfl | ⟨a', ha' | ha', rfl⟩ | ⟨a', ha', rfl⟩
    · have hline := ih₂ _ (by simp [Task.actions]) hs
      omega
    · have hline := ih₁ a' ha' hs
      omega
    · have hline := ih₃ a' ha' hs
      omega
    · have hline := ih₄ a' (by simpa [Task.actions] using ha') hs
      omega
  | prototype | emptyBody =>
    intro a ha hs
    obtain ⟨part, hp, -⟩ := Action.exists_part_of_says rfl ha hs
    cases hp
  | function _ _ _ leave ih =>
    intro a ha hs
    obtain ⟨part, hp, hs⟩ := Action.exists_part_of_says rfl ha hs
    obtain ⟨a', ha', rfl⟩ := List.mem_map.mp hp
    exact (ih a' ha' hs).trans (Context.line_leave? leave).ge

/-- A document builds from any context, and the counter ends on the greatest line of the actions in
it that are built. That is the greatest line of all actions in it if and only if no block that is
only opened has a greater one. -/
theorem line_greatest_iff {v : Value} {depth : Nat} (h : v.isLoose depth = true) (c : Context) :
    ∃ node d, exec (build (Action.ofValue v)) c = (.ok node, d) ∧
      IsGreatest (insert c.line {line | Notes line .built .built v}) d.line ∧
      (IsGreatest (insert c.line {line | ∃ how, Notes line how .built v}) d.line ↔
        ∀ line, Notes line .opened .built v → line ≤ d.line) := by
  have checked : Checked depth (.built, v) := ⟨h, by simp⟩
  have fits : (Action.ofValue v).Fits flawless .item := checked.fits _ (by simp [actionsOf])
  have said (line : Int) : (Action.ofValue v).Says line ↔ Notes line .built .built v := by
    simpa [actionsOf] using checked.says_iff
  obtain ⟨t, node, d, run⟩ := fits.total c
  have hexec : exec (build (Action.ofValue v)) c = (.ok node, d) :=
    exec_one_node.mp (exec_of_run run)
  have moved : Moved (fun line => (Action.ofValue v).Says line) c d := by
    have hkeeps := ((contract_moved _).keeps_build fits (fun _ hs => hs) c).1
    rwa [hexec] at hkeeps
  have greatest : IsGreatest (insert c.line {line | Notes line .built .built v}) d.line := by
    constructor
    · exact moved.line.imp_right (said _).mp
    · intro line hline
      rcases hline with rfl | hline
      · exact moved.le
      · exact run.line_le _ (by simp [Task.actions]) ((said line).mpr hline)
  refine ⟨node, d, hexec, greatest, ?_⟩
  constructor
  · intro hall line hline
    exact hall.2 (.inr ⟨.opened, hline⟩)
  · intro hopened
    refine ⟨greatest.1.imp_right fun hline => ⟨.built, hline⟩, fun line hline => ?_⟩
    rcases hline with rfl | ⟨how, hline⟩
    · exact moved.le
    · cases how with
      | built => exact greatest.2 (.inr hline)
      | opened => exact hopened line hline

def choice : Value :=
  .object [("node", .string "if"), ("line", .int 3),
    ("condition", .object [("node", .string "const"), ("type", .string "bool"),
      ("value", .string "true")]),
    ("then", .object [("node", .string "block"), ("line", .int 5),
      ("lines", .list [.object [("node", .string "nop"), ("line", .int 4)]])]),
    ("else", .object [("node", .string "array_decl"), ("type", .string "int"),
      ("name", .string "a"),
      ("size", .object [("node", .string "const"), ("type", .string "int"), ("value", .string "2"),
        ("line", .int 9)])])]

theorem line_greatest_iff_choice :
    choice.isLoose 3 = true ∧ Notes 5 .opened .built choice ∧
      ∃ node d, exec (build (Action.ofValue choice)) {} = (.ok node, d) ∧ d.line = 9 ∧
        IsGreatest (insert 1 {line | Notes line .built .built choice}) d.line ∧
        IsGreatest (insert 1 {line | ∃ how, Notes line how .built choice}) d.line := by
  obtain ⟨loose, hnotes, hline⟩ : choice.isLoose 3 = true ∧
      notes .opened 3 (.built, choice) = [5] ∧
      (exec (build (Action.ofValue choice)) {}).2.line = 9 := by decide +kernel
  have noted (line : Int) : Notes line .opened .built choice ↔ line = 5 := by
    rw [← Value.mem_notes_iff loose, hnotes, List.mem_singleton]
  obtain ⟨node, d, hexec, built, all⟩ := line_greatest_iff loose {}
  rw [hexec] at hline
  refine ⟨loose, (noted 5).mpr rfl, node, d, hexec, hline, built, all.mpr fun line h => ?_⟩
  rw [(noted line).mp h, hline]
  decide

def farBlock : Value :=
  .object [("node", .string "if"),
    ("condition", .object [("node", .string "const"), ("type", .string "bool"),
      ("value", .string "true")]),
    ("then", .object [("node", .string "block"), ("line", .int 50), ("lines", .list [])])]

theorem far_line_passed_over :
    farBlock.isLoose 2 = true ∧ Notes 50 .opened .built farBlock ∧
      ∃ node d, exec (build (Action.ofValue farBlock)) {} = (.ok node, d) ∧ d.line = 1 ∧
        ¬IsGreatest (insert 1 {line | ∃ how, Notes line how .built farBlock}) d.line := by
  obtain ⟨loose, hnotes, hok, hline⟩ : farBlock.isLoose 2 = true ∧
      notes .opened 2 (.built, farBlock) = [50] ∧
      (exec (build (Action.ofValue farBlock)) {}).1.isOk = true ∧
      (exec (build (Action.ofValue farBlock)) {}).2.line = 1 := by decide +kernel
  have noted : Notes 50 .opened .built farBlock := by
    rw [← Value.mem_notes_iff loose, hnotes]
    exact List.mem_singleton_self _
  obtain ⟨node, hexec⟩ := exec_of_isOk hok
  refine ⟨loose, noted, node, _, hexec, hline, fun all => ?_⟩
  have hle := all.2 (.inr ⟨.opened, noted⟩)
  rw [hline] at hle
  exact absurd hle (by decide)

end Treewright
