import Treewright.Proofs.Run
import Treewright.Session
set_option autoImplicit false

namespace Treewright

open Build

namespace Session

theorem tick_of_building {s : Session} {action : Action} {rest : List Action}
    (hb : s.building = some (action :: rest)) :
    s.tick = match exec (build action) s.context with
      | (.error fault, context) => (.error (.build fault), { s with context, building := some [] })
      | (.ok node, context) =>
        (.ok (some ⟨node.label, node.error, context.log.diagnostics.drop s.diagnostics.length⟩),
          { s with context, lines := s.lines ++ [node], building := some rest }) := by
  unfold tick
  rw [hb]
  rfl

theorem ticks_ok {s s' : Session} {rest : List Action} (hb : s.building = some rest) :
    s.ticks rest.length = (.ok (), s') ↔
      ∃ nodes d, exec (buildAll rest) s.context = (.ok nodes, d) ∧
        s' = { s with context := d, lines := s.lines ++ nodes, building := some [] } := by
  induction rest generalizing s with
  | nil =>
    simp only [List.length_nil, ticks, buildAll, exec_pure, Prod.mk.injEq, true_and,
      Except.ok.injEq]
    constructor
    · rintro rfl
      exact ⟨[], s.context, ⟨rfl, rfl⟩, by simp [← hb]⟩
    · rintro ⟨nodes, d, ⟨rfl, rfl⟩, rfl⟩
      simp [← hb]
  | cons action rest ih =>
    rw [List.length_cons, ticks, tick_of_building hb]
    cases hx : exec (build action) s.context with
    | mk r d =>
      cases r with
      | error fault =>
        simp only [Prod.mk.injEq, reduceCtorEq, false_and, false_iff, not_exists, not_and]
        intro nodes e h
        obtain ⟨n, ms, f, hn, -⟩ := exec_buildAll_cons.mp h
        cases hx.symm.trans hn
      | ok node =>
        refine (ih rfl).trans ?_
        constructor
        · rintro ⟨nodes, e, hr, rfl⟩
          exact ⟨node :: nodes, e, exec_buildAll_cons.mpr ⟨node, nodes, d, hx, hr, rfl⟩, by simp⟩
        · rintro ⟨nodes, e, h, rfl⟩
          obtain ⟨n, ms, f, hn, hr, rfl⟩ := exec_buildAll_cons.mp h
          cases hx.symm.trans hn
          exact ⟨ms, e, hr, by simp⟩

theorem begin_ok {s s₁ : Session} {program : Value} {name : String}
    (begun : s.begin program name = (.ok (), s₁)) :
    ∃ actions, Action.sequence program = .ok actions ∧
      s₁ = { s.reset with name, actions, building := some actions } := by
  unfold begin at begun
  cases read : Action.sequence program with
  | error flaw =>
    rw [read] at begun
    cases begun
  | ok actions =>
    rw [read] at begun
    obtain ⟨-, rfl⟩ := Prod.ext_iff.mp begun
    exact ⟨actions, rfl, rfl⟩

theorem built_ok {s s₁ s₂ : Session} {program : Value} {name : String}
    (begun : s.begin program name = (.ok (), s₁)) (built : s₁.finishBuilding = (.ok (), s₂)) :
    ∃ actions nodes d, Action.sequence program = .ok actions ∧
      s₁ = { s.reset with name, actions, building := some actions } ∧
      exec (buildAll actions) { reportAll := s.options.reportAll } = (.ok nodes, d) ∧
      s₂ = { s₁ with context := d, lines := nodes, building := some [] } := by
  obtain ⟨actions, read, rfl⟩ := begin_ok begun
  obtain ⟨nodes, d, hx, rfl⟩ := (ticks_ok rfl).mp built
  exact ⟨actions, nodes, d, read, rfl, hx, rfl⟩

theorem diagnostics_finish {s : Session} (h : s.finished = false) :
    s.finish.1.diagnostics =
      s.context.table.undefined.map fun f => ⟨s.context.line, .neverDefined f.name⟩ := by
  simp [finish, h, Context.report, diagnostics, Context.line, Function.comp_def]

end Session

theorem joinReports_cons (between : Report) (part : List Report) (parts : List (List Report)) :
    joinReports between (part :: parts) = part ++ parts.flatMap (between :: ·) := by
  induction parts generalizing part with
  | nil => simp [joinReports]
  | cons p parts ih => simp [joinReports, ih]

namespace Rendering

def ahead (root : Mark) : Bool → List Node → List Report
  | _, [] => []
  | first, line :: lines =>
    if line.isEmpty then ahead root first lines
    else
      (if first then [] else [root.report "Generating code for program (next line)..." "\n"]) ++
        line.reports 0 ++ ahead root false lines

theorem ahead_false (root : Mark) (lines : List Node) :
    ahead root false lines = (Node.lineReports 0 lines).flatMap fun part =>
      root.report "Generating code for program (next line)..." "\n" :: part := by
  induction lines with
  | nil => simp [ahead, Node.lineReports]
  | cons line lines ih =>
    rw [ahead, Node.lineReports]
    split
    · exact ih
    · simp [ih]

theorem ahead_true (root : Mark) (lines : List Node) :
    ahead root true lines = Node.reports 0 (.mk root (.block "Program" lines)) := by
  have htitle : "Generating code for " ++ Text.lower "Program" ++ " (next line)..." =
      "Generating code for program (next line)..." := by decide +kernel
  rw [Node.reports, htitle]
  induction lines with
  | nil => rfl
  | cons line lines ih =>
    rw [ahead, Node.lineReports]
    split
    · exact ih
    · rw [joinReports_cons, ahead_false]
      simp

def left (root : Mark) (lines : List Node) (r : Rendering) : List Report :=
  r.pending ++ ahead root r.first (lines.drop r.next)

theorem seek_cases (root : Mark) (first : Bool) (next : Nat) (lines : List Node) :
    (seek root first next lines = none ∧ ahead root first lines = []) ∨
      ∃ report pending count, seek root first next lines =
          some (report, ⟨true, pending, next + count, false, false⟩) ∧
        ahead root first lines = report :: pending ++ ahead root false (lines.drop count) := by
  induction lines generalizing first next with
  | nil => exact .inl ⟨rfl, rfl⟩
  | cons line lines ih =>
    -- A line without reports is passed over, whether it is empty or not.
    have passed (first' : Bool) (hs : seek root first next (line :: lines) =
        seek root first' (next + 1) lines)
        (ha : ahead root first (line :: lines) = ahead root first' lines) :
        (seek root first next (line :: lines) = none ∧ ahead root first (line :: lines) = []) ∨
          ∃ report pending count, seek root first next (line :: lines) =
              some (report, ⟨true, pending, next + count, false, false⟩) ∧
            ahead root first (line :: lines) =
              report :: pending ++ ahead root false ((line :: lines).drop count) := by
      rw [hs, ha]
      rcases ih first' (next + 1) with h | ⟨report, pending, count, hseek, hahead⟩
      · exact .inl h
      · refine .inr ⟨report, pending, count + 1, ?_, hahead⟩
        rw [hseek, Nat.add_assoc, Nat.add_comm 1]
    by_cases he : line.isEmpty = true
    · exact passed first (by simp [seek, he]) (by simp [ahead, he])
    · cases hr : (if first then [] else
          [root.report "Generating code for program (next line)..." "\n"]) ++ line.reports 0 with
      | nil => exact passed false (by simp [seek, he, hr]) (by simp [ahead, he, hr])
      | cons report pending =>
        refine .inr ⟨report, pending, 1, by simp [seek, he, hr], ?_⟩
        simp [ahead, he, hr]

theorem step_cases (root : Mark) (lines : List Node) {r : Rendering} (started : r.started = true)
    (running : r.ended = false) :
    (∃ report r', r.step root lines = (some report, r') ∧ r'.started = true ∧ r'.ended = false ∧
        r.left root lines = report :: r'.left root lines) ∨
      ∃ r', r.step root lines = (none, r') ∧ r'.ended = true ∧ r.left root lines = [] := by
  cases hp : r.pending with
  | cons report pending =>
    refine .inl ⟨report, { r with pending }, ?_, started, running, ?_⟩
    · simp [step, started, running, hp]
    · simp [left, hp]
  | nil =>
    rcases seek_cases root r.first r.next (lines.drop r.next) with
      ⟨hseek, hahead⟩ | ⟨report, pending, count, hseek, hahead⟩
    · refine .inr ⟨{ r with ended := true }, ?_, rfl, ?_⟩
      · simp [step, started, running, hp, hseek]
      · simp [left, hp, hahead]
    · refine .inl ⟨report, ⟨true, pending, r.next + count, false, false⟩, ?_, rfl, rfl, ?_⟩
      · simp [step, started, running, hp, hseek]
      · simp [left, hp, hahead, List.drop_drop]

end Rendering

namespace Session

theorem ticksCode_ended {s : Session} {r : Rendering} (hr : s.rendering = some r)
    (ended : r.ended = true) (n : Nat) : (s.ticksCode n).output = s.output := by
  induction n generalizing s with
  | zero => rfl
  | succ n ih =>
    have htick : s.tickCode.2 = { s with rendering := some r } := by
      simp [tickCode, hr, Rendering.step, ended]
    rw [ticksCode, htick]
    exact ih rfl

theorem ticksCode_output {s : Session} {r : Rendering} (hr : s.rendering = some r)
    (started : r.started = true) (running : r.ended = false) {n : Nat}
    (hn : (r.left s.root s.lines).length ≤ n) :
    (s.ticksCode n).output = s.output ++ codeText (r.left s.root s.lines) := by
  induction n generalizing s r with
  | zero =>
    have hleft : r.left s.root s.lines = [] := List.length_eq_zero_iff.mp (by omega)
    simp [ticksCode, hleft, codeText]
  | succ n ih =>
    rcases Rendering.step_cases s.root s.lines started running with
      ⟨report, r', hstep, hs, he, hleft⟩ | ⟨r', hstep, he, hleft⟩
    · have htick : s.tickCode.2 =
          { s with rendering := some r', output := s.output ++ report.code } := by
        simp [tickCode, hr, hstep]
      rw [hleft] at hn
      rw [ticksCode, htick, ih rfl hs he (by simpa using hn), hleft]
      simp [codeText, String.append_assoc]
    · have htick : s.tickCode.2 = { s with rendering := some r' } := by simp [tickCode, hr, hstep]
      rw [ticksCode, htick, ticksCode_ended rfl he, hleft]
      simp [codeText]

theorem renderAll_output (s : Session) : s.renderAll.output = s.tree.text 0 := by
  have htick : s.beginCode.tickCode.2 =
      { s with output := "", rendering := some { started := true } } := by
    simp [beginCode, tickCode, Rendering.step, Mark.report]
  have hleft : Rendering.left s.root s.lines { started := true } = s.tree.reports 0 := by
    simp [Rendering.left, Rendering.ahead_true, tree]
  rw [renderAll, ticksCode, htick, ticksCode_output rfl rfl rfl (by rw [hleft]; omega), hleft]
  simp [Node.text]

theorem ticksCode_keeps (s : Session) (n : Nat) :
    (s.ticksCode n).tree = s.tree ∧ (s.ticksCode n).diagnostics = s.diagnostics := by
  induction n generalizing s with
  | zero => exact ⟨rfl, rfl⟩
  | succ n ih =>
    have htick : s.tickCode.2.tree = s.tree ∧ s.tickCode.2.diagnostics = s.diagnostics := by
      unfold tickCode
      split <;> exact ⟨rfl, rfl⟩
    rw [ticksCode, (ih _).1, (ih _).2]
    exact htick

theorem renderAll_keeps (s : Session) :
    s.renderAll.tree = s.tree ∧ s.renderAll.diagnostics = s.diagnostics :=
  s.beginCode.ticksCode_keeps _

theorem tree_finish (s : Session) : s.finish.2.tree = s.tree := by
  unfold finish
  split <;> rfl

section Built

variable {s : Session} {program : Value} {actions : List Action} {nodes : List Node} {d : Context}

theorem begin_of_read (read : Action.sequence program = .ok actions) (name : String) :
    s.begin program name = (.ok (), { s.reset with name, actions, building := some actions }) := by
  simp [begin, read]

theorem finishBuilding_of_built
    (built : exec (buildAll actions) { reportAll := s.options.reportAll } = (.ok nodes, d))
    (name : String) :
    ({ s.reset with name, actions, building := some actions } : Session).finishBuilding = (.ok (),
      { s.reset with name, actions, context := d, lines := nodes, building := some [] }) :=
  (ticks_ok rfl).mpr ⟨nodes, d, built, rfl⟩

theorem runAll_of_built (read : Action.sequence program = .ok actions)
    (built : exec (buildAll actions) { reportAll := s.options.reportAll } = (.ok nodes, d))
    (name : String) :
    s.runAll program name =
      let u := Session.renderAll (finish { s.reset with
        name, actions, context := d, lines := nodes, building := some [] }).2
      (.ok u.output, u) := by
  simp only [runAll, begin_of_read read, finishBuilding_of_built built]

end Built

theorem runAll_ok {s : Session} {program : Value} {name code : String} :
    (s.runAll program name).1 = .ok code ↔
      ∃ actions nodes d, Action.sequence program = .ok actions ∧
        exec (buildAll actions) { reportAll := s.options.reportAll } = (.ok nodes, d) ∧
        code = (Node.mk {} (.block "Program" nodes)).text 0 := by
  constructor
  · intro h
    unfold runAll at h
    split at h
    · cases h
    · rename_i begun
      split at h
      · cases h
      · rename_i built
        obtain ⟨actions, nodes, d, hactions, rfl, hexec, rfl⟩ := built_ok begun built
        refine ⟨actions, nodes, d, hactions, hexec, ?_⟩
        rw [← Except.ok.inj h, renderAll_output, tree_finish]
        rfl
  · rintro ⟨actions, nodes, d, hactions, hexec, rfl⟩
    simp only [runAll_of_built hactions hexec, renderAll_output, tree_finish]
    rfl

theorem diagnostics_prefix_finish (s : Session) : s.diagnostics <+: s.finish.2.diagnostics := by
  unfold finish
  split
  · exact List.prefix_rfl
  · simp [diagnostics, Context.report]

theorem runAll_built {s : Session} {program : Value} {actions : List Action} {nodes : List Node}
    {d : Context} (read : Action.sequence program = .ok actions)
    (built : exec (buildAll actions) { reportAll := s.options.reportAll } = (.ok nodes, d))
    (name : String) :
    let tree := Node.mk {} (.block "Program" nodes)
    (s.runAll program name).1 = .ok (tree.text 0) ∧ (s.runAll program name).2.tree = tree ∧
      d.log.diagnostics <+: (s.runAll program name).2.diagnostics := by
  intro tree
  refine ⟨runAll_ok.mpr ⟨actions, nodes, d, read, built, rfl⟩, ?_, ?_⟩
  · simp only [runAll_of_built read built, (renderAll_keeps _).1, tree_finish]
    rfl
  · simp only [runAll_of_built read built, (renderAll_keeps _).2]
    exact diagnostics_prefix_finish { s.reset with
      name, actions, context := d, lines := nodes, building := some [] }

end Session
end Treewright
