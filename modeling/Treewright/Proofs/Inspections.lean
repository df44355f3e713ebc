import Treewright.Proofs.Completion
import Treewright.Proofs.Format
import Treewright.Proofs.Numbering
set_option autoImplicit false

namespace Treewright

open Build

namespace Session

theorem output_runAll {s : Session} {program : Value} {name code : String}
    (h : (s.runAll program name).1 = .ok code) : (s.runAll program name).2.output = code := by
  unfold runAll at h ⊢
  split at h
  · cases h
  · split at h
    · cases h
    · exact Except.ok.inj h

theorem diagnostics_runAll {s : Session} {program : Value} {actions : List Action}
    {nodes : List Node} {d : Context} (read : Action.sequence program = .ok actions)
    (built : exec (buildAll actions) { reportAll := s.options.reportAll } = (.ok nodes, d))
    (name : String) :
    (s.runAll program name).2.diagnostics =
      d.log.diagnostics ++ d.table.undefined.map fun f => ⟨d.line, .neverDefined f.name⟩ := by
  simp only [runAll_of_built read built, (renderAll_keeps _).2]
  rw [diagnostics_of_finish, diagnostics_finish rfl]
  rfl

theorem step_of_tickCode {s u : Session} {r r' : Rendering} {report : Report}
    (at_r : s.rendering = some r) (h : s.tickCode = (.ok (some report), u))
    (after : u.rendering = some r') : r.step s.root s.lines = (some report, r') := by
  rw [tickCode, at_r] at h
  obtain ⟨given, rfl⟩ := Prod.ext_iff.mp h
  exact Prod.ext (Except.ok.inj given) (Option.some.inj after)

end Session

namespace Rendering

def ticksLeft (root : Mark) (lines : List Node) (r : Rendering) : Nat :=
  (r.left root lines).length + if r.started then 1 else 2

theorem ticksLeft_step {root : Mark} {lines : List Node} {r r' : Rendering} {report : Report}
    (running : r.ended = false) (h : r.step root lines = (some report, r')) :
    r'.ticksLeft root lines < r.ticksLeft root lines := by
  cases started : r.started with
  | false =>
    have stepped : r.step root lines =
        (some (root.report "Starting code generation." ""), { r with started := true }) := by
      simp [step, started, running]
    cases h.symm.trans stepped
    simp [ticksLeft, left, started]
  | true =>
    obtain ⟨_, r'', stepped, started', -, left⟩ | ⟨_, stepped, -, -⟩ :=
      step_cases root lines started running
    · cases h.symm.trans stepped
      simp [ticksLeft, left, started, started']
    · cases h.symm.trans stepped

end Rendering

structure Editor.Takes (ε : Type) [Editor ε] (whole : String) : Prop where
  empty : Editor.text (Editor.empty : ε) = ""
  add : ∀ (e : ε) (fragment rest : String), whole = Editor.text e ++ fragment ++ rest →
    ∃ e', Editor.add e fragment = (.ok (), e') ∧ Editor.text e' = Editor.text e ++ fragment

theorem Editor.takes_string (whole : String) : Editor.Takes String whole where
  empty := rfl
  add _ _ _ _ := ⟨_, rfl, rfl⟩

/-- A session that goes through the program at once. -/
def Program.atOnce (program : Program) (options : Options) : Except SessionFault String × Session :=
  (Session.new options).runAll (.list program.actions) program.name

def Phase.next : Phase → Phase
  | .building => .rendering
  | .rendering | .done => .done
  | .idle => .idle

namespace Inspection

variable {ε : Type} [Editor ε]

/-- What an inspection of a program shows. -/
structure Shows (options : Options) (program : Program) (i : Inspection ε) : Prop where
  /-- The table of diagnostics has a row for each diagnostic of the session, in order. -/
  rows : i.diagnostics.map Diagnostic.cells =
    i.session.diagnostics.map fun d => [toString d.line, d.kind.tag, d.problem.message]
  /-- After the build, the table of symbols has a row for each symbol declared, in order. -/
  symbols : i.phase = .rendering ∨ i.phase = .done →
    i.symbols = i.session.context.table.symbols.map (Symbol.cells i.session.context.table)
  /-- The editor then holds what was rendered so far. -/
  code : i.phase = .rendering ∨ i.phase = .done → Editor.text i.panel = i.session.output
  /-- In the end the session has what it comes to at once. -/
  results : i.phase = .done → (program.atOnce options).1 = .ok i.session.output ∧
    (program.atOnce options).2.output = i.session.output ∧
    (program.atOnce options).2.diagnostics = i.session.diagnostics

/-- Ticks follow each other until the phase is over. -/
inductive Completes (phase : Phase) : Inspection ε → Inspection ε → Prop where
  | ended {i : Inspection ε} (h : ¬(i.phase = phase ∧ phase.active = true)) : Completes phase i i
  | tick {i j k : Inspection ε} (h : i.phase = phase ∧ phase.active = true)
      (ticked : i.tick = (.ok (), j)) (rest : Completes phase j k) : Completes phase i k

/-- The inspections of which ticks within a phase are taken, so many at most. -/
def tickedIn (phase : Phase) : Nat → Inspection ε → List (Inspection ε)
  | 0, _ => []
  | n + 1, i =>
    if i.phase = phase then
      i :: match i.tick with
        | (.error _, _) => []
        | (.ok (), j) => tickedIn phase n j
    else []

/-- The inspections of which a gesture takes a tick, one after the other. -/
def ticked (i : Inspection ε) : Gesture → List (Inspection ε)
  | .tick => if i.running then [] else [i]
  | .complete => { i with running := false }.tickedIn i.phase i.stepsLeft
  | .toggle | .faster | .slower => []

/-- A tick would build the next action and stop with a fault. -/
def faults (i : Inspection ε) : Bool := i.phase = .building && !i.session.tick.1.isOk

def after (i : Inspection ε) : List Gesture → Inspection ε
  | [] => i
  | g :: gestures => (i.perform g).2.after gestures

/-- The inspections of which the gestures take a tick. -/
def tickedBy (i : Inspection ε) : List Gesture → List (Inspection ε)
  | [] => []
  | g :: gestures => i.ticked g ++ (i.perform g).2.tickedBy gestures

/-- What a gesture does. -/
structure Follows (options : Options) (program : Program) (i : Inspection ε) (g : Gesture) : Prop
    where
  succeeds : (i.perform g).1 = .ok ()
  phase : (i.perform g).2.phase = i.phase ∨ (i.perform g).2.phase = i.phase.next
  between : ∀ j ∈ i.ticked g, j.Shows options program
  /-- To complete a phase is to tick until it is over. -/
  completes : g = .complete → Completes i.phase { i with running := false } (i.perform g).2

structure Presents (options : Options) (program : Program) (i : Inspection ε) : Prop where
  code : (program.atOnce options).1 = .ok (i.session.tree.text 0)
  logged : (program.atOnce options).2.diagnostics = i.session.diagnostics
  shown : i.diagnostics = i.session.diagnostics
  symbols : i.symbols =
    i.session.context.table.symbols.map (Symbol.cells i.session.context.table)
  text : Editor.text i.panel = i.session.output

inductive Stage (options : Options) (program : Program) (i : Inspection ε) : Prop where
  | building (k : Nat) (phase : i.phase = .building)
      (built : Session.Built { reportAll := options.reportAll }
        (program.actions.map Action.ofValue) k i.session)
      (root : i.session.root = {}) (unfinished : i.session.finished = false)
      (shown : i.diagnostics = i.session.diagnostics)
  | rendering (r : Rendering) (phase : i.phase = .rendering)
      (at_r : i.session.rendering = some r) (running : r.ended = false)
      (prints : ∀ more, i.session.textWith more =
        i.session.output ++ codeText (r.left i.session.root (i.session.lines ++ more)))
      (enough : r.ticksLeft i.session.root i.session.lines ≤
        (i.session.tree.reports 0).length + 2)
      (presents : i.Presents options program)
  | done (phase : i.phase = .done) (output : i.session.output = i.session.tree.text 0)
      (presents : i.Presents options program)

variable {options : Options} {program : Program} {i : Inspection ε}

theorem Presents.shows (h : i.Presents options program)
    (output : i.phase = .done → i.session.output = i.session.tree.text 0) :
    i.Shows options program where
  rows := by
    rw [h.shown]
    rfl
  symbols _ := h.symbols
  code _ := h.text
  results done := by
    have code := h.code
    rw [← output done] at code
    exact ⟨code, Session.output_runAll code, h.logged⟩

theorem Stage.shows (h : i.Stage options program) : i.Shows options program := by
  cases h with
  | building k phase built root unfinished shown =>
    refine ⟨by rw [shown]; rfl, ?_, ?_, ?_⟩ <;> simp [phase]
  | rendering r phase at_r running prints enough presents => exact presents.shows (by simp [phase])
  | done phase output presents => exact presents.shows fun _ => output

theorem Stage.paced (h : i.Stage options program) (running : Bool) (tenths : Nat) :
    { i with running, tenths }.Stage options program := by
  cases h with
  | building k phase built root unfinished shown =>
    exact .building k phase built root unfinished shown
  | rendering r phase at_r running prints enough presents =>
    obtain ⟨code, logged, shown, symbols, text⟩ := presents
    exact .rendering r phase at_r running prints enough ⟨code, logged, shown, symbols, text⟩
  | done phase output presents =>
    obtain ⟨code, logged, shown, symbols, text⟩ := presents
    exact .done phase output ⟨code, logged, shown, symbols, text⟩

theorem stage_new (opened : new options (some (.ok program)) = .ok i) :
    i.phase = .building ∧ i.Stage options program := by
  have begun : (Session.new options).begin (.list program.actions) program.name =
      (.ok (), { (Session.new options).reset with
        name := program.name
        actions := program.actions.map Action.ofValue
        building := some (program.actions.map Action.ofValue) }) := by
    simp [Session.begin, Action.sequence, Reading.sequence_list]
  rw [new] at opened
  dsimp only at opened
  rw [begun] at opened
  cases opened
  refine ⟨rfl, .building 0 rfl ⟨rfl, ?_⟩ rfl rfl rfl⟩
  rw [List.take_zero, buildAll]
  rfl

def ticksLeft (i : Inspection ε) : Nat :=
  match i.phase with
  | .building => (i.session.building.getD []).length + 1
  | .rendering =>
    (i.session.rendering.map (·.ticksLeft i.session.root i.session.lines)).getD 0
  | .idle | .done => 0

theorem Stage.ticksLeft_le (h : i.Stage options program) : i.ticksLeft ≤ i.stepsLeft := by
  cases h with
  | building k phase built root unfinished shown => simp [ticksLeft, stepsLeft, phase]
  | rendering r phase at_r running prints enough presents =>
    simpa [ticksLeft, stepsLeft, phase, at_r] using enough
  | done phase output presents => simp [ticksLeft, phase]

theorem Stage.ticksLeft_pos (h : i.Stage options program) (active : i.phase.active = true) :
    0 < i.ticksLeft := by
  cases h with
  | building k phase built root unfinished shown => simp [ticksLeft, phase]
  | rendering r phase at_r running prints enough presents =>
    cases started : r.started <;> simp [ticksLeft, phase, at_r, Rendering.ticksLeft, started]
  | done phase output presents =>
    rw [phase] at active
    cases active

def Advances (i j : Inspection ε) : Prop :=
  (j.phase = i.phase ∧ j.ticksLeft < i.ticksLeft) ∨ (j.phase ≠ i.phase ∧ j.phase = i.phase.next)

theorem buildTick_report {report : BuildReport} {s : Session}
    (h : i.session.tick = (.ok (some report), s)) :
    i.buildTick = (.ok (),
      { i with session := s, diagnostics := i.diagnostics ++ report.diagnostics }.post
        report.message (if report.failed then .error else .info)) := by
  rw [buildTick, h]

theorem buildTick_end {s : Session} (h : i.session.tick = (.ok none, s)) :
    i.buildTick = (.ok (), { i with session := s }.showBuild) := by
  rw [buildTick, h]

theorem renderTick_report {report : Report} {s : Session} {panel : ε}
    (h : i.session.tickCode = (.ok (some report), s))
    (added : Editor.add i.panel report.code = (.ok (), panel)) :
    i.renderTick = (.ok (),
      { i with session := s, panel, cursor := report.node.or i.cursor }.post
        report.message .info) := by
  simp only [renderTick, h, showReport, added]

theorem renderTick_end {s : Session} (h : i.session.tickCode = (.ok none, s)) :
    ∃ bar tone, i.renderTick = (.ok (), ({ i with session := s }.enter .done).post bar tone) := by
  rw [renderTick, h]
  dsimp only
  split
  · exact ⟨_, _, rfl⟩
  · exact ⟨_, _, rfl⟩

theorem ticksIn_of_ne {phase : Phase} (h : i.phase ≠ phase) (n : Nat) :
    i.ticksIn phase n = (.ok (), i) := by
  cases n with
  | zero => rfl
  | succ n => rw [ticksIn, if_neg h]

theorem tickedIn_of_ne {phase : Phase} (h : i.phase ≠ phase) (n : Nat) :
    i.tickedIn phase n = [] := by
  cases n with
  | zero => rfl
  | succ n => rw [tickedIn, if_neg h]

theorem tick_of_inactive (h : i.phase.active = false) : i.tick = (.ok (), i) := by
  cases phase : i.phase <;> simp [tick, phase, Phase.active] at h ⊢

section Steps

variable (takes : ∀ code, (program.atOnce options).1 = .ok code → Editor.Takes ε code)
include takes

theorem stage_showBuild
    (built : exec (buildAll (program.actions.map Action.ofValue))
      { reportAll := options.reportAll } = (.ok i.session.lines, i.session.context))
    (root : i.session.root = {}) (unfinished : i.session.finished = false)
    (shown : i.diagnostics = i.session.diagnostics) : i.showBuild.Stage options program := by
  let s := (i.session.finish.2.numbered i.tree.ids).beginCode
  have code : (program.atOnce options).1 = .ok (s.tree.text 0) := by
    have text : s.tree.text 0 = i.session.tree.text 0 := by
      rw [← i.session.tree_finish]
      exact Session.text_numbered _ _ 0
    refine Session.runAll_ok.mpr ⟨_, _, _, Reading.sequence_list _, built, ?_⟩
    rw [text, Session.tree, root]
  have logged : (program.atOnce options).2.diagnostics = s.diagnostics := by
    refine (Session.diagnostics_runAll (Reading.sequence_list _) built _).trans ?_
    rw [← Session.diagnostics_finish unfinished]
    exact i.session.diagnostics_of_finish.symm
  have reports : (s.tree.reports 0).length = (Rendering.left s.root s.lines {}).length := by
    simp [Rendering.left, Rendering.ahead_true, Session.tree]
  refine .rendering {} rfl rfl rfl (fun more => ?_) ?_
    ⟨code, logged, ?_, rfl, (takes _ code).empty⟩
  · simp [Session.textWith, showBuild, enter, post, Session.beginCode, Rendering.left,
      Rendering.ahead_true, Node.text]
  · exact (Nat.add_le_add_right reports.ge 2)
  · have said := i.session.diagnostics_of_finish
    rw [← shown] at said
    exact said.symm

theorem stage_buildTick {k : Nat} (phase : i.phase = .building)
    (built : Session.Built { reportAll := options.reportAll }
      (program.actions.map Action.ofValue) k i.session)
    (root : i.session.root = {}) (unfinished : i.session.finished = false)
    (shown : i.diagnostics = i.session.diagnostics) (ok : i.session.tick.1.isOk = true) :
    ∃ j, i.buildTick = (.ok (), j) ∧ j.Stage options program ∧ i.Advances j := by
  have next := built.tick ok
  obtain ⟨-, ticked⟩ | ⟨spent, ticked⟩ | ⟨action, rest, node, d, ahead, hx, ticked⟩ |
    ⟨_, _, _, _, -, -, ticked⟩ := i.session.tick_cases
  · rw [ticked] at ok
    cases ok
  · have whole := built.whole (by rw [ticked])
    refine ⟨_, buildTick_end ticked, ?_, .inr ?_⟩
    · exact stage_showBuild takes whole root unfinished shown
    · rw [phase]
      exact ⟨Phase.noConfusion, rfl⟩
  · rw [ticked] at next
    refine ⟨_, buildTick_report ticked, .building (k + 1) phase next root unfinished ?_, .inl ?_⟩
    · have read : action ∈ program.actions.map Action.ofValue := by
        have first := Option.some.inj (built.building.symm.trans ahead)
        exact List.mem_of_mem_drop (i := k) (by simp [first])
      obtain ⟨v, -, rfl⟩ := List.mem_map.mp read
      have grown := Session.log_build (Action.wellFormed_ofValue v) i.session.context
      rw [hx] at grown
      have told := List.prefix_append_drop grown
      rw [post, shown]
      exact told.symm
    · refine ⟨rfl, ?_⟩
      simp [ticksLeft, post, phase, ahead]
  · rw [ticked] at ok
    cases ok

theorem stage_renderTick {r : Rendering} (phase : i.phase = .rendering)
    (at_r : i.session.rendering = some r) (running : r.ended = false)
    (prints : ∀ more, i.session.textWith more =
      i.session.output ++ codeText (r.left i.session.root (i.session.lines ++ more)))
    (enough : r.ticksLeft i.session.root i.session.lines ≤ (i.session.tree.reports 0).length + 2)
    (presents : i.Presents options program) :
    ∃ j, i.renderTick = (.ok (), j) ∧ j.Stage options program ∧ i.Advances j := by
  obtain ⟨code, logged, shown, symbols, text⟩ := presents
  obtain ⟨report, r', ticked, running', prints'⟩ | ⟨r', ticked, -, all⟩ :=
    Session.tickCode_cases at_r running prints
  · have fewer : r'.ticksLeft i.session.root i.session.lines <
        r.ticksLeft i.session.root i.session.lines :=
      Rendering.ticksLeft_step running (Session.step_of_tickCode at_r ticked rfl)
    have whole : i.session.tree.text 0 = Editor.text i.panel ++ report.code ++
        codeText (r'.left i.session.root i.session.lines) := by
      have now := prints' []
      rw [List.append_nil, ← text] at now
      simpa [Session.textWith, Session.tree] using now
    obtain ⟨panel, added, text'⟩ := (takes _ code).add _ _ _ whole
    refine ⟨_, renderTick_report ticked added, .rendering r' phase rfl running' prints'
      (fewer.le.trans enough) ⟨code, logged, shown, symbols, ?_⟩, .inl ⟨rfl, ?_⟩⟩
    · rw [text] at text'
      exact text'
    · simpa [ticksLeft, post, phase, at_r] using fewer
  · obtain ⟨bar, tone, rendered⟩ := renderTick_end ticked
    refine ⟨_, rendered, .done rfl all ⟨code, logged, shown, symbols, text⟩, .inr ?_⟩
    rw [phase]
    exact ⟨Phase.noConfusion, rfl⟩

theorem stage_tick (h : i.Stage options program) (active : i.phase.active = true)
    (ok : i.faults = false) :
    ∃ j, i.tick = (.ok (), j) ∧ j.Stage options program ∧ i.Advances j := by
  cases h with
  | building k phase built root unfinished shown =>
    rw [tick, phase]
    exact stage_buildTick takes phase built root unfinished shown
      (by simpa [faults, phase] using ok)
  | rendering r phase at_r running prints enough presents =>
    rw [tick, phase]
    exact stage_renderTick takes phase at_r running prints enough presents
  | done phase output presents =>
    rw [phase] at active
    cases active

theorem stage_ticksIn {phase : Phase} (active : phase.active = true) {n : Nat}
    (h : i.Stage options program) (here : i.phase = phase) (enough : i.ticksLeft ≤ n)
    (ok : ∀ j ∈ i.tickedIn phase n, j.faults = false) :
    (i.ticksIn phase n).2.Stage options program ∧ (i.ticksIn phase n).1 = .ok () ∧
      (i.ticksIn phase n).2.phase = phase.next ∧ Completes phase i (i.ticksIn phase n).2 ∧
      ∀ j ∈ i.tickedIn phase n, j.Stage options program := by
  induction n generalizing i with
  | zero =>
    have := h.ticksLeft_pos (here ▸ active)
    omega
  | succ n ih =>
    rw [tickedIn, if_pos here, List.forall_mem_cons] at ok
    obtain ⟨first, later⟩ := ok
    obtain ⟨j, stepped, stage, advances⟩ := stage_tick takes h (here ▸ active) first
    rw [stepped] at later
    rw [ticksIn, tickedIn, if_pos here, if_pos here, stepped, List.forall_mem_cons]
    obtain ⟨same, fewer⟩ | ⟨other, next⟩ := advances
    · obtain ⟨last, succeeds, ended, completes, between⟩ :=
        ih stage (same.trans here) (by omega) later
      exact ⟨last, succeeds, ended, .tick ⟨here, active⟩ stepped completes, h, between⟩
    · rw [here] at other next
      dsimp only
      rw [ticksIn_of_ne other, tickedIn_of_ne other]
      have ended : Completes phase j j := .ended fun still => other still.1
      exact ⟨stage, rfl, next, .tick ⟨here, active⟩ stepped ended, h, by simp⟩

theorem stage_manual (h : i.Stage options program)
    (ok : ∀ j ∈ i.ticked .tick, j.faults = false) :
    (i.perform .tick).2.Stage options program ∧ i.Follows options program .tick := by
  have between : ∀ j ∈ i.ticked .tick, j.Shows options program := by
    intro j hj
    rw [ticked] at hj
    split at hj
    · cases hj
    · rw [List.mem_singleton.mp hj]
      exact h.shows
  by_cases still : i.running = true ∨ i.phase.active = false
  · have same : i.perform .tick = (.ok (), i) := by
      rw [perform]
      split
      · rfl
      · next stopped => exact tick_of_inactive (still.resolve_left stopped)
    rw [same]
    exact ⟨h, by rw [same], .inl (by rw [same]), between, by simp⟩
  · rw [not_or, Bool.not_eq_true, Bool.not_eq_false] at still
    obtain ⟨stopped, active⟩ := still
    have fine := ok i (by simp [ticked, stopped])
    obtain ⟨j, stepped, stage, advances⟩ := stage_tick takes h active fine
    have performed : i.perform .tick = (.ok (), j) := by simp [perform, stopped, stepped]
    rw [performed]
    refine ⟨stage, by rw [performed], ?_, between, by simp⟩
    rw [performed]
    exact advances.imp And.left And.right

theorem stage_complete (h : i.Stage options program)
    (ok : ∀ j ∈ i.ticked .complete, j.faults = false) :
    (i.perform .complete).2.Stage options program ∧ i.Follows options program .complete := by
  have stage := h.paced false i.tenths
  cases active : i.phase.active with
  | false =>
    have none_left : i.stepsLeft = 0 := by
      cases phase : i.phase <;> simp [stepsLeft, phase, Phase.active] at active ⊢
    have same : i.perform .complete = (.ok (), { i with running := false }) := by
      rw [perform, complete, none_left, ticksIn]
    rw [same]
    refine ⟨stage, by rw [same], .inl (by rw [same]), fun j hj => ?_, fun _ => ?_⟩
    · rw [ticked, none_left, tickedIn] at hj
      cases hj
    · rw [same]
      exact .ended (by simp [active])
  | true =>
    obtain ⟨last, succeeds, ended, completes, between⟩ :=
      stage_ticksIn takes active stage rfl stage.ticksLeft_le ok
    exact ⟨last, succeeds, .inr ended, fun j hj => (between j hj).shows, fun _ => completes⟩

theorem stage_perform (h : i.Stage options program) (g : Gesture)
    (ok : ∀ j ∈ i.ticked g, j.faults = false) :
    (i.perform g).2.Stage options program ∧ i.Follows options program g := by
  cases g with
  | tick => exact stage_manual takes h ok
  | complete => exact stage_complete takes h ok
  | toggle | faster | slower =>
    exact ⟨h.paced _ _, rfl, .inl rfl, fun j hj => absurd hj List.not_mem_nil, by simp⟩

theorem stage_after (h : i.Stage options program) {gestures : List Gesture}
    (ok : ∀ j ∈ i.tickedBy gestures, j.faults = false) :
    (i.after gestures).Stage options program ∧
      ∀ earlier g later, gestures = earlier ++ g :: later →
        (i.after earlier).Follows options program g := by
  induction gestures generalizing i with
  | nil => exact ⟨h, by simp⟩
  | cons g gestures ih =>
    rw [tickedBy, List.forall_mem_append] at ok
    obtain ⟨stage, follows⟩ := stage_perform takes h g ok.1
    obtain ⟨last, rest⟩ := ih stage ok.2
    refine ⟨last, fun earlier g' later split => ?_⟩
    cases earlier with
    | nil =>
      cases split
      exact follows
    | cons _ earlier =>
      cases split
      exact rest earlier g' later rfl

end Steps

/-- With the code in a string: whatever the gestures, if no tick of the build stops with a fault,
the inspection shows what its session holds, goes from phase to phase, comes to the end of each
phase that is to be completed, and ends with what the program comes to at once. -/
theorem inspection_shows (options : Options) (program : Program) {i : Inspection String}
    (opened : new options (some (.ok program)) = .ok i) (gestures : List Gesture)
    (ok : ∀ j ∈ i.tickedBy gestures, j.faults = false) :
    i.phase = .building ∧ (i.after gestures).Shows options program ∧
      ∀ earlier g later, gestures = earlier ++ g :: later →
        (i.after earlier).Follows options program g := by
  obtain ⟨phase, stage⟩ := stage_new opened
  obtain ⟨last, follows⟩ := stage_after (fun code _ => Editor.takes_string code) stage ok
  exact ⟨phase, last.shows, follows⟩

def prototypeThenUnknown : Program where
  name := "calls"
  actions := [.object [("node", .string "function"), ("returns", .string "int"),
      ("name", .string "f"), ("params", .list [])],
    .object [("node", .string "var"), ("name", .string "x")]]

/-- A tick, one that does nothing while the steps follow each other, the rest of the build, a tick
of the rendering, and all that is left. -/
def tickThenComplete : List Gesture :=
  [.tick, .toggle, .tick, .complete, .tick, .complete, .complete]

theorem inspection_shows_prototype :
    let i : Inspection String := enter
      { session := ((Session.new {}).begin (.list prototypeThenUnknown.actions) "calls").2
        panel := "" } .building
    new {} (some (.ok prototypeThenUnknown)) = .ok i ∧
      (∀ j ∈ i.tickedBy tickThenComplete, j.faults = false) ∧
      (i.after tickThenComplete).phase = .done ∧
      (i.after tickThenComplete).panel = "int f();\nx" ∧
      (i.after tickThenComplete).diagnostics.length = 2 ∧
      i.phase = .building ∧ (i.after tickThenComplete).Shows {} prototypeThenUnknown ∧
      ∀ earlier g later, tickThenComplete = earlier ++ g :: later →
        (i.after earlier).Follows {} prototypeThenUnknown g := by
  intro i
  have opened : new {} (some (.ok prototypeThenUnknown)) = .ok i := rfl
  have ok : ∀ j ∈ i.tickedBy tickThenComplete, j.faults = false := by decide +kernel
  exact ⟨opened, ok, by decide +kernel, by decide +kernel, by decide +kernel,
    inspection_shows {} prototypeThenUnknown opened tickThenComplete ok⟩

end Inspection

end Treewright
