import Treewright.Proofs.Documents
import Treewright.Proofs.Scopes
import Treewright.Proofs.Sessions
import Mathlib.Data.List.Induction
import Mathlib.Data.List.Infix
set_option autoImplicit false

namespace Treewright

open Build

namespace Rendering

theorem seek_append {root : Mark} {first : Bool} {next : Nat} {lines : List Node}
    {found : Report × Rendering} (h : seek root first next lines = some found) (more : List Node) :
    seek root first next (lines ++ more) = some found := by
  induction lines generalizing first next with
  | nil => simp [seek] at h
  | cons line lines ih =>
    rw [List.cons_append]
    unfold seek at h ⊢
    by_cases empty : line.isEmpty = true
    · rw [if_pos empty] at h ⊢
      exact ih h
    · rw [if_neg empty] at h ⊢
      dsimp only at h ⊢
      split at h
      · exact ih h
      · exact h

theorem step_append {root : Mark} {lines : List Node} {r r' : Rendering} {report : Report}
    (started : r.started = true) (running : r.ended = false)
    (h : r.step root lines = (some report, r')) (more : List Node) :
    r.step root (lines ++ more) = (some report, r') := by
  cases pending : r.pending with
  | cons first rest =>
    simp only [step, started, running, pending] at h ⊢
    exact h
  | nil =>
    cases found : seek root r.first r.next (lines.drop r.next) with
    | none => simp [step, started, running, pending, found] at h
    | some x =>
      have within : r.next ≤ lines.length := by
        by_contra beyond
        rw [List.drop_eq_nil_of_le (by omega)] at found
        simp [seek] at found
      have found' : seek root r.first r.next ((lines ++ more).drop r.next) = some x := by
        rw [List.drop_append_of_le_length within]
        exact seek_append found more
      simp only [step, started, running, pending, found, found'] at h ⊢
      exact h

theorem step_code (root : Mark) (lines : List Node) {r : Rendering} (running : r.ended = false) :
    (∃ report r', r.step root lines = (some report, r') ∧ r'.ended = false ∧
      ∀ more, codeText (r.left root (lines ++ more)) =
        report.code ++ codeText (r'.left root (lines ++ more))) ∨
    ∃ r', r.step root lines = (none, r') ∧ r'.ended = true ∧ codeText (r.left root lines) = "" := by
  cases started : r.started with
  | false =>
    have stepped : r.step root lines =
        (some (root.report "Starting code generation." ""), { r with started := true }) := by
      simp [step, started, running]
    refine .inl ⟨_, _, stepped, running, fun more => ?_⟩
    simp [left, Mark.report]
  | true =>
    obtain ⟨report, r', stepped, -, running', -⟩ | ⟨r', stepped, ended, nothing⟩ :=
      step_cases root lines started running
    · refine .inl ⟨report, r', stepped, running', fun more => ?_⟩
      have same := step_append started running stepped more
      obtain ⟨report', r'', stepped', -, -, left⟩ | ⟨r'', stepped', -, -⟩ :=
        step_cases root (lines ++ more) started running
      · obtain ⟨⟨⟩, rfl⟩ := Prod.ext_iff.mp (same.symm.trans stepped')
        simp [left, codeText]
      · cases same.symm.trans stepped'
    · exact .inr ⟨r', stepped, ended, by simp [nothing, codeText]⟩

end Rendering

namespace Session

/-- The calls that take a begun session further. -/
inductive Move where
  | tick
  | finish
  | beginCode
  | tickCode
  deriving DecidableEq, Repr

inductive Reply where
  | built (report : Option BuildReport)
  | finished (report : FinishReport)
  | begun
  | rendered (report : Option Report)
  deriving DecidableEq, Repr

/-- What the report of a reply says was found. -/
def Reply.diagnostics : Reply → List Diagnostic
  | .built (some report) => report.diagnostics
  | .finished report => report.diagnostics
  | .built none | .begun | .rendered _ => []

def move (s : Session) : Move → Except SessionFault Reply × Session
  | .tick => (s.tick.1.map .built, s.tick.2)
  | .finish => (.ok (.finished s.finish.1), s.finish.2)
  | .beginCode => (.ok .begun, s.beginCode)
  | .tickCode => (s.tickCode.1.map .rendered, s.tickCode.2)

def after (s : Session) : List Move → Session
  | [] => s
  | m :: moves => (s.move m).2.after moves

def replies (s : Session) : List Move → List (Except SessionFault Reply)
  | [] => []
  | m :: moves => (s.move m).1 :: (s.move m).2.replies moves

theorem after_append (s : Session) (moves more : List Move) :
    s.after (moves ++ more) = (s.after moves).after more := by
  induction moves generalizing s with
  | nil => rfl
  | cons m moves ih => exact ih _

theorem replies_append (s : Session) (moves more : List Move) :
    s.replies (moves ++ more) = s.replies moves ++ (s.after moves).replies more := by
  induction moves generalizing s with
  | nil => rfl
  | cons m moves ih => simp [replies, after, ih]

theorem tick_cases (s : Session) :
    (s.building = none ∧ s.tick = (.error .notBuilding, s)) ∨
    (s.building = some [] ∧ s.tick = (.ok none, s)) ∨
    (∃ action rest node d, s.building = some (action :: rest) ∧
      exec (build action) s.context = (.ok node, d) ∧
      s.tick = (.ok (some ⟨node.label, node.error, d.log.diagnostics.drop s.diagnostics.length⟩),
        { s with context := d, lines := s.lines ++ [node], building := some rest })) ∨
    ∃ action rest fault d, s.building = some (action :: rest) ∧
      exec (build action) s.context = (.error fault, d) ∧
      s.tick = (.error (.build fault), { s with context := d, building := some [] }) := by
  match hb : s.building with
  | none => exact .inl ⟨rfl, by simp [tick, hb]⟩
  | some [] => exact .inr (.inl ⟨rfl, by simp [tick, hb]⟩)
  | some (action :: rest) =>
    have ticked := tick_of_building hb
    cases hx : exec (build action) s.context with
    | mk result d =>
      rw [hx] at ticked
      cases result with
      | ok node => exact .inr (.inr (.inl ⟨action, rest, node, d, rfl, hx, ticked⟩))
      | error fault => exact .inr (.inr (.inr ⟨action, rest, fault, d, rfl, hx, ticked⟩))

theorem tick_keeps (s : Session) :
    s.tick.2.root = s.root ∧ s.tick.2.output = s.output ∧ s.tick.2.rendering = s.rendering := by
  obtain ⟨-, ticked⟩ | ⟨-, ticked⟩ | ⟨_, _, _, _, -, -, ticked⟩ | ⟨_, _, _, _, -, -, ticked⟩ :=
    s.tick_cases <;> rw [ticked] <;> exact ⟨rfl, rfl, rfl⟩

theorem finish_keeps (s : Session) :
    s.finish.2.root = s.root ∧ s.finish.2.lines = s.lines ∧ s.finish.2.output = s.output ∧
      s.finish.2.rendering = s.rendering ∧ s.finish.2.building = s.building := by
  unfold finish
  split <;> exact ⟨rfl, rfl, rfl, rfl, rfl⟩

theorem tickCode_keeps (s : Session) :
    s.tickCode.2.root = s.root ∧ s.tickCode.2.lines = s.lines ∧
      s.tickCode.2.context = s.context ∧ s.tickCode.2.building = s.building := by
  unfold tickCode
  split <;> exact ⟨rfl, rfl, rfl, rfl⟩

theorem move_tick {s u : Session} {result : Except SessionFault (Option BuildReport)}
    (h : s.tick = (result, u)) : s.move .tick = (result.map .built, u) := by
  rw [move, h]

theorem move_tickCode {s u : Session} {result : Except SessionFault (Option Report)}
    (h : s.tickCode = (result, u)) : s.move .tickCode = (result.map .rendered, u) := by
  rw [move, h]

def textWith (s : Session) (more : List Node) : String :=
  (Node.mk s.root (.block "Program" (s.lines ++ more))).text 0

inductive Streams (s : Session) : Prop where
  | idle (rendering : s.rendering = none) (output : s.output = "")
  | running (r : Rendering) (rendering : s.rendering = some r) (running : r.ended = false)
      (output : ∀ more, s.textWith more = s.output ++ codeText (r.left s.root (s.lines ++ more)))
  | ended (r : Rendering) (rendering : s.rendering = some r) (ended : r.ended = true)
      (output : ∀ more, ∃ rest, s.textWith more = s.output ++ rest)

theorem Streams.grow {s u : Session} (h : s.Streams) {added : List Node}
    (lines : u.lines = s.lines ++ added) (root : u.root = s.root) (output : u.output = s.output)
    (rendering : u.rendering = s.rendering) : u.Streams := by
  have text (more : List Node) : u.textWith more = s.textWith (added ++ more) := by
    simp [textWith, lines, root]
  cases h with
  | idle idle empty => exact .idle (rendering.trans idle) (output.trans empty)
  | running r at_r running prints =>
    refine .running r (rendering.trans at_r) running fun more => ?_
    rw [text, prints, output, lines, root, List.append_assoc]
  | ended r at_r ended prints =>
    refine .ended r (rendering.trans at_r) ended fun more => ?_
    rw [text, output]
    exact prints _

theorem streams_tick {s : Session} (h : s.Streams) : s.tick.2.Streams := by
  obtain ⟨root, output, rendering⟩ := s.tick_keeps
  have grown : ∃ added, s.tick.2.lines = s.lines ++ added := by
    obtain ⟨-, ticked⟩ | ⟨-, ticked⟩ | ⟨_, _, node, _, -, -, ticked⟩ | ⟨_, _, _, _, -, -, ticked⟩ :=
      s.tick_cases
    · exact ⟨[], by simp [ticked]⟩
    · exact ⟨[], by simp [ticked]⟩
    · exact ⟨[node], by rw [ticked]⟩
    · exact ⟨[], by simp [ticked]⟩
  obtain ⟨added, lines⟩ := grown
  exact h.grow lines root output rendering

theorem streams_finish {s : Session} (h : s.Streams) : s.finish.2.Streams := by
  obtain ⟨root, lines, output, rendering, -⟩ := s.finish_keeps
  exact h.grow (lines.trans (List.append_nil _).symm) root output rendering

theorem streams_beginCode (s : Session) : s.beginCode.Streams := by
  refine .running {} rfl rfl fun more => ?_
  simp [textWith, beginCode, Rendering.left, Rendering.ahead_true, Node.text]

theorem tickCode_cases {s : Session} {r : Rendering} (at_r : s.rendering = some r)
    (running : r.ended = false)
    (prints : ∀ more, s.textWith more = s.output ++ codeText (r.left s.root (s.lines ++ more))) :
    (∃ report r', s.tickCode = (.ok (some report),
        { s with rendering := some r', output := s.output ++ report.code }) ∧ r'.ended = false ∧
      ∀ more, s.textWith more =
        s.output ++ report.code ++ codeText (r'.left s.root (s.lines ++ more))) ∨
    ∃ r', s.tickCode = (.ok none, { s with rendering := some r' }) ∧ r'.ended = true ∧
      s.output = s.tree.text 0 := by
  obtain ⟨report, r', stepped, running', code⟩ | ⟨r', stepped, ended, nothing⟩ :=
    Rendering.step_code s.root s.lines running
  · refine .inl ⟨report, r', by simp [tickCode, at_r, stepped], running', fun more => ?_⟩
    rw [prints, code, String.append_assoc]
  · refine .inr ⟨r', by simp [tickCode, at_r, stepped], ended, ?_⟩
    have all := prints []
    rw [List.append_nil, nothing] at all
    simpa [textWith, tree] using all.symm

theorem streams_tickCode {s : Session} (h : s.Streams) : s.tickCode.2.Streams := by
  cases h with
  | idle idle empty =>
    have same : s.tickCode.2 = s := by simp [tickCode, idle]
    rw [same]
    exact .idle idle empty
  | ended r at_r ended prints =>
    have same : s.tickCode.2 = { s with rendering := some r } := by
      simp [tickCode, at_r, Rendering.step, ended]
    rw [same]
    exact .ended r rfl ended prints
  | running r at_r running prints =>
    obtain ⟨report, r', ticked, running', prints'⟩ | ⟨r', ticked, ended, all⟩ :=
      tickCode_cases at_r running prints
    · rw [ticked]
      exact .running r' rfl running' prints'
    · rw [ticked]
      exact .ended r' rfl ended fun more => ⟨_, prints more⟩

theorem Streams.text {s : Session} (h : s.Streams) : ∃ rest, s.tree.text 0 = s.output ++ rest := by
  have now : s.textWith [] = s.tree.text 0 := by simp [textWith, tree]
  rw [← now]
  cases h with
  | idle idle empty => exact ⟨s.textWith [], by simp [empty]⟩
  | running r at_r running prints => exact ⟨_, prints []⟩
  | ended r at_r ended prints => exact prints []

theorem streams_after {s : Session} (h : s.Streams) (moves : List Move) :
    (s.after moves).Streams := by
  induction moves generalizing s with
  | nil => exact h
  | cons m moves ih =>
    cases m with
    | tick => exact ih (streams_tick h)
    | finish => exact ih (streams_finish h)
    | beginCode => exact ih (streams_beginCode s)
    | tickCode => exact ih (streams_tickCode h)

def Unended (s : Session) : Prop := ∀ r, s.rendering = some r → r.ended = false

theorem Unended.move {s : Session} (h : s.Unended) (streams : s.Streams) {m : Move}
    (hm : (s.move m).1 ≠ .ok (.rendered none)) : (s.move m).2.Unended := by
  cases m with
  | tick =>
    intro r hr
    exact h r (s.tick_keeps.2.2.symm.trans hr)
  | finish =>
    intro r hr
    exact h r (s.finish_keeps.2.2.2.1.symm.trans hr)
  | beginCode =>
    intro r hr
    cases hr
    rfl
  | tickCode =>
    cases streams with
    | idle idle empty =>
      have ticked : s.tickCode = (.error .notRendering, s) := by simp [tickCode, idle]
      rw [move_tickCode ticked]
      exact h
    | ended r at_r ended prints => simp [h r at_r] at ended
    | running r at_r running prints =>
      obtain ⟨report, r', ticked, running', -⟩ | ⟨r', ticked, -, -⟩ :=
        tickCode_cases at_r running prints
      · rw [move_tickCode ticked]
        intro r'' hr
        obtain rfl := Option.some.inj hr
        exact running'
      · rw [move_tickCode ticked] at hm
        exact absurd rfl hm

theorem Unended.after {s : Session} (h : s.Unended) (streams : s.Streams) {moves : List Move}
    (hm : .ok (.rendered none) ∉ s.replies moves) : (s.after moves).Unended := by
  induction moves generalizing s with
  | nil => exact h
  | cons m moves ih =>
    simp only [replies, List.mem_cons, not_or] at hm
    have first := h.move streams (Ne.symm hm.1)
    exact ih first (streams_after streams [m]) hm.2

theorem Unended.output {s : Session} (h : s.Unended) (streams : s.Streams)
    (done : (s.move .tickCode).1 = .ok (.rendered none)) :
    (s.move .tickCode).2.output = (s.move .tickCode).2.tree.text 0 := by
  cases streams with
  | idle idle empty =>
    have ticked : s.tickCode = (.error .notRendering, s) := by simp [tickCode, idle]
    rw [move_tickCode ticked] at done
    cases done
  | ended r at_r ended prints => simp [h r at_r] at ended
  | running r at_r running prints =>
    obtain ⟨report, r', ticked, -, -⟩ | ⟨r', ticked, -, all⟩ := tickCode_cases at_r running prints
    · rw [move_tickCode ticked] at done
      cases done
    · rw [move_tickCode ticked]
      exact all

structure Built (c : Context) (actions : List Action) (k : Nat) (s : Session) : Prop where
  building : s.building = some (actions.drop k)
  lines : exec (buildAll (actions.take k)) c = (.ok s.lines, s.context)

theorem Built.tick {c : Context} {actions : List Action} {k : Nat} {s : Session}
    (h : Built c actions k s) (ok : s.tick.1.isOk = true) : Built c actions (k + 1) s.tick.2 := by
  have next : actions[k]? = (actions.drop k).head? := List.head?_drop.symm
  have later : actions.drop (k + 1) = (actions.drop k).tail := List.tail_drop.symm
  have taken : actions.take (k + 1) = actions.take k ++ (actions.drop k).head?.toList := by
    rw [List.take_add_one, next]
  obtain ⟨none_begun, ticked⟩ | ⟨spent, ticked⟩ | ⟨action, rest, node, d, hb, hx, ticked⟩ |
    ⟨action, rest, fault, d, hb, -, ticked⟩ := s.tick_cases
  · rw [ticked] at ok
    cases ok
  · have nothing : actions.drop k = [] := Option.some.inj (h.building.symm.trans spent)
    rw [ticked]
    exact
      { building := by rw [later, nothing]; exact spent
        lines := by rw [taken, nothing]; simpa using h.lines }
  · have first : actions.drop k = action :: rest := Option.some.inj (h.building.symm.trans hb)
    have alone : exec (buildAll [action]) s.context = (.ok [node], d) :=
      exec_buildAll_cons.mpr ⟨node, [], d, hx, by rw [buildAll, exec_pure], rfl⟩
    rw [ticked]
    exact
      { building := by rw [later, first]; rfl
        lines := by
          rw [taken, first]
          exact exec_buildAll_append.mpr ⟨s.lines, [node], s.context, h.lines, alone, rfl⟩ }
  · rw [ticked] at ok
    cases ok

theorem Built.after {c : Context} {actions : List Action} {k : Nat} {s : Session}
    (h : Built c actions k s) {moves : List Move} (unfinished : .finish ∉ moves)
    (ok : ∀ reply ∈ s.replies moves, reply.isOk = true) :
    Built c actions (k + moves.count .tick) (s.after moves) := by
  induction moves generalizing s k with
  | nil => exact h
  | cons m moves ih =>
    rw [replies, List.forall_mem_cons] at ok
    rw [List.mem_cons, not_or] at unfinished
    cases m with
    | tick =>
      have ticked : s.tick.1.isOk = true := by
        obtain ⟨ok, -⟩ := ok
        cases result : s.tick with
        | mk r u =>
          rw [move_tick result] at ok
          cases r with
          | ok report => rfl
          | error fault => cases ok
      have rest := ih (h.tick ticked) unfinished.2 ok.2
      rw [List.count_cons_self, Nat.add_comm (moves.count .tick), ← Nat.add_assoc]
      exact rest
    | finish => exact absurd rfl unfinished.1
    | beginCode =>
      have same : Built c actions k s.beginCode := ⟨h.building, h.lines⟩
      rw [List.count_cons_of_ne (by decide)]
      exact ih same unfinished.2 ok.2
    | tickCode =>
      obtain ⟨-, lines, context, building⟩ := s.tickCode_keeps
      have same : Built c actions k s.tickCode.2 :=
        ⟨building.trans h.building, by rw [lines, context]; exact h.lines⟩
      rw [List.count_cons_of_ne (by decide)]
      exact ih same unfinished.2 ok.2

/-- A move that stops with a fault has reported nothing before. -/
def FaultsQuietly (s : Session) : List Move → Prop
  | [] => True
  | m :: moves =>
    ((s.move m).1.isOk = false → (s.move m).2.diagnostics = s.diagnostics) ∧
      (s.move m).2.FaultsQuietly moves

/-- What the reports of all replies say was found, in the order of the replies. -/
def reported (replies : List (Except SessionFault Reply)) : List Diagnostic :=
  replies.flatMap fun
    | .ok reply => reply.diagnostics
    | .error _ => []

theorem reported_ok (reply : Reply) : reported [.ok reply] = reply.diagnostics := by
  simp [reported]

def Ready (s : Session) : Prop := ∀ rest, s.building = some rest → ∀ a ∈ rest, a.WellFormed

theorem Ready.move {s : Session} (h : s.Ready) (m : Move) : (s.move m).2.Ready := by
  cases m with
  | tick =>
    obtain ⟨-, ticked⟩ | ⟨-, ticked⟩ | ⟨action, rest, _, _, hb, -, ticked⟩ |
      ⟨_, _, _, _, -, -, ticked⟩ := s.tick_cases
    · rw [move_tick ticked]
      exact h
    · rw [move_tick ticked]
      exact h
    · rw [move_tick ticked]
      intro rest' hr a ha
      obtain rfl := Option.some.inj hr
      exact h _ hb a (by simp [ha])
    · rw [move_tick ticked]
      intro rest' hr a ha
      obtain rfl := Option.some.inj hr
      cases ha
  | finish =>
    intro rest hr
    exact h rest (s.finish_keeps.2.2.2.2.symm.trans hr)
  | beginCode => exact h
  | tickCode =>
    intro rest hr
    exact h rest (s.tickCode_keeps.2.2.2.symm.trans hr)

theorem log_build {action : Action} (h : action.WellFormed) (c : Context) :
    c.log.diagnostics <+: (exec (build action) c).2.log.diagnostics :=
  (keeps_build steps_extends h c).1.log

theorem diagnostics_of_finish (s : Session) :
    s.finish.2.diagnostics = s.diagnostics ++ s.finish.1.diagnostics := by
  unfold finish
  split
  · simp
  · exact List.prefix_append_drop (by simp [diagnostics, Context.report])

/-- A move adds to the log what its report says; one that stops with a fault may have added
something, and gives no report. -/
theorem move_diagnostics {s : Session} (h : s.Ready) (m : Move) :
    ((s.move m).1.isOk = true ∧
      (s.move m).2.diagnostics = s.diagnostics ++ reported [(s.move m).1]) ∨
    ((s.move m).1.isOk = false ∧ reported [(s.move m).1] = [] ∧
      s.diagnostics <+: (s.move m).2.diagnostics) := by
  cases m with
  | tick =>
    obtain ⟨-, ticked⟩ | ⟨-, ticked⟩ | ⟨action, rest, node, d, hb, hx, ticked⟩ |
      ⟨action, rest, fault, d, hb, hx, ticked⟩ := s.tick_cases
    · rw [move_tick ticked]
      exact .inr ⟨rfl, rfl, List.prefix_rfl⟩
    · rw [move_tick ticked]
      exact .inl ⟨rfl, (List.append_nil _).symm⟩
    · have grown := log_build (h _ hb action (by simp)) s.context
      rw [hx] at grown
      rw [move_tick ticked]
      have said := reported_ok (.built (some
        ⟨node.label, node.error, d.log.diagnostics.drop s.diagnostics.length⟩))
      exact .inl ⟨rfl, (List.prefix_append_drop grown).trans (congrArg _ said.symm)⟩
    · have grown := log_build (h _ hb action (by simp)) s.context
      rw [hx] at grown
      rw [move_tick ticked]
      exact .inr ⟨rfl, rfl, grown⟩
  | finish =>
    have said := reported_ok (.finished s.finish.1)
    exact .inl ⟨rfl, s.diagnostics_of_finish.trans (congrArg _ said.symm)⟩
  | beginCode => exact .inl ⟨rfl, (List.append_nil _).symm⟩
  | tickCode =>
    have same : (s.move .tickCode).2.diagnostics = s.diagnostics := by
      rw [move, diagnostics, s.tickCode_keeps.2.2.1]
      rfl
    rw [same]
    cases rendering : s.rendering with
    | none =>
      have ticked : s.tickCode = (.error .notRendering, s) := by simp [tickCode, rendering]
      rw [move_tickCode ticked]
      exact .inr ⟨rfl, rfl, List.prefix_rfl⟩
    | some r =>
      have ticked : s.tickCode.1 = .ok (r.step s.root s.lines).1 := by simp [tickCode, rendering]
      rw [move, ticked]
      exact .inl ⟨rfl, (List.append_nil _).symm⟩

theorem reported_cons (reply : Except SessionFault Reply)
    (replies : List (Except SessionFault Reply)) :
    reported (reply :: replies) = reported [reply] ++ reported replies := by
  simp [reported]

theorem length_reported_le {s : Session} (h : s.Ready) (moves : List Move) :
    s.diagnostics.length + (reported (s.replies moves)).length ≤
      (s.after moves).diagnostics.length := by
  induction moves generalizing s with
  | nil => simp [replies, after, reported]
  | cons m moves ih =>
    have later := ih (h.move m)
    rw [replies, after, reported_cons, List.length_append]
    obtain ⟨-, added⟩ | ⟨-, nothing, grown⟩ := move_diagnostics h m
    · rw [added, List.length_append] at later
      omega
    · have := grown.length_le
      rw [nothing, List.length_nil]
      omega

theorem reported_iff {s : Session} (h : s.Ready) (moves : List Move) :
    s.diagnostics ++ reported (s.replies moves) = (s.after moves).diagnostics ↔
      s.FaultsQuietly moves := by
  induction moves generalizing s with
  | nil => simp [replies, after, reported, FaultsQuietly]
  | cons m moves ih =>
    have later := ih (h.move m)
    have bound := length_reported_le (h.move m) moves
    rw [replies, after, reported_cons, FaultsQuietly, ← later]
    obtain ⟨ok, added⟩ | ⟨fault, nothing, grown⟩ := move_diagnostics h m
    · rw [added, List.append_assoc]
      simp [ok]
    · rw [nothing, List.nil_append]
      constructor
      · intro all
        have lengths := congrArg List.length all
        rw [List.length_append] at lengths
        have same := grown.eq_of_length_le (by omega)
        rw [← same]
        exact ⟨fun _ => rfl, all⟩
      · intro ⟨quiet, all⟩
        rw [← quiet fault]
        exact all

theorem root_move (s : Session) (m : Move) : (s.move m).2.root = s.root := by
  cases m with
  | tick => exact s.tick_keeps.1
  | finish => exact s.finish_keeps.1
  | beginCode => rfl
  | tickCode => exact s.tickCode_keeps.1

theorem root_after (s : Session) (moves : List Move) : (s.after moves).root = s.root := by
  induction moves generalizing s with
  | nil => rfl
  | cons m moves ih => rw [after, ih, root_move]

/-- What holds of a begun session after moves without a fault. -/
structure Agrees (s₀ : Session) (program : Value) (name : String) (s : Session)
    (moves : List Move) : Prop where
  /-- The output begins the text of the program as it is. -/
  output : ∃ rest, (s.after moves).tree.text 0 = (s.after moves).output ++ rest
  /-- The program is the one that the actions taken so far build in a row. -/
  lines : exec (buildAll (s.actions.take (moves.count .tick))) s.context =
    (.ok (s.after moves).lines, (s.after moves).context)
  /-- When the rendering ends for the first time, the output is the text of the program. -/
  done : ∀ earlier, moves = earlier ++ [.tickCode] →
    (s.replies moves).getLast? = some (.ok (.rendered none)) →
    .ok (.rendered none) ∉ s.replies earlier →
    (s.after moves).output = (s.after moves).tree.text 0 ∧
      (s.actions.length ≤ moves.count .tick →
        (s₀.runAll program name).1 = .ok (s.after moves).output)

/-- Under every schedule of a begun session without a fault, the rendering agrees with the program
as far as it is built; and under any schedule, the reports say what the log holds exactly when no
move reports something and stops with a fault then. -/
theorem schedule_agrees {s₀ s : Session} {program : Value} {name : String}
    (begun : s₀.begin program name = (.ok (), s)) :
    (∀ moves, .finish ∉ moves → (∀ reply ∈ s.replies moves, reply.isOk = true) →
      Agrees s₀ program name s moves) ∧
    ∀ moves, reported (s.replies moves) = (s.after moves).diagnostics ↔ s.FaultsQuietly moves := by
  obtain ⟨actions, read, rfl⟩ := begin_ok begun
  generalize hs : ({ s₀.reset with name, actions, building := some actions } : Session) = s
  have streams : s.Streams := hs ▸ .idle rfl rfl
  have unended : s.Unended := by
    rintro r hr
    simp [← hs, reset, new] at hr
  have ready : s.Ready := by
    rintro rest hr
    obtain rfl : actions = rest := by simpa [← hs] using hr
    exact Action.wellFormed_sequence read
  have built : Built s.context actions 0 s := by
    subst hs
    exact ⟨rfl, by rw [List.take_zero, buildAll]; rfl⟩
  have begins : s.actions = actions ∧ s.root = {} ∧ s.diagnostics = [] ∧
      s.context = { reportAll := s₀.options.reportAll } := by
    subst hs
    exact ⟨rfl, rfl, rfl, rfl⟩
  obtain ⟨all, root, silent, context⟩ := begins
  constructor
  · intro moves unfinished ok
    have lines := (built.after unfinished ok).lines
    rw [Nat.zero_add] at lines
    refine ⟨(streams_after streams moves).text, by rw [all]; exact lines, ?_⟩
    rintro earlier rfl last fresh
    rw [replies_append] at last
    have ended : ((s.after earlier).move .tickCode).1 = .ok (.rendered none) := by
      simpa [replies] using last
    have text : (s.after (earlier ++ [Move.tickCode])).output =
        (s.after (earlier ++ [Move.tickCode])).tree.text 0 := by
      rw [after_append]
      exact (unended.after streams fresh).output (streams_after streams earlier) ended
    refine ⟨text, fun whole => runAll_ok.mpr ?_⟩
    rw [all] at whole
    rw [List.take_of_length_le whole, context] at lines
    refine ⟨actions, _, _, read, lines, ?_⟩
    rw [text, tree, root_after, root]
  · intro moves
    have reports := reported_iff ready moves
    rw [silent, List.nil_append] at reports
    exact reports

def constantThenUnknown : Value :=
  .list [.object [("node", .string "const"), ("type", .string "int"), ("value", .string "1")],
    .object [("node", .string "var"), ("name", .string "x")]]

def buildAmidRendering : List Move :=
  [.tick, .beginCode, .tickCode, .tickCode, .tick, .tickCode, .tickCode, .tickCode]

theorem schedule_agrees_amid_rendering :
    let s := (begin {} constantThenUnknown "").2
    (begin {} constantThenUnknown "").1 = .ok () ∧ .finish ∉ buildAmidRendering ∧
      (∀ reply ∈ s.replies buildAmidRendering, reply.isOk = true) ∧
      (s.after buildAmidRendering).output = "1\nx" ∧
      (s.after buildAmidRendering).diagnostics.length = 1 ∧
      s.FaultsQuietly buildAmidRendering ∧
      Agrees {} constantThenUnknown "" s buildAmidRendering ∧
      (reported (s.replies buildAmidRendering) = (s.after buildAmidRendering).diagnostics ↔
        s.FaultsQuietly buildAmidRendering) := by
  intro s
  have begun : begin {} constantThenUnknown "" = (.ok (), s) := Prod.ext rfl rfl
  have ok : ∀ reply ∈ s.replies buildAmidRendering, reply.isOk = true := by decide +kernel
  have reports : reported (s.replies buildAmidRendering) =
      (s.after buildAmidRendering).diagnostics := by decide +kernel
  obtain ⟨streamed, logged⟩ := schedule_agrees begun
  exact ⟨rfl, by decide, ok, by decide +kernel, by decide +kernel, (logged _).mp reports,
    streamed _ (by decide) ok, logged _⟩

def brokenSum : Value :=
  .list [.object [("node", .string "op"), ("op", .string "+"),
    ("operands", .list [.object [("node", .string "var"), ("name", .string "ghost")], .int 7])]]

/-- The tick reports the unknown name and stops with a fault then: no report tells of it. -/
theorem fault_hides_diagnostic :
    let s := (begin {} brokenSum "").2
    (begin {} brokenSum "").1 = .ok () ∧ reported (s.replies [.tick]) = [] ∧
      (s.after [.tick]).diagnostics.map (·.text) =
        ["[Line 1] semantic error: undeclared variable ghost"] := by
  decide +kernel

end Session
end Treewright
