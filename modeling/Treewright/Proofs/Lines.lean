import Treewright.Proofs.Format
import Treewright.Proofs.Scripts
import Treewright.Proofs.Sessions
set_option autoImplicit false

namespace Treewright

open Build

def Step.line? : Step → Option Int
  | .advance line => some line
  | _ => none

/-- The lines of the actions that were entered, in order. -/
def entered (steps : List Step) : List Int := steps.filterMap Step.line?

namespace Context

/-- What one step can do: it may move the counter, and what it adds is on the line before that. -/
structure Adds (c : Context) (step : Step) (d : Context) : Prop where
  line : d.line = step.line?.elim c.line (max c.line)
  diagnostics : ∃ new : List Diagnostic,
    d.log.diagnostics = c.log.diagnostics ++ new ∧ ∀ x ∈ new, x.line = c.line
  symbols : ∃ new : List Symbol,
    d.table.symbols = c.table.symbols ++ new ∧ ∀ x ∈ new, x.line = c.line

namespace Adds

variable {c d : Context} {step : Step}

theorem of_table (still : step.line? = none) (log : d.log = c.log)
    (symbols : d.table.symbols = c.table.symbols) : c.Adds step d where
  line := by
    rw [still]
    exact congrArg Log.line log
  diagnostics := ⟨[], by simp [log]⟩
  symbols := ⟨[], by simp [symbols]⟩

theorem report (still : step.line? = none) (c : Context) (problems : List Problem) :
    c.Adds step (c.report problems) where
  line := by simp [still]
  diagnostics := by
    refine ⟨problems.map (Diagnostic.mk c.line), by simp [Context.report, Context.line], ?_⟩
    simp
  symbols := ⟨[], by simp⟩

theorem symbol (still : step.line? = none) (c : Context) {table : Table} {s : Symbol}
    (symbols : table.symbols = c.table.symbols ++ [s]) (line : s.line = c.line) :
    c.Adds step { c with table } where
  line := by rw [still]; rfl
  diagnostics := ⟨[], by simp⟩
  symbols := ⟨[s], symbols, by simpa using line⟩

end Adds

theorem adds_take (c : Context) (step : Step) : c.Adds step (c.take step) := by
  cases step with
  | advance line =>
    refine ⟨?_, ⟨[], ?_⟩, ⟨[], ?_⟩⟩
    · simp [take, Context.line, advanceTo, Log.line_advanceTo, Step.line?]
    · simp [take, advanceTo]
    · simp [take, advanceTo]
  | report problems => exact .report rfl c problems
  | declare name type =>
    rw [take]
    rcases c.declare_cases name type c.line with ⟨-, he⟩ | ⟨-, he⟩ <;> rw [he]
    · exact .symbol rfl c rfl rfl
    · exact .report rfl c _
  | declareFunction name params returns =>
    rw [take]
    rcases c.declareFunction_cases name params returns c.line with
      ⟨-, he⟩ | ⟨s, -, ⟨-, he⟩ | ⟨-, he⟩⟩ <;> rw [he]
    · exact .symbol rfl c rfl rfl
    · exact .of_table rfl rfl rfl
    · exact .report rfl c _
  | define name =>
    refine .of_table rfl rfl ?_
    rw [take, Table.define?_eq]
    cases c.table.functionNamed name with
    | none => rfl
    | some s =>
      simp only [Option.map_some, Option.getD_some, Table.mark]
      split <;> rfl
  | enter name => exact .of_table rfl rfl rfl
  | leave =>
    rw [take]
    cases hl : c.leave? with
    | none => exact .of_table rfl rfl rfl
    | some d =>
      obtain ⟨scope, outer, -, rfl⟩ := leave?_eq hl
      exact .of_table rfl rfl rfl

end Context

/-- Lines in order, from the first line there is up to a last one. -/
structure Ascends (lines : List Int) (last : Int) : Prop where
  sorted : lines.Pairwise (· ≤ ·)
  bounds : ∀ line ∈ lines, 1 ≤ line ∧ line ≤ last

theorem Ascends.append {lines new : List Int} {line last : Int} (h : Ascends lines line)
    (hnew : ∀ l ∈ new, l = line) (hfirst : 1 ≤ line) (hlast : line ≤ last) :
    Ascends (lines ++ new) last where
  sorted := by
    refine List.pairwise_append.mpr ⟨h.sorted, ?_, fun a ha b hb => ?_⟩
    · rw [List.pairwise_iff_forall_sublist]
      intro a b hab
      have ha := hnew a (hab.subset (by simp))
      have hb := hnew b (hab.subset (by simp))
      omega
    · rw [hnew b hb]
      exact (h.bounds a ha).2
  bounds l hl := by
    rcases List.mem_append.mp hl with hl | hl
    · have hbounds := h.bounds l hl
      omega
    · rw [hnew l hl]
      omega

namespace Context

structure Forward (c : Context) : Prop where
  line : 1 ≤ c.line
  diagnostics : Ascends (c.log.diagnostics.map (·.line)) c.line
  symbols : Ascends (c.table.symbols.map (·.line)) c.line

theorem Adds.line_le {c d : Context} {step : Step} (h : c.Adds step d) : c.line ≤ d.line := by
  rw [h.line]
  cases step.line? with
  | none => exact Int.le_refl _
  | some line => exact Int.le_max_left _ _

theorem Adds.forward {c d : Context} {step : Step} (h : c.Adds step d) (hc : c.Forward) :
    d.Forward := by
  have hle := h.line_le
  have hfirst := hc.line
  obtain ⟨new, hd, hnew⟩ := h.diagnostics
  obtain ⟨news, hs, hnews⟩ := h.symbols
  refine ⟨by omega, ?_, ?_⟩
  · rw [hd, List.map_append]
    exact hc.diagnostics.append (List.forall_mem_map.mpr hnew) hfirst hle
  · rw [hs, List.map_append]
    exact hc.symbols.append (List.forall_mem_map.mpr hnews) hfirst hle

theorem Forward.replay {c : Context} (h : c.Forward) (steps : List Step) :
    (c.replay steps).Forward := by
  induction steps generalizing c with
  | nil => exact h
  | cons step steps ih => exact ih ((c.adds_take step).forward h)

theorem line_replay (c : Context) (steps : List Step) :
    (c.replay steps).line = (entered steps).foldl max c.line := by
  induction steps generalizing c with
  | nil => rfl
  | cons step steps ih =>
    rw [replay_cons, ih, (c.adds_take step).line, entered, entered, List.filterMap_cons]
    cases step.line? <;> rfl

theorem prefix_replay (c : Context) (steps : List Step) :
    c.log.diagnostics <+: (c.replay steps).log.diagnostics := by
  induction steps generalizing c with
  | nil => exact List.prefix_rfl
  | cons step steps ih =>
    obtain ⟨new, hd, -⟩ := (c.adds_take step).diagnostics
    exact List.IsPrefix.trans ⟨new, hd.symm⟩ (ih (c.take step))

theorem exists_step_of_diagnostic {c : Context} {steps : List Step} {i : Nat} {d : Diagnostic}
    (hi : c.log.diagnostics.length ≤ i)
    (hd : (c.replay steps).log.diagnostics[i]? = some d) :
    ∃ before step after, steps = before ++ step :: after ∧
      (c.replay before).log.diagnostics.length ≤ i ∧
      i < (c.replay (before ++ [step])).log.diagnostics.length ∧
      d.line = (c.replay before).line := by
  induction steps generalizing c with
  | nil =>
    rw [replay_nil, List.getElem?_eq_none hi] at hd
    cases hd
  | cons step steps ih =>
    by_cases hlt : i < (c.take step).log.diagnostics.length
    · refine ⟨[], step, steps, rfl, hi, hlt, ?_⟩
      -- What comes later is put behind it.
      obtain ⟨rest, hrest⟩ := prefix_replay (c.take step) steps
      obtain ⟨new, hnew, hline⟩ := (c.adds_take step).diagnostics
      rw [replay_cons, ← hrest, List.getElem?_append_left hlt, hnew,
        List.getElem?_append_right hi] at hd
      exact hline d (List.mem_of_getElem? hd)
    · obtain ⟨before, last, after, rfl, hbefore, hlast, hline⟩ := ih (by omega) hd
      exact ⟨step :: before, last, after, rfl, hbefore, hlast, hline⟩

end Context

namespace Session

theorem ticks_spec {s : Session} {rest : List Action} (hb : s.building = some rest) (n : Nat) :
    (s.ticks n).2.context = (exec (buildAll (rest.take n)) s.context).2 ∧
      (s.ticks n).2.finished = s.finished := by
  induction n generalizing s rest with
  | zero => simp [ticks, buildAll, exec_pure]
  | succ n ih =>
    cases rest with
    | nil =>
      have htick : s.tick = (.ok none, s) := by simp [tick, hb]
      rw [ticks, htick]
      simpa using ih hb
    | cons action rest =>
      rw [ticks, tick_of_building hb, List.take_succ_cons, buildAll, exec_bind]
      cases exec (build action) s.context with
      | mk r d =>
        cases r with
        | error fault => exact ⟨rfl, rfl⟩
        | ok node =>
          obtain ⟨hcontext, hfinished⟩ := ih (s := { s with
            context := d, lines := s.lines ++ [node], building := some rest }) rfl
          refine ⟨hcontext.trans ?_, hfinished⟩
          change _ = (exec (buildAll (rest.take n) >>= fun ns => pure (node :: ns)) d).2
          rw [exec_bind]
          cases exec (buildAll (rest.take n)) d with
          | mk r e => cases r <;> rfl

theorem begin_list (s : Session) (program : List Value) (name : String) :
    let begun := (s.begin (.list program) name).2
    begun.building = some (program.map Action.ofValue) ∧
      begun.context = { reportAll := s.options.reportAll } ∧ begun.finished = false ∧
      begun.lines = [] := by
  rw [begin_of_read (Reading.sequence_list program)]
  exact ⟨rfl, rfl, rfl, rfl⟩

theorem context_finish {s : Session} (h : s.finished = false) :
    s.finish.2.context =
      s.context.take (.report (s.context.table.undefined.map fun f => .neverDefined f.name)) := by
  simp [finish, h, Context.take]

end Session

/-- However far the build of a program has come, whether it stopped at a fault, and whether the
session was finished then: diagnostics and symbols are in the order of their lines, from the first
line up to the counter, and each diagnostic is on the greatest line of the actions entered before
the step that reported it. -/
theorem lines_move_forward (s : Session) (program : List Value) (name : String) (n : Nat)
    (finished : Bool) :
    let start : Context := { reportAll := s.options.reportAll }
    let built := ((s.begin (.list program) name).2.ticks n).2
    let reached := if finished then built.finish.2 else built
    let problems := built.context.table.undefined.map fun f => Problem.neverDefined f.name
    let steps := scriptAll ((program.map Action.ofValue).take n) start ++
      if finished then [.report problems] else []
    reached.context = start.replay steps ∧
      Ascends (reached.diagnostics.map (·.line)) reached.context.line ∧
      Ascends (reached.context.table.symbols.map (·.line)) reached.context.line ∧
      ∀ i d, reached.diagnostics[i]? = some d → ∃ before step after,
        steps = before ++ step :: after ∧
        (start.replay before).log.diagnostics.length ≤ i ∧
        i < (start.replay (before ++ [step])).log.diagnostics.length ∧
        d.line = (entered before).foldl max 1 := by
  intro start built reached problems steps
  have hbuilt : built.context =
      start.replay (scriptAll ((program.map Action.ofValue).take n) start) ∧
        built.finished = false := by
    obtain ⟨building, context, unfinished, -⟩ := s.begin_list program name
    obtain ⟨hcontext, hfinished⟩ := Session.ticks_spec building n
    rw [context, plays_buildAll] at hcontext
    exact ⟨hcontext, hfinished.trans unfinished⟩
  have forward_start : start.Forward :=
    ⟨Int.le_refl 1, ⟨.nil, by simp [start]⟩, ⟨.nil, by simp [start]⟩⟩
  have hreached : reached.context = start.replay steps := by
    cases finished with
    | false => simpa [reached, steps] using hbuilt.1
    | true =>
      have hfinish := Session.context_finish hbuilt.2
      simp only [reached, steps, if_true, Context.replay_append, ← hbuilt.1]
      exact hfinish
  have forward : reached.context.Forward := by
    rw [hreached]
    exact Context.Forward.replay forward_start steps
  refine ⟨hreached, forward.diagnostics, forward.symbols, fun i d hd => ?_⟩
  have hd : (start.replay steps).log.diagnostics[i]? = some d := by
    rw [← hreached]
    exact hd
  obtain ⟨before, step, after, hsteps, hle, hlt, hline⟩ :=
    Context.exists_step_of_diagnostic (Nat.zero_le i) hd
  exact ⟨before, step, after, hsteps, hle, hlt, hline.trans (start.line_replay before)⟩

def stranger : List (String × Value) := [("node", .string "bogus"), ("line", .int 100)]

def backAndForth : List Value :=
  [.object [("node", .string "var"), ("name", .string "a"), ("line", .int 4)],
    .object [("node", .string "var"), ("name", .string "b"), ("line", .int 2)],
    .object stranger]

theorem lines_move_forward_back :
    let built := (((Session.new {}).begin (.list backAndForth) "").2.ticks 3).2
    let steps := scriptAll ((backAndForth.map Action.ofValue).take 3) {}
    built.diagnostics[1]? = some ⟨4, .undeclared (.text "b")⟩ ∧
      ∃ before step after, steps = before ++ step :: after ∧
        (({} : Context).replay before).log.diagnostics.length ≤ 1 ∧
        1 < (({} : Context).replay (before ++ [step])).log.diagnostics.length ∧
        (4 : Int) = (entered before).foldl max 1 := by
  intro built steps
  obtain ⟨-, -, -, reported⟩ := lines_move_forward (Session.new {}) backAndForth "" 3 false
  have second : built.diagnostics[1]? = some ⟨4, .undeclared (.text "b")⟩ := rfl
  obtain ⟨before, step, after, hsteps, hle, hlt, hline⟩ := reported 1 _ second
  simp only [Bool.false_eq_true, if_false, List.append_nil] at hsteps
  exact ⟨second, before, step, after, hsteps, hle, hlt, hline⟩

def strangerLast : List Value :=
  [.object [("node", .string "function"), ("returns", .string "void"), ("name", .string "f"),
      ("params", .list [])],
    .object stranger]

/-- The object is turned down before its line is looked at. The session is finished after that, and
yet it reports the prototype on the first line. -/
theorem stranger_line_passed_over :
    let ticked := ((Session.new {}).begin (.list strangerLast) "").2.ticks 2
    fieldOf? "line" stranger = some (.int 100) ∧
      ticked.1 = .error (.build (.flaw (.unknownKind (.string "bogus")))) ∧
      ticked.2.finish.2.diagnostics = [⟨1, .neverDefined (.text "f")⟩] ∧
      (1 : Int) ≠ [100].foldl max 1 :=
  ⟨rfl, rfl, rfl, by decide⟩

end Treewright
