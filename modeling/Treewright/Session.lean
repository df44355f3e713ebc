import Treewright.Action.Reading
import Treewright.Builder
set_option autoImplicit false

/-!
A session builds a program and renders it, one step at a time or all at once. The build takes one
action a tick. The rendering takes one report a tick and walks along the lines of the program as
they are at that moment, so lines added meanwhile are rendered too. Either one, once over, stays
over; a fault ends the build it happens in.
-/

namespace Treewright

structure BuildReport where
  label : String
  failed : Bool
  diagnostics : List Diagnostic
  deriving DecidableEq, Repr, Inhabited

def BuildReport.message (r : BuildReport) : String :=
  let count := r.diagnostics.length
  "Built " ++ r.label ++ if count = 0 then "" else s!" ({count} diagnostic(s))"

structure FinishReport where
  message : String
  diagnostics : List Diagnostic
  deriving DecidableEq, Repr, Inhabited

/-- How far a rendering has come: the reports of the line at hand that are still to be given, and
the place of the next line. -/
structure Rendering where
  started : Bool := false
  pending : List Report := []
  next : Nat := 0
  first : Bool := true
  ended : Bool := false
  deriving DecidableEq, Repr, Inhabited

inductive SessionFault where
  | build (fault : Fault)
  | notBuilding
  | notRendering
  deriving DecidableEq, Repr, Inhabited

def SessionFault.message : SessionFault → String
  | .build fault => fault.message
  | .notBuilding => "Build generator not initialized."
  | .notRendering => "Code generator not initialized."

namespace Rendering

/-- The next report out of the lines that were not looked at yet. A line that renders nothing is
passed over, and between two lines stands a line end. -/
def seek (root : Mark) (first : Bool) (next : Nat) : List Node → Option (Report × Rendering)
  | [] => none
  | line :: lines =>
    if line.isEmpty then seek root first (next + 1) lines
    else
      let lineEnd := root.report "Generating code for program (next line)..." "\n"
      match (if first then [] else [lineEnd]) ++ line.reports 0 with
      | [] => seek root false (next + 1) lines
      | report :: pending => some (report, ⟨true, pending, next + 1, false, false⟩)

def step (root : Mark) (lines : List Node) (r : Rendering) : Option Report × Rendering :=
  if r.ended then (none, r)
  else if !r.started then
    (some (root.report "Starting code generation." ""), { r with started := true })
  else
    match r.pending with
    | report :: pending => (some report, { r with pending })
    | [] =>
      match seek root r.first r.next (lines.drop r.next) with
      | some (report, r) => (some report, r)
      | none => (none, { r with ended := true })

end Rendering

structure Session where
  options : Options := {}
  past : List Diagnostic := []
  name : String := ""
  actions : List Action := []
  context : Context := {}
  root : Mark := {}
  lines : List Node := []
  output : String := ""
  finished : Bool := false
  /-- The actions that a begun build has still to take. -/
  building : Option (List Action) := none
  rendering : Option Rendering := none
  deriving Inhabited

namespace Session

def new (options : Options) : Session := { options, context := { reportAll := options.reportAll } }

def diagnostics (s : Session) : List Diagnostic := s.context.log.diagnostics

def tree (s : Session) : Node := .mk s.root (.block "Program" s.lines)

def echoed (s : Session) : String :=
  if s.options.echo then Log.echo (s.past ++ s.diagnostics) else ""

def reset (s : Session) : Session :=
  { Session.new s.options with past := s.past ++ s.diagnostics }

def begin (s : Session) (program : Value) (name : String) : Except SessionFault Unit × Session :=
  let s := { s.reset with name }
  match Action.sequence program with
  | .ok actions => (.ok (), { s with actions, building := some actions })
  | .error flaw => (.error (.build (.flaw flaw)), s)

def tick (s : Session) : Except SessionFault (Option BuildReport) × Session :=
  match s.building with
  | none => (.error .notBuilding, s)
  | some [] => (.ok none, s)
  | some (action :: rest) =>
    match (build action).run s.context with
    | (.error fault, context) =>
      (.error (.build fault), { s with context, building := some [] })
    | (.ok node, context) =>
      let diagnostics := context.log.diagnostics.drop s.diagnostics.length
      (.ok (some ⟨node.label, node.error, diagnostics⟩),
        { s with context, lines := s.lines ++ [node], building := some rest })

def ticks : Nat → Session → Except SessionFault Unit × Session
  | 0, s => (.ok (), s)
  | n + 1, s =>
    match s.tick with
    | (.error fault, s) => (.error fault, s)
    | (.ok _, s) => ticks n s

/-- Takes all actions that are left. Where nothing was begun there is nothing to do. -/
def finishBuilding (s : Session) : Except SessionFault Unit × Session :=
  match s.building with
  | none => (.ok (), s)
  | some rest => s.ticks rest.length

def finish (s : Session) : FinishReport × Session :=
  if s.finished then (⟨"Build already finished.", []⟩, s)
  else
    let problems := s.context.table.undefined.map fun f => Problem.neverDefined f.name
    let context := s.context.report problems
    let diagnostics := context.log.diagnostics.drop s.diagnostics.length
    (⟨s!"Build finished with {context.log.count} diagnostic(s).", diagnostics⟩,
      { s with context, finished := true })

def beginCode (s : Session) : Session := { s with output := "", rendering := some {} }

def tickCode (s : Session) : Except SessionFault (Option Report) × Session :=
  match s.rendering with
  | none => (.error .notRendering, s)
  | some r =>
    let (report, r) := r.step s.root s.lines
    let code := (report.map (·.code)).getD ""
    (.ok report, { s with rendering := some r, output := s.output ++ code })

def ticksCode : Nat → Session → Session
  | 0, s => s
  | n + 1, s => ticksCode n s.tickCode.2

/-- Renders to the end: there is a tick for each report, one to start and one to stop. -/
def renderAll (s : Session) : Session :=
  s.beginCode.ticksCode ((s.tree.reports 0).length + 2)

def runAll (s : Session) (program : Value) (name : String) : Except SessionFault String × Session :=
  match s.begin program name with
  | (.error fault, s) => (.error fault, s)
  | (.ok (), s) =>
    match s.finishBuilding with
    | (.error fault, s) => (.error fault, s)
    | (.ok (), s) =>
      let s := s.finish.2.renderAll
      (.ok s.output, s)

end Session
end Treewright
