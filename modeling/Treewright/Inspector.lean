import Treewright.Compilation
import Treewright.Node.Outline
import Treewright.Sheet
set_option autoImplicit false

/-!
The inspector goes through the build and the rendering of one program step by step and shows what
has come of it: the diagnostics and the symbols in tables, the tree, and the code in an editor. The
editor of the inspector is a panel, which selects the latest fragment; a bare string is one too.
Between steps nothing happens by itself.
-/

namespace Treewright

inductive Phase where
  | idle
  | building
  | rendering
  | done
  deriving DecidableEq, Repr, Inhabited

def Phase.title : Phase → String
  | .idle => ""
  | .building => "Building"
  | .rendering => "Code Generation"
  | .done => "Done"

def Phase.active : Phase → Bool
  | .building | .rendering => true
  | .idle | .done => false

inductive Tone where
  | info
  | error
  | success
  deriving DecidableEq, Repr, Inhabited

def Tone.title : Tone → String
  | .info => "info"
  | .error => "error"
  | .success => "success"

inductive Gesture where
  | tick
  | complete
  | toggle
  | faster
  | slower
  deriving DecidableEq, Repr, Inhabited

/-- The tree as it is shown: a title and the lines of the program under it. The rows get their ids
from a supply, the title the first one. -/
structure ShownTree where
  title : String := "global"
  lines : List Outline := []
  ids : Nat → Int := Int.ofNat
  deriving Inhabited

def movesCursor (c : Char) : Bool := ['\x07', '\x08', '\x0b', '\x0c', '\r'].contains c

def firstLine (s : String) : String :=
  String.ofList ((s.toList.filter fun c => !movesCursor c).takeWhile (· ≠ '\n'))

/-- The label of the row with an id; without one it is the title. -/
def ShownTree.labelOf (t : ShownTree) (id : Option Int) : String :=
  let row := ((Outline.preorderAll t.lines).zipIdx 1).find? fun row => some (t.ids row.2) = id
  (row.map (firstLine ·.1.label)).getD t.title

def Symbol.cells (table : Table) (s : Symbol) : List String :=
  let (kind, params, returns, defined) : String × String × String × String :=
    if s.isFunction then
      let params := (s.params?.getD []).map fun p => p.2.spelling ++ " " ++ p.1.text
      ("function", if params.isEmpty then "none" else "\n".intercalate params,
        (s.returns?.map (·.spelling)).getD "none", if table.isDefined s then "yes" else "no")
    else ((s.type?.map (·.spelling)).getD "None", "N/A", "N/A", "N/A")
  [toString s.line, s.name.written, kind, s.scope.written, params, returns, defined]

def Diagnostic.cells (d : Diagnostic) : List String :=
  [toString d.line, d.kind.tag, d.problem.message]

/-- A panel shows a sheet with a part of it selected, from one row and column to another. -/
structure Panel where
  sheet : Sheet := {}
  start : Nat × Nat := (0, 0)
  stop : Nat × Nat := (0, 0)
  deriving DecidableEq, Repr, Inhabited

namespace Panel

/-- Adds a fragment to the text and selects it. An index that the new sheet does not have is given
back, and then nothing is selected. -/
def add (p : Panel) (fragment : String) : Except Nat Unit × Panel :=
  if fragment = "" then (.ok (), p)
  else
    let before := p.sheet.text
    let sheet := Sheet.ofText (before ++ fragment)
    let first := before.length
    let last := first + fragment.length
    match sheet.place? first, sheet.place? last with
    | none, _ => (.error first, { sheet })
    | some _, none => (.error last, { sheet })
    | some start, some stop => (.ok (), { sheet, start, stop })

end Panel

class Editor (ε : Type) where
  empty : ε
  text : ε → String
  /-- Adds a fragment to the text. An index that the new text does not have is given back. -/
  add : ε → String → Except Nat Unit × ε

instance : Editor Panel := ⟨{}, (·.sheet.text), Panel.add⟩

instance : Editor String := ⟨"", id, fun text fragment => (.ok (), text ++ fragment)⟩

inductive GestureFault where
  | session (fault : SessionFault)
  /-- The code panel has no place of this index. -/
  | noPlace (index : Nat)
  deriving DecidableEq, Repr, Inhabited

def GestureFault.message : GestureFault → String
  | .session fault => fault.message
  | .noPlace index => s!"Index {index} does not correspond to a location in the document."

/-- How far the inspection of a program has come, with the code in an editor. -/
structure Inspection (ε : Type) where
  session : Session
  phase : Phase := .idle
  title : String := "Initializing..."
  bar : String := "Loading program..."
  tone : Option Tone := none
  running : Bool := false
  /-- The time between such steps, in tenths of a second. -/
  tenths : Nat := 5
  diagnostics : List Diagnostic := []
  symbols : List (List String) := []
  tree : ShownTree := {}
  panel : ε
  /-- The id of the node whose code came last. -/
  cursor : Option Int := none
  deriving Inhabited

def Session.numbered (s : Session) (ids : Nat → Int) : Session :=
  { s with
    root := { s.root with id := some (ids 0) }
    lines := (Node.numberedAll ids 1 s.lines).1 }

namespace Inspection

variable {ε : Type}

def post (i : Inspection ε) (bar : String) (tone : Tone) : Inspection ε :=
  { i with bar, tone := some tone }

def enter (i : Inspection ε) (phase : Phase) : Inspection ε :=
  let name := if i.session.name = "" then "(none)" else i.session.name
  { i with phase, title := phase.title ++ " | Program: " ++ name, running := false }

def stepsLeft (i : Inspection ε) : Nat :=
  match i.phase with
  | .building => (i.session.building.getD []).length + 1
  | .rendering => (i.session.tree.reports 0).length + 2
  | .idle | .done => 0

def allows (i : Inspection ε) : Gesture → Bool
  | .toggle | .complete => i.phase.active
  | .faster | .slower => i.phase.active && i.running
  | .tick => i.phase.active && !i.running

/-- The label that the cursor stands on, once there is a tree to stand on. -/
def cursorLabel (i : Inspection ε) : Option String :=
  match i.phase with
  | .idle | .building => none
  | .rendering | .done => if i.tree.lines.isEmpty then none else some (i.tree.labelOf i.cursor)

def interval (i : Inspection ε) : String := s!"{i.tenths / 10}.{i.tenths % 10}00000"

variable [Editor ε]

def new (options : Options) (loaded : Option (Except LoadFault Program)) :
    Except LoadFault (Inspection ε) :=
  let i : Inspection ε := { session := .new options, panel := Editor.empty }
  match loaded with
  | none => .ok (i.post "No program given." .error)
  | some (.error fault) =>
    if fault.told then .ok (i.post ("Error loading program: " ++ fault.message) .error)
    else .error fault
  | some (.ok program) =>
    let (_, session) := i.session.begin (.list program.actions) program.name
    .ok ({ i with session }.enter .building)

/-- Shows what a finished build has made, and goes on to the rendering. -/
def showBuild (i : Inspection ε) : Inspection ε :=
  let (report, session) := i.session.finish
  let session := session.numbered i.tree.ids
  let title := if session.name = "" then "global" else firstLine session.name
  let i :=
    { i with
      session := session.beginCode
      diagnostics := i.diagnostics ++ report.diagnostics
      tree := { i.tree with title, lines := session.lines.map Node.outline }
      symbols := session.context.table.symbols.map (Symbol.cells session.context.table)
      panel := Editor.empty }
  (i.enter .rendering).post report.message .info

def buildTick (i : Inspection ε) : Except GestureFault Unit × Inspection ε :=
  match i.session.tick with
  | (.error fault, session) =>
    let i := { i with session }
    if fault.malformed then
      (.ok (), (i.post ("Malformed program: " ++ fault.message) .error).enter .done)
    else (.error (.session fault), i)
  | (.ok (some report), session) =>
    let i := { i with session, diagnostics := i.diagnostics ++ report.diagnostics }
    (.ok (), i.post report.message (if report.failed then .error else .info))
  | (.ok none, session) => (.ok (), { i with session }.showBuild)

/-- Shows a report: its code is added and selected, and the cursor goes to its node. -/
def showReport (i : Inspection ε) (r : Report) : Except GestureFault Unit × Inspection ε :=
  match Editor.add i.panel r.code with
  | (.error index, panel) => (.error (.noPlace index), { i with panel })
  | (.ok (), panel) =>
    (.ok (), { i with panel, cursor := r.node.or i.cursor }.post r.message .info)

def renderTick (i : Inspection ε) : Except GestureFault Unit × Inspection ε :=
  match i.session.tickCode with
  | (.error fault, session) => (.error (.session fault), { i with session })
  | (.ok (some report), session) => { i with session }.showReport report
  | (.ok none, session) =>
    let i := { i with session }.enter .done
    let count := session.diagnostics.length
    (.ok (), if count = 0 then i.post "Rendered without semantic errors." .success
      else i.post s!"Rendered with {count} semantic error(s)." .error)

def tick (i : Inspection ε) : Except GestureFault Unit × Inspection ε :=
  match i.phase with
  | .building => i.buildTick
  | .rendering => i.renderTick
  | .idle | .done => (.ok (), i)

def ticksIn (phase : Phase) : Nat → Inspection ε → Except GestureFault Unit × Inspection ε
  | 0, i => (.ok (), i)
  | n + 1, i =>
    if i.phase = phase then
      match i.tick with
      | (.error fault, i) => (.error fault, i)
      | (.ok (), i) => ticksIn phase n i
    else (.ok (), i)

def complete (i : Inspection ε) : Except GestureFault Unit × Inspection ε :=
  { i with running := false }.ticksIn i.phase i.stepsLeft

def perform (i : Inspection ε) : Gesture → Except GestureFault Unit × Inspection ε
  | .tick => if i.running then (.ok (), i) else i.tick
  | .complete => i.complete
  | .toggle => (.ok (), { i with running := !i.running })
  | .faster => (.ok (), { i with tenths := max 1 (i.tenths - 1) })
  | .slower => (.ok (), { i with tenths := i.tenths + 1 })

end Inspection

abbrev Inspector := Inspection Panel

def Inspector.new (options : Options) (loaded : Option (Except LoadFault Program)) :
    Except LoadFault Inspector :=
  Inspection.new options loaded

end Treewright
