import Treewright.Compilation
set_option autoImplicit false

namespace Treewright.Gate

def programsFolder : Path := { parts := ["examples", "programs"] }

def expectedFile : Path := { parts := ["examples", "expected_diagnostics.json"] }

/-- Faults that the gate does not answer for. -/
inductive Fault where
  | file (fault : FileFault)
  | encoding (flaw : Text.ByteFlaw)
  | json (fault : Json.Fault)
  | notObject (kind : String)
  | noCases
  | load (fault : LoadFault)
  | build (fault : SessionFault)
  /-- What is expected of a program is no list of any kind. -/
  | expectation (flaw : Flaw)
  deriving DecidableEq, Repr, Inhabited

def Fault.message : Fault → String
  | .file fault => fault.message
  | .encoding flaw => flaw.message
  | .json fault => fault.message
  | .notObject kind => "'" ++ kind ++ "' object has no attribute 'get'"
  | .noCases =>
    "Invalid expected diagnostics file format (missing/invalid 'cases'): " ++ expectedFile.text
  | .load fault => fault.message
  | .build fault => fault.message
  | .expectation flaw => flaw.message

inductive Finding where
  | malformed (message : String)
  | unexpected
  | agrees (count : Nat)
  | differs (expected : Value) (actual : List String)
  deriving Inhabited

/-- The expectations of a document: one value for each program by its path. -/
def casesOf : Value → Except Fault (List (String × Value))
  | .object fields =>
    match fieldOf? "cases" fields with
    | some (.object cases) => .ok cases
    | _ => .error .noCases
  | v => .error (.notObject v.kindName)

def loadCases (d : Disk) : Except Fault (List (String × Value)) := do
  let bytes ← (d.read expectedFile).mapError .file
  let text ← (Program.textOf bytes).mapError .encoding
  casesOf (← (Json.read text).mapError .json)

def programNames (d : Disk) : List String :=
  (d.names programsFolder).filter fun name => ".json".toList.isSuffixOf name.toList

def programPath (name : String) : Path :=
  { programsFolder with parts := programsFolder.parts ++ [name] }

def diagnose (d : Disk) (path : Path) : Except Fault (Except String (List String)) :=
  match Program.load d path with
  | .error fault =>
    match fault with
    | .notJson .. | .shape _ => .ok (.error fault.message)
    | _ => .error (.load fault)
  | .ok program =>
    match (Session.new {}).runAll (.list program.actions) program.name with
    | (.ok _, s) => .ok (.ok (s.diagnostics.map (·.text)))
    | (.error fault, _) =>
      if fault.malformed then .ok (.error fault.message) else .error (.build fault)

def compare (expected : Option Value) : Except String (List String) → Finding
  | .error message => .malformed message
  | .ok actual =>
    match expected with
    | none | some .null => .unexpected
    | some value =>
      if value = .list (actual.map .string) then .agrees actual.length
      else .differs value actual

def Finding.lines (path : String) : Finding → List String
  | .malformed message => ["MALFORMED      " ++ path ++ ": " ++ message]
  | .unexpected => ["MISSING EXPECTED " ++ path]
  | .agrees count => ["OK             " ++ path ++ s!": {count} diagnostic(s)"]
  | .differs _ _ => ["BAD DIAGNOSTICS " ++ path]

def Finding.details : Finding → Except Fault (List String)
  | .differs expected actual => do
    let items ← (Reading.itemsOf expected).mapError .expectation
    return (items.map fun v => "  expected: " ++ v.text) ++
      (actual.map fun line => "  actual:   " ++ line)
  | _ => .ok []

structure Tally where
  printed : List String := []
  mismatches : Nat := 0
  missing : Nat := 0
  deriving DecidableEq, Repr, Inhabited

def Tally.print (t : Tally) (lines : List String) : Tally :=
  { t with printed := t.printed ++ lines }

def Tally.count (t : Tally) : Finding → Tally
  | .malformed _ | .differs _ _ => { t with mismatches := t.mismatches + 1 }
  | .unexpected => { t with missing := t.missing + 1 }
  | .agrees _ => t

/-- Goes through the programs; a fault ends it, and what was printed stays. -/
def examine (d : Disk) (cases : List (String × Value)) :
    Tally → List String → Except Fault Unit × Tally
  | t, [] => (.ok (), t)
  | t, name :: names =>
    let path := programPath name
    match diagnose d path with
    | .error fault => (.error fault, t)
    | .ok result =>
      let finding := compare (fieldOf? path.text cases) result
      let t := t.print (finding.lines path.text)
      match finding.details with
      | .error fault => (.error fault, t)
      | .ok details => examine d cases ((t.print details).count finding) names

def stale (cases : List (String × Value)) (names : List String) : List String :=
  let paths := names.map fun name => (programPath name).text
  ((cases.map (·.1)).filter fun key => !paths.contains key).mergeSort fun a b => decide (a ≤ b)

def lines (printed : List String) : String := String.join (printed.map (· ++ "\n"))

def run (d : Disk) : Except Fault Nat × String :=
  if (d.find? expectedFile).isNone then
    (.ok 2, lines ["Missing expected diagnostics file: " ++ expectedFile.text])
  else
    match loadCases d with
    | .error fault => (.error fault, "")
    | .ok cases =>
      match programNames d with
      | [] => (.ok 2, lines ["No files found under " ++ programsFolder.text ++ "/*.json"])
      | names =>
        match examine d cases {} names with
        | (.error fault, t) => (.error fault, lines t.printed)
        | (.ok (), t) =>
          let stale := stale cases names
          let t := t.print (stale.map ("STALE EXPECTED " ++ ·))
          let total := s!"\nTOTAL {names.length}  MISMATCHES {t.mismatches}" ++
            s!"  MISSING_EXPECTED {t.missing}  STALE_EXPECTED {stale.length}"
          let passed := t.mismatches = 0 && t.missing = 0 && stale.isEmpty
          (.ok (if passed then 0 else 1), lines (t.print [total]).printed)

end Treewright.Gate
