import Treewright.Command
set_option autoImplicit false

namespace Treewright.Command

def refusalOf : IO.Error → Refusal
  | .alreadyExists .. => .alreadyThere
  | .inappropriateType _ code _ =>
    if code = Refusal.notFolder.number.toUInt32 then .notFolder else .isFolder
  | _ => .notFound

def loadFile (path : Path) : IO (Except LoadFault Program) := do
  try
    return Program.ofBytes path (← IO.FS.readBinFile path.text).toList
  catch e => return .error (.file (.refused (refusalOf e) path))

def say (reply : Reply) : IO UInt32 := do
  IO.print reply.out
  IO.eprint reply.err
  return reply.status.toUInt32

def perform (c : Compilation) : IO UInt32 := do
  let (result, echo) := c.plan (← loadFile c.source)
  IO.eprint echo
  match result with
  | .error fault =>
    IO.eprintln fault.message
    return 1
  | .ok (.stop message) => say (.ofOutcome ⟨false, none, message⟩)
  | .ok (.write output) =>
    IO.FS.createDirAll output.folder.text
    IO.FS.writeBinFile output.path.text output.code.toUTF8
    say (.ofOutcome output.outcome)

end Treewright.Command

open Treewright.Command in
def main (args : List String) : IO UInt32 :=
  match interpret "treewright" args with
  | .error reply => say reply
  | .ok c => perform c
