import Treewright.Command.Arguments
import Treewright.Compilation
set_option autoImplicit false

namespace Treewright.Command

structure Reply where
  status : Nat
  out : String := ""
  err : String := ""
  deriving DecidableEq, Repr, Inhabited

def defaultProgram : String := "./examples/programs/example.json"

def usage (self : String) : String :=
  "usage: " ++ self ++ " [-h] [-o OUTPUT] [--first-param-mismatch-only] [-q] [program]\n"

def helpText (self : String) : String :=
  usage self ++ "
Validate a program's AST actions and render it as target code.

positional arguments:
  program               Program action list (.json).

options:
  -h, --help            show this help message and exit
  -o OUTPUT, --output OUTPUT
                        Directory for the rendered <name>.txt.
  --first-param-mismatch-only
                        Report only the first mismatched argument of each call.
  -q, --quiet           Do not echo diagnostics as they are found.
"

def Arguments.compilation (a : Arguments) : Compilation :=
  { source := .ofText (a.program.getD defaultProgram)
    folder := a.output.map .ofText
    options := { reportAll := !a.firstOnly, echo := !a.quiet } }

/-- The compilation that is asked for, or the reply where there is nothing to compile. -/
def interpret (self : String) (texts : List String) : Except Reply Compilation :=
  match Arguments.ofTexts texts with
  | .error fault =>
    .error { status := 2, err := usage self ++ self ++ ": error: " ++ fault.message ++ "\n" }
  | .ok a => if a.help then .error { status := 0, out := helpText self } else .ok a.compilation

def Reply.ofOutcome (o : Outcome) : Reply :=
  match o.path with
  | none => { status := 2, err := "Compilation failed. " ++ o.message ++ "\n" }
  | some _ =>
    if o.ok then { status := 0, out := o.message ++ "\n" }
    else { status := 1, err := o.message ++ "\n" }

/-- Compiles a file and replies: the status, what is written on either channel, and the disk after
it. A fault comes after what was shown before it. -/
def compile (c : Compilation) (d : Disk) : Except CompileFault Nat × String × String × Disk :=
  match c.run d with
  | (.error fault, echo, d) => (.error fault, "", echo, d)
  | (.ok outcome, echo, d) =>
    let reply := Reply.ofOutcome outcome
    (.ok reply.status, reply.out, echo ++ reply.err, d)

def run (self : String) (texts : List String) (d : Disk) :
    Except CompileFault Nat × String × String × Disk :=
  match interpret self texts with
  | .error reply => (.ok reply.status, reply.out, reply.err, d)
  | .ok c => compile c d

end Treewright.Command
