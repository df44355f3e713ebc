import Treewright.Program
import Treewright.Session
set_option autoImplicit false

namespace Treewright

/-- The action list itself is malformed; any other fault is not the program's. -/
def SessionFault.malformed : SessionFault → Bool
  | .build (.flaw flaw) => flaw.family = .build
  | _ => false

/-- What comes of a compilation. There is a path whenever code was written. -/
structure Outcome where
  ok : Bool
  path : Option Path
  message : String
  deriving DecidableEq, Repr, Inhabited

/-- Faults that a compilation does not answer for. -/
inductive CompileFault where
  | load (fault : LoadFault)
  | build (fault : SessionFault)
  | file (fault : FileFault)
  /-- There is code, and no folder to write it to. -/
  | noFolder
  /-- There is code, and perhaps half of a surrogate pair in it. -/
  | loneHalf
  deriving DecidableEq, Repr, Inhabited

def CompileFault.message : CompileFault → String
  | .load fault => fault.message
  | .build fault => fault.message
  | .file fault => fault.message
  | .noFolder => "expected str, bytes or os.PathLike object, not list"
  | .loneHalf => "surrogates not allowed"

/-- Code for a file in a folder, and the number of diagnostics that came with it. -/
structure Output where
  folder : Path
  path : Path
  code : String
  count : Nat
  deriving DecidableEq, Repr, Inhabited

def Output.outcome (o : Output) : Outcome :=
  let note := "Output written to " ++ o.path.text ++ "."
  { ok := o.count = 0
    path := some o.path
    message :=
      if o.count = 0 then "Code generation completed. " ++ note
      else s!"Semantic analysis found {o.count} error(s). " ++ note }

inductive Plan where
  | stop (message : String)
  | write (output : Output)
  deriving DecidableEq, Repr, Inhabited

/-- A program file to be compiled, under its own name unless another is given. -/
structure Compilation where
  source : Path
  name : Option String := none
  folder : Option Path := some { parts := ["outputs"] }
  options : Options := {}
  deriving DecidableEq, Repr, Inhabited

namespace Compilation

def outputPath (folder : Path) (name : String) : Path := folder.join (.ofText (name ++ ".txt"))

/-- What is to be done with what was loaded, and what a console shows meanwhile. -/
def plan (c : Compilation) : Except LoadFault Program → Except CompileFault Plan × String
  | .error fault =>
    (if fault.told then .ok (.stop fault.message) else .error (.load fault), "")
  | .ok program =>
    let name := c.name.getD program.name
    match (Session.new c.options).runAll (.list program.actions) name with
    | (.ok code, s) =>
      match c.folder with
      | none => (.error .noFolder, s.echoed)
      | some folder =>
        (if program.loneHalf then .error .loneHalf
          else .ok (.write ⟨folder, outputPath folder name, code, s.diagnostics.length⟩), s.echoed)
    | (.error fault, s) =>
      (if fault.malformed then .ok (.stop ("Malformed program: " ++ fault.message))
        else .error (.build fault), s.echoed)

def write (output : Output) (d : Disk) : Except CompileFault Outcome × Disk :=
  match d.makeFolders output.folder with
  | (.error fault, d) => (.error (.file fault), d)
  | (.ok (), d) =>
    match d.write output.path (Text.encode output.code) with
    | .error fault => (.error (.file fault), d)
    | .ok d => (.ok output.outcome, d)

/-- The whole compilation: what comes of it, what a console shows, and the disk after it. -/
def run (c : Compilation) (d : Disk) : Except CompileFault Outcome × String × Disk :=
  match c.plan (Program.load d c.source) with
  | (.error fault, echo) => (.error fault, echo, d)
  | (.ok (.stop message), echo) => (.ok ⟨false, none, message⟩, echo, d)
  | (.ok (.write output), echo) =>
    let (result, d) := write output d
    (result, echo, d)

end Compilation

/-- Writes the code of a node to a file beside the given name. -/
def Node.writeCode (n : Node) (name : Path) (d : Disk) : Except CompileFault Unit × Disk :=
  match d.makeFolders name.parent with
  | (.error fault, d) => (.error (.file fault), d)
  | (.ok (), d) =>
    match n.render 0 with
    | .error fault => (.error (.build (.build (.render fault))), d)
    | .ok code =>
      match d.write (name.parent.join (.ofText (name.name ++ ".txt"))) (Text.encode code) with
      | .error fault => (.error (.file fault), d)
      | .ok d => (.ok (), d)

end Treewright
