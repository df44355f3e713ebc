import Treewright.Check
import Treewright.Log
set_option autoImplicit false

namespace Treewright

structure Options where
  /-- Report every mismatched argument of a call, not only the first. -/
  reportAll : Bool := true
  /-- Show diagnostics on the console as they are found. -/
  echo : Bool := false
  deriving DecidableEq, Repr, Inhabited

structure Context where
  table : Table := {}
  log : Log := {}
  reportAll : Bool := true
  deriving DecidableEq, Repr, Inhabited

namespace Context

def line (c : Context) : Int := c.log.line

def report (c : Context) (problems : List Problem) : Context :=
  { c with log := c.log.reportAll problems }

def advanceTo (c : Context) (line : Int) : Context := { c with log := c.log.advanceTo line }

/-- Declares a variable on a line, or reports that the scope has one of the name. -/
def declare (c : Context) (name : Name) (type : Ty) (line : Int) : Bool × Context :=
  match c.table.declare? name type line with
  | some table => (true, { c with table })
  | none => (false, c.report [.redeclared name])

/-- Declares the signature of a function on a line; the first part says whether it was rejected. -/
def declareFunction (c : Context) (name : Name) (params : List (Ty × Value)) (returns : Ty)
    (line : Int) : Bool × Context :=
  match c.table.declareFunction? name (params.map fun p => (p.2, p.1)) returns.given? line with
  | some table => (false, { c with table })
  | none =>
    if repeatsDeclaration c.table name (params.map (·.1)) returns.given? then (false, c)
    else (true, c.report [.redeclaredFunction name])

@[simp] theorem table_report (c : Context) (problems : List Problem) :
    (c.report problems).table = c.table := rfl

@[simp] theorem line_report (c : Context) (problems : List Problem) :
    (c.report problems).line = c.line := by simp [line, report]

end Context
end Treewright
