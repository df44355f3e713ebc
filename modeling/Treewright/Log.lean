import Treewright.Diagnostic
set_option autoImplicit false

namespace Treewright

structure Log where
  line : Int := 1
  diagnostics : List Diagnostic := []
  deriving DecidableEq, Repr, Inhabited

namespace Log

def advanceTo (log : Log) (line : Int) : Log :=
  if log.line < line then { log with line } else log

def advance? (log : Log) (lines : Int) : Option Log :=
  if lines < 0 then none else some { log with line := log.line + lines }

def report (log : Log) (problem : Problem) : Log :=
  { log with diagnostics := log.diagnostics ++ [⟨log.line, problem⟩] }

def reportAll (log : Log) (problems : List Problem) : Log := problems.foldl report log

def hasErrors (log : Log) : Bool := !log.diagnostics.isEmpty

def count (log : Log) : Nat := log.diagnostics.length

def countOf (log : Log) (kind : ErrorKind) : Nat := log.diagnostics.countP (·.kind = kind)

def kinds (log : Log) : List ErrorKind := log.diagnostics.map (·.kind)

def pretty (log : Log) : String := "\n".intercalate (log.diagnostics.map (·.text))

def echo (diagnostics : List Diagnostic) : String :=
  String.join (diagnostics.map fun d => d.text ++ "\n")

theorem line_advanceTo (log : Log) (line : Int) :
    (log.advanceTo line).line = max log.line line := by
  unfold advanceTo
  split
  · simp only [Int.max_def]; omega
  · rw [Int.max_def]; omega

@[simp] theorem diagnostics_advanceTo (log : Log) (line : Int) :
    (log.advanceTo line).diagnostics = log.diagnostics := by
  unfold advanceTo
  split <;> rfl

@[simp] theorem line_reportAll (log : Log) (problems : List Problem) :
    (log.reportAll problems).line = log.line := by
  induction problems generalizing log with
  | nil => rfl
  | cons p ps ih => exact ih (log.report p)

@[simp] theorem diagnostics_reportAll (log : Log) (problems : List Problem) :
    (log.reportAll problems).diagnostics =
      log.diagnostics ++ problems.map (Diagnostic.mk log.line) := by
  induction problems generalizing log with
  | nil => simp [reportAll]
  | cons p ps ih =>
    have h := ih (log.report p)
    simpa [reportAll, report] using h

end Log
end Treewright
