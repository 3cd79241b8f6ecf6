import Scheduling.Decimal.Layout
import Scheduling.Session.Basic

/-!
# Notices of sessions

What a session reports about its job.
-/

namespace Scheduling

namespace Notice

/-- The name under which sessions report. -/
def sessionTarget : String := "chronoforge_solver"

/-- A notice of an event of a session. -/
def ofSession (level : Level) (event : String) (fields : List (String × FieldValue)) : Notice :=
  ⟨sessionTarget, level, ("event", .text event) :: fields⟩

/-- A float that may be missing. -/
def maybeFloat (x : Option Float) : FieldValue := .maybe Layout.literal.write x

/-- A count that may be missing. -/
def maybeCount (n : Option Nat) : FieldValue := .maybe Nat.repr n

/-- A truth value that may be missing. -/
def maybeTruth (b : Option Bool) : FieldValue := .maybe (fun b => if b then "true" else "false") b

/-- A job starts. -/
def solveStart (j : Job) : Notice :=
  ofSession .info "solve_start" [("command", .text j.task.name), ("model", .text j.title),
    ("time_limit", maybeFloat j.parameters.timeLimit),
    ("nb_workers", maybeCount j.parameters.nbWorkers)]

/-- A solution came. -/
def solution (f : Found) : Notice :=
  ofSession .info "solution" [("solve_time", .float f.solveTime),
    ("objective", maybeFloat f.solution.objective.value?), ("valid", maybeTruth f.valid)]

/-- A lower bound came. -/
def lowerBound (b : Bound) : Notice :=
  ofSession .info "lower_bound" [("solve_time", .float b.solveTime), ("value", .float b.value)]

/-- A solve ends. -/
def solveEnd (s : Summary) : Notice :=
  ofSession .info "solve_end" [("nb_solutions", .natural s.nbSolutions),
    ("objective", maybeFloat s.objective), ("lower_bound", maybeFloat s.lowerBound),
    ("duration", .float s.duration), ("proof", .truth s.proof)]

/-- A propagation ends. -/
def propagated (d : Propagated) : Notice :=
  ofSession .info "solve_end"
    [("infeasible", .truth d.domains.isNone), ("duration", .float d.duration)]

/-- The text of a model came. -/
def textReady (text : String) : Notice :=
  ofSession .info "solve_end" [("bytes", .natural text.utf8ByteSize)]

/-- A job fails. -/
def engineError (t : Task) (e : SessionError) : Notice :=
  ofSession .error "engine_error" [("command", .text t.name), ("error", .shown e.message)]

/-- The engine is asked to stop. -/
def stopRequested (reason : String) : Notice :=
  ofSession .info "stop_requested" [("reason", .shown reason)]

/-- Something goes wrong that does not end the job. -/
def complaint (message error : String) : Notice :=
  ⟨sessionTarget, .warn, [("message", .shown message), ("error", .shown error)]⟩

end Notice

end Scheduling
