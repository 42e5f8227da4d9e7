/-!
# Tasks and what becomes of them

* `TaskOutcome α`    a value, a failure with the chain of its causes, or a panic;
* `PoolError`        why the pool refuses a submission, or why there is no value to collect;
* `Progress.report`  progress after a task reports a fraction.
-/

namespace BundleLink

inductive TaskOutcome (α : Type) where
  | value (a : α)
  /-- the failure first, then its causes, each the cause of the one before -/
  | failed (chain : List String)
  /-- the text that the task panicked with, if it was a text -/
  | panicked (text : Option String)
  deriving DecidableEq, Repr

inductive PoolError where
  | invalidParams (why : String)
  | alreadyCollected
  | failed (chain : List String)
  | panicked (text : Option String)
  | shutDown
  | executorLost (worker : Nat)
  /-- a new worker was due, and could not be started -/
  | notStarted (why : String)
  deriving DecidableEq, Repr

def PoolError.message : PoolError → String
  | .invalidParams why => s!"invalid task parameters: {why}"
  | .alreadyCollected => "illegal state: task result was already collected"
  | .failed chain => "task failed: " ++ ": ".intercalate chain
  | .panicked text => "task panicked: " ++ text.getD "<non-string panic payload>"
  | .shutDown => "the pool is shut down"
  | .executorLost worker => s!"task executor {worker} terminated unexpectedly"
  | .notStarted why => s!"could not start a worker thread: {why}"

/-- what the one who collects an outcome gets -/
def TaskOutcome.toExcept {α : Type} : TaskOutcome α → Except PoolError α
  | .value a => .ok a
  | .failed chain => .error (.failed chain)
  | .panicked text => .error (.panicked text)

def TaskOutcome.isValue {α : Type} : TaskOutcome α → Bool
  | .value _ => true
  | .failed _ | .panicked _ => false

namespace Progress

/-- the fraction done of a task that has not reported anything -/
def none : Float := 0

def complete : Float := 1

/-- progress after a report of `x`: fractions are kept between 0 and 1, and NaN is not looked at -/
def report (progress x : Float) : Float :=
  if x.isNaN then progress
  else if x < none then none
  else if complete < x then complete
  else x

end Progress

end BundleLink
