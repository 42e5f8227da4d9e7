import BundleLink.Pool.Basic

/-!
# Runs of a pool without pauses

The steps of a pool, put together in the order in which they come if nobody is held up and nothing
hinders new workers from starting: a submission that gets a worker hands its task over at once, the
worker takes it at once, and a worker that is given back is taken at once by the submission that has
slept longest.

* `Pool.launch`    hands over, and lets the task make its reports;
* `Pool.submitNow`, `Pool.endTask`, `Pool.stopAll`  a submission, the end of a task and a shutdown,
  each with all that follows from it.
-/

namespace BundleLink

/-- a task whose course is written down beforehand -/
structure Scripted (α : Type) where
  /-- what is wrong with its parameters, if anything -/
  objection : Option String
  /-- the fractions that it reports -/
  reports : List Float
  outcome : TaskOutcome α
  deriving Repr

namespace Pool

variable {α : Type}

abbrev Script (α : Type) := Pool (Scripted α) α

def orSame (step : Script α → Option (Script α)) (p : Script α) : Script α := (step p).getD p

/-- the submission that has slept longest -/
def longestAsleep (p : Script α) : Option Nat := p.asleep.head?

/-- hands the task of a submission over, if it has a worker, and lets it make all its reports -/
def launch (ticket : Nat) (p : Script α) : Script α :=
  match p.calls.get? ticket with
  | some ⟨task, .holding worker⟩ =>
    let p := orSame (take worker) (orSame (fun p => handOver ticket p.longestAsleep p) p)
    task.reports.foldl (fun p x => orSame (report worker x) p) p
  | _ => p

/-- what a submission was told; `none` while it sleeps -/
def replyTo (p : Script α) (ticket : Nat) : Option Reply :=
  match p.callState? ticket with
  | some (.answered r) => some r
  | _ => none

def submitNow (task : Scripted α) (blocking : Bool) (p : Script α) : Nat × Script α :=
  let (ticket, p) := p.submit task task.objection blocking none
  (ticket, p.launch ticket)

/-- lets every notified submission look at the pool again -/
def wakeAll (p : Script α) : Script α :=
  p.notified.foldl (fun p ticket => (orSame (wake ticket none) p).launch ticket) p

/-- the worker that runs the job of a submission -/
def workerOf? (p : Script α) (ticket : Nat) : Option Nat :=
  (p.workers.entries.find? fun e => e.2.state = .running ticket).map Prod.fst

/-- lets the task of a submission end and its worker return -/
def endTask (ticket : Nat) (p : Script α) : Script α :=
  match p.calls.get? ticket, p.workerOf? ticket with
  | some call, some worker =>
    wakeAll (orSame (fun p => giveBack worker p.longestAsleep p)
      (orSame (finish worker call.task.outcome) p))
  | _, _ => p

def stopAll (p : Script α) : Script α := wakeAll p.shutDown

/-- the pool after all running tasks have ended -/
def endAll (p : Script α) : Script α :=
  (p.jobs.keys.mergeSort).foldl (fun p ticket => endTask ticket p) p

end Pool

end BundleLink
