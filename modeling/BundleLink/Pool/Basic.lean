import BundleLink.Pool.Settings
import BundleLink.Pool.Task
import BundleLink.Table

/-!
# Task pools

A pool runs tasks on workers. Everything that happens in it is one of a few small steps, and any
order of steps is possible that the steps themselves allow:

* a SUBMISSION takes a worker if fewer than the allowed number are active (an idle one if there is
  one, the one that became idle last, or else a new one), and hands its task over in a second step;
  if a new worker can not be started, it is turned away; if as many as allowed are active, it is
  turned away as well, or, if it is willing to wait, falls ASLEEP until it is NOTIFIED;
* a WORKER takes commands from its inbox one by one: a task to run, or the command to stop. After a
  task it gives itself back to the pool, which keeps it idle or lets it end, and one sleeping
  submission is notified;
* SHUTTING DOWN stops all idle workers and notifies all sleeping submissions.

Each submission has a ticket, under which its task, once handed over, goes through the states of
`JobState`, always forward.

* `Pool τ α`     the state of a pool of tasks of type `τ` with values of type `α`;
* `Pool.submit`, `Pool.wake`, `Pool.handOver`           steps of a submission;
* `Pool.take`, `Pool.report`, `Pool.finish`, `Pool.giveBack`  steps of a worker;
* `Pool.shutDown`, `Pool.collect`                       steps of the pool's user.

A step that is not possible in a state yields `none`.
-/

namespace BundleLink

/-- where a job stands -/
inductive JobState (α : Type) where
  | queued
  | running
  | finished (outcome : TaskOutcome α)
  /-- somebody has taken the outcome -/
  | collected
  deriving DecidableEq, Repr

def JobState.isPending {α : Type} : JobState α → Bool
  | .queued | .running => true
  | .finished _ | .collected => false

def JobState.name {α : Type} : JobState α → String
  | .queued => "Queued"
  | .running => "Running"
  | .finished _ => "Finished"
  | .collected => "Collected"

/-- a task that was handed over to a worker -/
structure Job (τ α : Type) where
  task : τ
  state : JobState α
  progress : Float
  deriving Repr

namespace Job

variable {τ α : Type}

/-- a worker starts on the job -/
def begin (job : Job τ α) : Job τ α :=
  match job.state with
  | .queued => { job with state := .running }
  | _ => job

def report (x : Float) (job : Job τ α) : Job τ α :=
  { job with progress := Progress.report job.progress x }

/-- The job with its outcome, unless it has one already. A value completes the progress as well. -/
def conclude (outcome : TaskOutcome α) (job : Job τ α) : Job τ α :=
  let job := if outcome.isValue then job.report Progress.complete else job
  if job.state.isPending then { job with state := .finished outcome } else job

end Job

/-- what became of a submission -/
inductive Reply where
  | dispatched (worker : Nat)
  | saturated
  | refused (e : PoolError)
  deriving DecidableEq, Repr

/-- where a submission stands -/
inductive CallState where
  | asleep
  | notified
  /-- it has a worker, and has not handed the task over yet -/
  | holding (worker : Nat)
  | answered (r : Reply)
  deriving DecidableEq, Repr

structure Call (τ : Type) where
  task : τ
  state : CallState
  deriving Repr

inductive Command where
  | run (ticket : Nat)
  | stop
  deriving DecidableEq, Repr

inductive WorkerState where
  /-- idle, or acquired by a submission -/
  | waiting
  | running (ticket : Nat)
  /-- done with its task, and not given back yet -/
  | returning
  | ended
  deriving DecidableEq, Repr

structure Worker where
  inbox : List Command
  state : WorkerState
  deriving DecidableEq, Repr

structure Pool (τ α : Type) where
  settings : PoolSettings
  /-- idle workers, the one given back last in front -/
  idle : List Nat
  active : Nat
  /-- The number of the next worker. No pool starts so many that the width of the counter matters,
  so it has none here. -/
  nextWorker : Nat
  down : Bool
  /-- all workers that were ever started -/
  workers : Table Nat Worker
  nextTicket : Nat
  /-- all submissions -/
  calls : Table Nat (Call τ)
  /-- the tasks handed over -/
  jobs : Table Nat (Job τ α)
  deriving Repr

namespace Pool

variable {τ α : Type}

def empty (settings : PoolSettings) : Pool τ α :=
  ⟨settings, [], 0, 0, false, .empty, 0, .empty, .empty⟩

/-- a pool with valid settings -/
def create (settings : PoolSettings) : Except PoolSettingsError (Pool τ α) :=
  settings.check.map fun _ => empty settings

def callState? (p : Pool τ α) (ticket : Nat) : Option CallState :=
  (p.calls.get? ticket).map Call.state

def workerState? (p : Pool τ α) (worker : Nat) : Option WorkerState :=
  (p.workers.get? worker).map Worker.state

/-- the submissions in a state, in the order of their tickets -/
def callsIn (p : Pool τ α) (s : CallState) : List Nat :=
  ((p.calls.entries.filter fun e => e.2.state = s).map Prod.fst).mergeSort

def asleep (p : Pool τ α) : List Nat := p.callsIn .asleep

def notified (p : Pool τ α) : List Nat := p.callsIn .notified

def setCall (p : Pool τ α) (ticket : Nat) (task : τ) (s : CallState) : Pool τ α :=
  { p with calls := p.calls.put ticket ⟨task, s⟩ }

/-! ## submissions -/

/-- Makes a worker active: the idle one in front, or a new one, unless there is a hindrance to
starting one. A number that was meant for a new worker is used up in any case. -/
def acquire (hindrance : Option String) (p : Pool τ α) : Except String Nat × Pool τ α :=
  match p.idle with
  | worker :: rest => (.ok worker, { p with active := p.active + 1, idle := rest })
  | [] =>
    match hindrance with
    | some why => (.error why, { p with nextWorker := p.nextWorker + 1 })
    | none =>
      (.ok p.nextWorker,
        { p with
          active := p.active + 1
          nextWorker := p.nextWorker + 1
          workers := p.workers.put p.nextWorker ⟨[], .waiting⟩ })

/-- one look at the pool by a submission -/
def attempt (ticket : Nat) (task : τ) (blocking : Bool) (hindrance : Option String)
    (p : Pool τ α) : Pool τ α :=
  if p.down then p.setCall ticket task (.answered (.refused .shutDown))
  else if p.active < p.settings.maxActive then
    match p.acquire hindrance with
    | (.ok worker, p) => p.setCall ticket task (.holding worker)
    | (.error why, p) => p.setCall ticket task (.answered (.refused (.notStarted why)))
  else if blocking then p.setCall ticket task .asleep
  else p.setCall ticket task (.answered .saturated)

/-- a new submission; `objection` is what the task has against its parameters -/
def submit (task : τ) (objection : Option String) (blocking : Bool) (hindrance : Option String)
    (p : Pool τ α) : Nat × Pool τ α :=
  let ticket := p.nextTicket
  let p := { p with nextTicket := ticket + 1 }
  match objection with
  | some why => (ticket, p.setCall ticket task (.answered (.refused (.invalidParams why))))
  | none => (ticket, p.attempt ticket task blocking hindrance)

/-- A notified submission looks at the pool again. If it fails for want of a worker, nobody else is
notified in its place. -/
def wake (ticket : Nat) (hindrance : Option String) (p : Pool τ α) : Option (Pool τ α) :=
  match p.calls.get? ticket with
  | some ⟨task, .notified⟩ => some (p.attempt ticket task true hindrance)
  | _ => none

/-- notifies one sleeping submission, which may be any, or none if nobody sleeps -/
def notifyOne (chosen : Option Nat) (p : Pool τ α) : Option (Pool τ α) :=
  match chosen with
  | none => if p.asleep.isEmpty then some p else none
  | some ticket =>
    match p.calls.get? ticket with
    | some ⟨task, .asleep⟩ => some (p.setCall ticket task .notified)
    | _ => none

/-- the worker of a submission turned out to have ended: the submission fails, and another one may
take its place -/
def lose (ticket : Nat) (task : τ) (worker : Nat) (chosen : Option Nat) (p : Pool τ α) :
    Option (Pool τ α) :=
  let p := { p with active := p.active - 1 }
  notifyOne chosen (p.setCall ticket task (.answered (.refused (.executorLost worker))))

/-- a submission puts its task into the inbox of its worker -/
def handOver (ticket : Nat) (chosen : Option Nat) (p : Pool τ α) : Option (Pool τ α) :=
  match p.calls.get? ticket with
  | some ⟨task, .holding worker⟩ =>
    match p.workers.get? worker with
    | none => p.lose ticket task worker chosen
    | some w =>
      if w.state = .ended then p.lose ticket task worker chosen
      else
        let w := { w with inbox := w.inbox ++ [Command.run ticket] }
        let p := { p with workers := p.workers.put worker w }
        let p := { p with jobs := p.jobs.put ticket ⟨task, .queued, Progress.none⟩ }
        some (p.setCall ticket task (.answered (.dispatched worker)))
  | _ => none

/-! ## workers -/

def setJob (ticket : Nat) (f : Job τ α → Job τ α) (p : Pool τ α) : Pool τ α :=
  match p.jobs.get? ticket with
  | some job => { p with jobs := p.jobs.put ticket (f job) }
  | none => p

/-- a waiting worker takes the first command from its inbox -/
def take (worker : Nat) (p : Pool τ α) : Option (Pool τ α) :=
  match p.workers.get? worker with
  | some ⟨Command.run ticket :: inbox, .waiting⟩ =>
    let p := { p with workers := p.workers.put worker ⟨inbox, .running ticket⟩ }
    some (p.setJob ticket Job.begin)
  | some ⟨Command.stop :: _, .waiting⟩ =>
    some { p with workers := p.workers.put worker ⟨[], .ended⟩ }
  | _ => none

/-- the running task reports a fraction -/
def report (worker : Nat) (x : Float) (p : Pool τ α) : Option (Pool τ α) :=
  match p.workers.get? worker with
  | some ⟨_, .running ticket⟩ => some (p.setJob ticket (Job.report x))
  | _ => none

/-- the running task ends; a task that panics leaves its worker as usable as any other -/
def finish (worker : Nat) (outcome : TaskOutcome α) (p : Pool τ α) : Option (Pool τ α) :=
  match p.workers.get? worker with
  | some ⟨inbox, .running ticket⟩ =>
    let p := { p with workers := p.workers.put worker ⟨inbox, .returning⟩ }
    some (p.setJob ticket (Job.conclude outcome))
  | _ => none

/-- a worker gives itself back, and is kept if there are not too many idle ones already -/
def giveBack (worker : Nat) (chosen : Option Nat) (p : Pool τ α) : Option (Pool τ α) :=
  match p.workers.get? worker with
  | some ⟨inbox, .returning⟩ =>
    let p := { p with active := p.active - 1 }
    notifyOne chosen
      (if !p.down && p.idle.length < p.settings.maxIdle then
        { p with idle := worker :: p.idle, workers := p.workers.put worker ⟨inbox, .waiting⟩ }
      else { p with workers := p.workers.put worker ⟨[], .ended⟩ })
  | _ => none

/-! ## the user of the pool -/

/-- puts the command to stop into the inbox of a worker -/
def sendStop (p : Pool τ α) (worker : Nat) : Pool τ α :=
  match p.workers.get? worker with
  | some w =>
    { p with workers := p.workers.put worker { w with inbox := w.inbox ++ [Command.stop] } }
  | none => p

def notifyAll (p : Pool τ α) : Pool τ α :=
  { p with
    calls := p.calls.map fun call =>
      if call.state = .asleep then { call with state := .notified } else call }

def shutDown (p : Pool τ α) : Pool τ α :=
  if p.down then p
  else notifyAll (p.idle.foldl sendStop { p with down := true, idle := [] })

/-- Takes the outcome of a job that has ended. Only the first to do so gets it. -/
def collect (ticket : Nat) (p : Pool τ α) : Option (Except PoolError α × Pool τ α) :=
  match p.jobs.get? ticket with
  | some job =>
    match job.state with
    | .finished outcome =>
      some (outcome.toExcept, { p with jobs := p.jobs.put ticket { job with state := .collected } })
    | .collected => some (.error .alreadyCollected, p)
    | .queued | .running => none
  | none => none

theorem shutDown_of_down {p : Pool τ α} (h : p.down = true) : p.shutDown = p := by
  simp [shutDown, h]

end Pool

end BundleLink
