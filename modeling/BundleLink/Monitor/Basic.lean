import BundleLink.Monitor.Settings
import BundleLink.Network
import BundleLink.Pool.Basic

/-!
# Monitors

A monitor goes round the links on the roster and has the workers of a pool receive on them. No two
receives may run on a link at the same time, so whoever wants to receive first CLAIMS the link, and
gives the claim up when done. A claim that the monitor was granted goes along with the task of
receiving: from the monitor to the pool, and from the pool to the worker that runs the task.

* `Claim`, `Holder`     a claim, and who holds it;
* `Scanner`             what the monitor is doing: looking for a link, holding the claim of one, or
  waiting for the pool to take the task;
* `Monitor τ`           the network, the pool, the scanner and all claims;
* `Monitor.claim`, `Monitor.unclaim`              claims of others;
* `Monitor.scan`, `Monitor.submit`, `Monitor.wake`, `Monitor.handOver`  steps of the scanner;
* `Monitor.take`, `Monitor.finish`, `Monitor.giveBack`  steps of the workers;
* `Monitor.shutDown`.

A step that is not possible in a state yields `none`.
-/

namespace BundleLink

inductive Holder where
  /-- somebody outside the monitor -/
  | caller
  /-- the monitor, before it submits a task -/
  | scanner
  /-- a task of the pool -/
  | task (ticket : Nat)
  deriving DecidableEq, Repr

structure Claim where
  link : Nat
  holder : Holder
  deriving DecidableEq, Repr

inductive Scanner where
  | looking
  | holding (link : Nat)
  | submitting (ticket : Nat)
  | stopped
  deriving DecidableEq, Repr

/-- the task of receiving on a link -/
structure ReceiveTask where
  link : Nat
  deriving DecidableEq, Repr

structure Monitor (τ : Type) where
  network : Network τ
  pool : Pool ReceiveTask Unit
  scanner : Scanner
  /-- the position on the roster of the link to look at next -/
  cursor : Nat
  claims : List Claim
  deriving Repr

namespace Monitor

variable {τ : Type}

def start (settings : MonitorSettings) (network : Network τ) :
    Except MonitorSettingsError (Monitor τ) :=
  settings.check.map fun _ => ⟨network, .empty settings.pool, .looking, 0, []⟩

/-- claims a link for a holder, unless it is claimed already -/
def grant (link : Nat) (holder : Holder) (m : Monitor τ) : Option (Monitor τ) :=
  match m.network.alter link Link.tryClaim with
  | some (true, network) =>
    some { m with network := network, claims := ⟨link, holder⟩ :: m.claims }
  | _ => none

/-- the claim of a link is given up -/
def drop (link : Nat) (holder : Holder) (m : Monitor τ) : Monitor τ :=
  match m.network.alter link fun l => ((), l.unclaim) with
  | some (_, network) => { m with network := network, claims := m.claims.erase ⟨link, holder⟩ }
  | none => m

/-- the claim of a link goes from one holder to another -/
def pass (link : Nat) (source target : Holder) (m : Monitor τ) : Monitor τ :=
  { m with claims := ⟨link, target⟩ :: m.claims.erase ⟨link, source⟩ }

/-! ## claims of others -/

def claim (link : Nat) (m : Monitor τ) : Option (Monitor τ) := m.grant link .caller

def unclaim (link : Nat) (m : Monitor τ) : Option (Monitor τ) :=
  if ⟨link, .caller⟩ ∈ m.claims then some (m.drop link .caller) else none

/-! ## the scanner -/

/-- Looks at the next link of the roster and claims it, if it can. At the end of the roster the
scanner starts over. -/
def scan (m : Monitor τ) : Option (Monitor τ) :=
  if m.scanner = .looking then
    match m.network.roster.at? m.cursor with
    | none => some { m with cursor := 0 }
    | some link =>
      let m := { m with cursor := m.cursor + 1 }
      match m.grant link .scanner with
      | some m => some { m with scanner := .holding link }
      | none => some m
  else none

/-- what a task has against a link that is closed -/
def objection (m : Monitor τ) (link : Nat) : Option String :=
  match m.network.link? link with
  | some l => if l.connected then none else some s!"conduit #{link} is closed"
  | none => none

/-- The scanner acts on what its submission was told: a refused task gives the claim up, and a pool
that is shut down stops the scanner. -/
def follow (ticket link : Nat) (m : Monitor τ) : Monitor τ :=
  match m.pool.callState? ticket with
  | some (.answered (.dispatched _)) => { m with scanner := .looking }
  | some (.answered (.refused .shutDown)) =>
    { m.drop link (.task ticket) with scanner := .stopped }
  | some (.answered _) => { m.drop link (.task ticket) with scanner := .looking }
  | _ => { m with scanner := .submitting ticket }

/-- The scanner submits the task of receiving on the link that it holds the claim of; `hindrance` is
what keeps the pool from starting a new worker. -/
def submit (hindrance : Option String) (m : Monitor τ) : Option (Monitor τ) :=
  match m.scanner with
  | .holding link =>
    let (ticket, pool) := m.pool.submit ⟨link⟩ (m.objection link) true hindrance
    some (({ m with pool := pool }.pass link .scanner (.task ticket)).follow ticket link)
  | _ => none

/-- the link of a submission -/
def linkOf (m : Monitor τ) (ticket : Nat) : Option Nat :=
  (m.pool.calls.get? ticket).map fun call => call.task.link

def wake (hindrance : Option String) (m : Monitor τ) : Option (Monitor τ) :=
  match m.scanner with
  | .submitting ticket => do
    let link ← m.linkOf ticket
    let pool ← m.pool.wake ticket hindrance
    return { m with pool := pool }.follow ticket link
  | _ => none

/-- nobody but the scanner submits tasks, so nobody else can be waiting for a worker -/
def handOver (m : Monitor τ) : Option (Monitor τ) :=
  match m.scanner with
  | .submitting ticket => do
    let link ← m.linkOf ticket
    let pool ← m.pool.handOver ticket m.pool.asleep.head?
    return { m with pool := pool }.follow ticket link
  | _ => none

/-! ## the workers -/

def take (worker : Nat) (m : Monitor τ) : Option (Monitor τ) :=
  (m.pool.take worker).map fun pool => { m with pool := pool }

/-- what becomes of a task whose receive ended in this way; a link that was closed in the meantime
is no failure -/
def outcomeOf : Except (Failure LinkError) Unit → TaskOutcome Unit
  | .ok () => .value ()
  | .error (.error .notConnected) => .value ()
  | .error (.error e) => .failed [e.message]
  | .error (.fault f) => .panicked (some f.message)

/-- a running task receives on its link and gives the claim up, however the receive ends -/
def finish [Channel τ] (worker : Nat) (m : Monitor τ) : Option (Monitor τ) :=
  match m.pool.workerState? worker with
  | some (.running ticket) => do
    let link ← m.linkOf ticket
    let (result, network) ← m.network.receive link
    let pool ← m.pool.finish worker (outcomeOf result)
    return { m with network := network, pool := pool }.drop link (.task ticket)
  | _ => none

def giveBack (worker : Nat) (m : Monitor τ) : Option (Monitor τ) :=
  (m.pool.giveBack worker m.pool.asleep.head?).map fun pool => { m with pool := pool }

/-- the scanner stops before it looks at the next link -/
def halt (m : Monitor τ) : Option (Monitor τ) :=
  if m.scanner = .looking ∧ m.pool.down then some { m with scanner := .stopped } else none

def shutDown (m : Monitor τ) : Monitor τ := { m with pool := m.pool.shutDown }

end Monitor

end BundleLink
