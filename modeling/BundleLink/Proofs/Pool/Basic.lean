import BundleLink.Pool.Basic

/-!
# A pool step by step

The steps of submissions, workers and the pool's user come in any order. A sleeping submission may
also wake up without having been notified, and starting a new worker may fail at any time.

* `Pool.Action`, `Pool.perform`  one step, where it is possible;
* `Pool.Turn`          a worker is started or fails to start, is acquired by a submission, or is
  given back;
* `Pool.turns`         the turns in one step;
* `Pool.run`           several steps, with all their turns;
* `Pool.Glance`        a look at the pool by a submission;
* `Pool.Move`          what a step can do to the workers and to the submissions that hold one;
* `Pool.move_perform`  each step is such a move.
-/

namespace BundleLink

/-- the worker of a submission that has not handed its task over yet -/
def CallState.worker? : CallState → Option Nat
  | .holding worker => some worker
  | .asleep | .notified | .answered _ => none

namespace Pool

variable {τ α : Type}

inductive Action (τ α : Type) where
  /-- a task comes, with what it has against its parameters, whether it may wait, and what would
  keep a new worker from starting -/
  | submit (task : τ) (objection : Option String) (blocking : Bool) (hindrance : Option String)
  /-- a sleeping submission wakes up unnotified -/
  | stir (ticket : Nat)
  | wake (ticket : Nat) (hindrance : Option String)
  | handOver (ticket : Nat) (chosen : Option Nat)
  | take (worker : Nat)
  | report (worker : Nat) (x : Float)
  | finish (worker : Nat) (outcome : TaskOutcome α)
  | giveBack (worker : Nat) (chosen : Option Nat)
  | shutDown
  | collect (ticket : Nat)

/-- A submission that wakes up unnotified looks at the pool again like one that was notified. -/
def stir (ticket : Nat) (p : Pool τ α) : Option (Pool τ α) :=
  match p.calls.get? ticket with
  | some ⟨task, .asleep⟩ => some (p.setCall ticket task .notified)
  | _ => none

/-- the pool after a step, if the step is possible -/
def perform (p : Pool τ α) : Action τ α → Option (Pool τ α)
  | .submit task objection blocking hindrance =>
    some (p.submit task objection blocking hindrance).2
  | .stir ticket => p.stir ticket
  | .wake ticket hindrance => p.wake ticket hindrance
  | .handOver ticket chosen => p.handOver ticket chosen
  | .take worker => p.take worker
  | .report worker x => p.report worker x
  | .finish worker outcome => p.finish worker outcome
  | .giveBack worker chosen => p.giveBack worker chosen
  | .shutDown => some p.shutDown
  | .collect ticket => (p.collect ticket).map Prod.snd

/-! ## turns -/

inductive Turn where
  | started (worker : Nat)
  /-- a worker with this number could not be started -/
  | missed (worker : Nat)
  | acquired (worker : Nat)
  | returned (worker : Nat)
  deriving DecidableEq, Repr

/-- the worker of a submission, while it holds one -/
def holding? (p : Pool τ α) (ticket : Nat) : Option Nat :=
  (p.callState? ticket).bind CallState.worker?

/-- A submission got a worker, which had to be started if it was not idle, or none could be
started, or it did not come to that. -/
def acquisition (p : Pool τ α) : Option CallState → List Turn
  | some (.holding worker) =>
    if worker ∈ p.idle then [.acquired worker] else [.started worker, .acquired worker]
  | some (.answered (.refused (.notStarted _))) => [.missed p.nextWorker]
  | _ => []

/-- the worker that a submission gave up because it had ended -/
def loss (q : Pool τ α) (ticket : Nat) : List Turn :=
  match q.callState? ticket with
  | some (.answered (.refused (.executorLost worker))) => [.returned worker]
  | _ => []

/-- the turns in the step from `p` to `q` -/
def turns (p q : Pool τ α) : Action τ α → List Turn
  | .submit .. => p.acquisition (q.callState? p.nextTicket)
  | .wake ticket _ => p.acquisition (q.callState? ticket)
  | .handOver ticket _ => q.loss ticket
  | .giveBack worker _ => [.returned worker]
  | .stir _ | .take _ | .report .. | .finish .. | .shutDown | .collect _ => []

/-- several steps and their turns, if all steps are possible -/
def run (p : Pool τ α) : List (Action τ α) → Option (List Turn × Pool τ α)
  | [] => some ([], p)
  | a :: actions =>
    match p.perform a with
    | none => none
    | some q => (q.run actions).map fun r => (p.turns q a ++ r.1, r.2)

theorem run_cons {p r : Pool τ α} {a : Action τ α} {actions : List (Action τ α)}
    {turns : List Turn} (h : p.run (a :: actions) = some (turns, r)) :
    ∃ q later, p.perform a = some q ∧ q.run actions = some (later, r) ∧
      turns = p.turns q a ++ later := by
  rw [run] at h
  split at h
  · cases h
  · rename_i q hq
    obtain ⟨⟨later, s⟩, hrun, heq⟩ := Option.map_eq_some_iff.mp h
    cases heq
    exact ⟨q, later, hq, hrun, rfl⟩

theorem run_of_perform {p q r : Pool τ α} {a : Action τ α} {actions : List (Action τ α)}
    {turns : List Turn} (h : p.perform a = some q) (hrun : q.run actions = some (turns, r)) :
    p.run (a :: actions) = some (p.turns q a ++ turns, r) := by
  rw [run, h]
  dsimp only
  rw [hrun]
  rfl

/-! ## what does not concern the workers -/

/-- the pool without submissions and jobs -/
def staff (p : Pool τ α) : Pool τ α :=
  { p with nextTicket := 0, calls := .empty, jobs := .empty }

@[simp] theorem staff_setJob (p : Pool τ α) (ticket : Nat) (f : Job τ α → Job τ α) :
    (p.setJob ticket f).staff = p.staff := by
  rw [setJob]
  split <;> rfl

theorem calls_setJob (p : Pool τ α) (ticket : Nat) (f : Job τ α → Job τ α) :
    (p.setJob ticket f).calls = p.calls := by
  rw [setJob]
  split <;> rfl

theorem holding?_of_calls {p q : Pool τ α} (h : q.calls = p.calls) (ticket : Nat) :
    q.holding? ticket = p.holding? ticket := by
  rw [holding?, holding?, callState?, callState?, h]

theorem holding?_of_get? {p : Pool τ α} {ticket : Nat} {task : τ} {s : CallState}
    (h : p.calls.get? ticket = some ⟨task, s⟩) : p.holding? ticket = s.worker? := by
  rw [holding?, callState?, h]
  rfl

theorem holding?_setCall (p : Pool τ α) (ticket : Nat) (task : τ) (s : CallState) (other : Nat) :
    (p.setCall ticket task s).holding? other =
      if other = ticket then s.worker? else p.holding? other := by
  rw [holding?, callState?, setCall, Table.get?_put]
  split <;> rfl

theorem callState?_setCall (p : Pool τ α) (ticket : Nat) (task : τ) (s : CallState) :
    (p.setCall ticket task s).callState? ticket = some s := by
  rw [callState?, setCall, Table.get?_put, if_pos rfl]
  rfl

/-- a submission that holds nothing goes on without getting anything -/
theorem holding?_setCall_same {p : Pool τ α} {ticket : Nat} {s : CallState}
    (hbefore : p.holding? ticket = none) (hs : s.worker? = none) (task : τ) (other : Nat) :
    (p.setCall ticket task s).holding? other = p.holding? other := by
  rw [holding?_setCall]
  split
  · rename_i heq
    rw [hs, heq, hbefore]
  · rfl

/-- a notification does not concern the workers -/
theorem notifyOne_some {p q : Pool τ α} {chosen : Option Nat} (h : p.notifyOne chosen = some q) :
    q.staff = p.staff ∧ ∀ ticket, q.holding? ticket = p.holding? ticket := by
  cases chosen with
  | none =>
    rw [notifyOne] at h
    split at h
    · cases h
      exact ⟨rfl, fun _ => rfl⟩
    · cases h
  | some ticket =>
    rw [notifyOne] at h
    split at h
    · rename_i task hcall
      cases h
      exact ⟨rfl, holding?_setCall_same (holding?_of_get? hcall) rfl task⟩
    · cases h

/-- only a submission that sleeps is notified -/
theorem callState?_notifyOne {p q : Pool τ α} {chosen : Option Nat} {ticket : Nat}
    (h : p.notifyOne chosen = some q) (hawake : p.callState? ticket ≠ some .asleep) :
    q.callState? ticket = p.callState? ticket := by
  cases chosen with
  | none =>
    rw [notifyOne] at h
    split at h
    · cases h
      rfl
    · cases h
  | some other =>
    rw [notifyOne] at h
    split at h
    · rename_i task hcall
      cases h
      rw [callState?, setCall, Table.get?_put]
      split
      · rename_i heq
        subst heq
        rw [callState?, hcall] at hawake
        exact absurd rfl hawake
      · rfl
    · cases h

theorem holding?_notifyAll (p : Pool τ α) (ticket : Nat) :
    p.notifyAll.holding? ticket = p.holding? ticket := by
  rw [holding?, holding?, callState?, callState?, notifyAll, Table.get?_map]
  cases p.calls.get? ticket with
  | none => rfl
  | some call =>
    by_cases hasleep : call.state = .asleep
    · simp [hasleep, CallState.worker?]
    · simp [hasleep]

theorem sendStop_eq (p : Pool τ α) (worker : Nat) :
    p.sendStop worker = { p with workers := (p.sendStop worker).workers } := by
  rw [sendStop]
  split <;> rfl

/-- The command to stop goes to workers only. -/
theorem sendStops_eq (idle : List Nat) (p : Pool τ α) :
    idle.foldl sendStop p = { p with workers := (idle.foldl sendStop p).workers } := by
  induction idle generalizing p with
  | nil => rfl
  | cons worker idle ih =>
    rw [List.foldl_cons, ih, sendStop_eq]

variable {p q : Pool τ α}

theorem acquire_idle {worker : Nat} {rest : List Nat} (h : p.idle = worker :: rest)
    (hindrance : Option String) :
    p.acquire hindrance = (.ok worker, { p with active := p.active + 1, idle := rest }) := by
  unfold acquire
  rw [h]

theorem acquire_new (h : p.idle = []) :
    p.acquire none =
      (.ok p.nextWorker,
        { p with
          active := p.active + 1
          nextWorker := p.nextWorker + 1
          workers := p.workers.put p.nextWorker ⟨[], .waiting⟩ }) := by
  rw [acquire, h]

theorem acquire_hindered (h : p.idle = []) (why : String) :
    p.acquire (some why) = (.error why, { p with nextWorker := p.nextWorker + 1 }) := by
  rw [acquire, h]

/-- What a submission finds when it looks at the pool, and where it stands after that. -/
inductive Glance (p : Pool τ α) (ticket : Nat) (task : τ) : Pool τ α → Prop
  | refused (down : p.down = true) :
    Glance p ticket task (p.setCall ticket task (.answered (.refused .shutDown)))
  | reused (up : p.down = false) (free : p.active < p.settings.maxActive) {worker : Nat}
    {rest : List Nat} (idle : p.idle = worker :: rest) :
    Glance p ticket task (({ p with active := p.active + 1, idle := rest } : Pool τ α).setCall
      ticket task (.holding worker))
  | started (up : p.down = false) (free : p.active < p.settings.maxActive) (idle : p.idle = []) :
    Glance p ticket task
      (({ p with
          active := p.active + 1
          nextWorker := p.nextWorker + 1
          workers := p.workers.put p.nextWorker ⟨[], .waiting⟩ } : Pool τ α).setCall
        ticket task (.holding p.nextWorker))
  | missed (up : p.down = false) (free : p.active < p.settings.maxActive) (idle : p.idle = [])
    (why : String) :
    Glance p ticket task (({ p with nextWorker := p.nextWorker + 1 } : Pool τ α).setCall
      ticket task (.answered (.refused (.notStarted why))))
  | asleep (up : p.down = false) (full : p.settings.maxActive ≤ p.active) :
    Glance p ticket task (p.setCall ticket task .asleep)
  | saturated (up : p.down = false) (full : p.settings.maxActive ≤ p.active) :
    Glance p ticket task (p.setCall ticket task (.answered .saturated))

theorem glance_attempt (p : Pool τ α) (ticket : Nat) (task : τ) (blocking : Bool)
    (hindrance : Option String) :
    Glance p ticket task (p.attempt ticket task blocking hindrance) := by
  rw [attempt]
  split
  · rename_i hdown
    exact .refused hdown
  · rename_i hup
    rw [Bool.not_eq_true] at hup
    split
    · rename_i hfree
      cases hidle : p.idle with
      | cons worker rest =>
        rw [acquire_idle hidle]
        exact .reused hup hfree hidle
      | nil =>
        cases hindrance with
        | none =>
          rw [acquire_new hidle]
          exact .started hup hfree hidle
        | some why =>
          rw [acquire_hindered hidle]
          exact .missed hup hfree hidle why
    · rename_i hfull
      rw [Nat.not_lt] at hfull
      split
      · exact .asleep hup hfull
      · exact .saturated hup hfull

/-! ## tickets -/

/-- Each submission has a ticket that was given out. -/
def Ticketed (p : Pool τ α) : Prop :=
  ∀ ticket, p.nextTicket ≤ ticket → p.calls.get? ticket = none

theorem ticketed_empty (settings : PoolSettings) : (empty settings : Pool τ α).Ticketed :=
  fun _ _ => rfl

namespace Ticketed

theorem lt (hp : p.Ticketed) {ticket : Nat} {call : Call τ}
    (h : p.calls.get? ticket = some call) : ticket < p.nextTicket := by
  rcases Nat.lt_or_ge ticket p.nextTicket with hlt | hge
  · exact hlt
  · rw [hp ticket hge] at h
    cases h

theorem of_calls (hp : p.Ticketed) (hcalls : q.calls = p.calls)
    (hnext : q.nextTicket = p.nextTicket) : q.Ticketed := by
  intro ticket hticket
  rw [hcalls]
  exact hp ticket (hnext ▸ hticket)

theorem setCall (hp : p.Ticketed) {ticket : Nat} (hlt : ticket < p.nextTicket) (task : τ)
    (s : CallState) : (p.setCall ticket task s).Ticketed := by
  intro other hother
  rw [Pool.setCall, Table.get?_put, if_neg (Nat.ne_of_gt (Nat.lt_of_lt_of_le hlt hother))]
  exact hp other hother

theorem glance (hp : p.Ticketed) {ticket : Nat} (hlt : ticket < p.nextTicket) {task : τ}
    (h : Glance p ticket task q) : q.Ticketed := by
  cases h with
  | _ => exact setCall (of_calls hp rfl rfl) hlt _ _

theorem notifyOne (hp : p.Ticketed) {chosen : Option Nat} (h : p.notifyOne chosen = some q) :
    q.Ticketed := by
  cases chosen with
  | none =>
    rw [Pool.notifyOne] at h
    split at h
    · cases h
      exact hp
    · cases h
  | some ticket =>
    rw [Pool.notifyOne] at h
    split at h
    · rename_i task hcall
      cases h
      exact hp.setCall (hp.lt hcall) _ _
    · cases h

theorem setJob (hp : p.Ticketed) (ticket : Nat) (f : Job τ α → Job τ α) :
    (p.setJob ticket f).Ticketed := by
  rw [Pool.setJob]
  split
  · exact of_calls hp rfl rfl
  · exact hp

end Ticketed

/-! ## moves -/

/-- a step that a worker makes without anybody else -/
inductive Works : Worker → Worker → Prop
  | run (ticket : Nat) (inbox : List Command) :
    Works ⟨.run ticket :: inbox, .waiting⟩ ⟨inbox, .running ticket⟩
  | stop (inbox : List Command) : Works ⟨.stop :: inbox, .waiting⟩ ⟨[], .ended⟩
  | finish (inbox : List Command) (ticket : Nat) :
    Works ⟨inbox, .running ticket⟩ ⟨inbox, .returning⟩

/-- `q` is a pool with the settings of `p` and these workers. -/
structure Crew (p q : Pool τ α) (idle : List Nat) (active nextWorker : Nat) (down : Bool)
    (workers : Table Nat Worker) : Prop where
  settings : q.settings = p.settings
  idle : q.idle = idle
  active : q.active = active
  nextWorker : q.nextWorker = nextWorker
  down : q.down = down
  workers : q.workers = workers

/-- From `p` to `q` a submission gets a worker, or fails to get a new one, or hands its worker over,
or loses it, or a worker makes a step of its own or returns, or all idle ones are told to stop. -/
inductive Move (p q : Pool τ α) : List Turn → Prop
  | still (crew : Crew p q p.idle p.active p.nextWorker p.down p.workers)
    (holding : ∀ t, q.holding? t = p.holding? t) : Move p q []
  | reuse (ticket worker : Nat) (rest : List Nat) (up : p.down = false)
    (free : p.active < p.settings.maxActive) (idle : p.idle = worker :: rest)
    (crew : Crew p q rest (p.active + 1) p.nextWorker p.down p.workers)
    (before : p.holding? ticket = none)
    (holding : ∀ t, q.holding? t = if t = ticket then some worker else p.holding? t) :
    Move p q [.acquired worker]
  | start (ticket : Nat) (up : p.down = false) (free : p.active < p.settings.maxActive)
    (idle : p.idle = [])
    (crew : Crew p q p.idle (p.active + 1) (p.nextWorker + 1) p.down
      (p.workers.put p.nextWorker ⟨[], .waiting⟩))
    (before : p.holding? ticket = none)
    (holding : ∀ t, q.holding? t = if t = ticket then some p.nextWorker else p.holding? t) :
    Move p q [.started p.nextWorker, .acquired p.nextWorker]
  | miss (up : p.down = false) (free : p.active < p.settings.maxActive) (idle : p.idle = [])
    (crew : Crew p q p.idle p.active (p.nextWorker + 1) p.down p.workers)
    (holding : ∀ t, q.holding? t = p.holding? t) : Move p q [.missed p.nextWorker]
  | handOver (ticket worker : Nat) (w : Worker) (given : p.holding? ticket = some worker)
    (found : p.workers.get? worker = some w) (alive : w.state ≠ .ended)
    (crew : Crew p q p.idle p.active p.nextWorker p.down
      (p.workers.put worker { w with inbox := w.inbox ++ [.run ticket] }))
    (holding : ∀ t, q.holding? t = if t = ticket then none else p.holding? t) : Move p q []
  | lose (ticket worker : Nat) (given : p.holding? ticket = some worker)
    (gone : ∀ w, p.workers.get? worker = some w → w.state = .ended)
    (crew : Crew p q p.idle (p.active - 1) p.nextWorker p.down p.workers)
    (holding : ∀ t, q.holding? t = if t = ticket then none else p.holding? t) :
    Move p q [.returned worker]
  | work (worker : Nat) (w w' : Worker) (found : p.workers.get? worker = some w)
    (works : Works w w')
    (crew : Crew p q p.idle p.active p.nextWorker p.down (p.workers.put worker w'))
    (holding : ∀ t, q.holding? t = p.holding? t) : Move p q []
  | keep (worker : Nat) (inbox : List Command)
    (found : p.workers.get? worker = some ⟨inbox, .returning⟩) (up : p.down = false)
    (room : p.idle.length < p.settings.maxIdle)
    (crew : Crew p q (worker :: p.idle) (p.active - 1) p.nextWorker p.down
      (p.workers.put worker ⟨inbox, .waiting⟩))
    (holding : ∀ t, q.holding? t = p.holding? t) : Move p q [.returned worker]
  | dismiss (worker : Nat) (inbox : List Command)
    (found : p.workers.get? worker = some ⟨inbox, .returning⟩)
    (crew : Crew p q p.idle (p.active - 1) p.nextWorker p.down
      (p.workers.put worker ⟨[], .ended⟩))
    (holding : ∀ t, q.holding? t = p.holding? t) : Move p q [.returned worker]
  | shutDown (up : p.down = false)
    (crew : Crew p q [] p.active p.nextWorker true
      (p.idle.foldl sendStop { p with down := true, idle := [] }).workers)
    (holding : ∀ t, q.holding? t = p.holding? t) : Move p q []

theorem crew_of_staff {idle : List Nat} {active nextWorker : Nat} {down : Bool}
    {workers : Table Nat Worker}
    (h : q.staff =
      { p.staff with
        idle := idle
        active := active
        nextWorker := nextWorker
        down := down
        workers := workers }) : Crew p q idle active nextWorker down workers := by
  have hsettings := congrArg settings h
  have hidle := congrArg Pool.idle h
  have hactive := congrArg Pool.active h
  have hnext := congrArg Pool.nextWorker h
  have hdown := congrArg Pool.down h
  have hworkers := congrArg Pool.workers h
  exact ⟨hsettings, hidle, hactive, hnext, hdown, hworkers⟩

/-- a look at the pool by a submission that holds nothing, whichever ticket is the next one -/
theorem move_glance {ticket : Nat} (hbefore : p.holding? ticket = none) (next : Nat) {task : τ}
    (h : Glance { p with nextTicket := next } ticket task q) :
    Move p q (p.acquisition (q.callState? ticket)) := by
  -- an answer, or sleep
  have hsame {s : CallState} (hs : s.worker? = none) (t : Nat) :
      (p.setCall ticket task s).holding? t = p.holding? t :=
    holding?_setCall_same hbefore hs task t
  cases h with
  | refused down =>
    rw [callState?_setCall]
    exact .still (crew_of_staff rfl) (hsame rfl)
  | reused up free idle =>
    rw [callState?_setCall, acquisition,
      if_pos (by rw [show p.idle = _ from idle]; exact List.mem_cons_self)]
    exact .reuse ticket _ _ up free idle (crew_of_staff rfl) hbefore (holding?_setCall _ _ _ _)
  | started up free idle =>
    rw [callState?_setCall, acquisition,
      if_neg (by rw [show p.idle = _ from idle]; exact List.not_mem_nil)]
    exact .start ticket up free idle (crew_of_staff rfl) hbefore (holding?_setCall _ _ _ _)
  | missed up free idle why =>
    rw [callState?_setCall]
    exact .miss up free idle (crew_of_staff rfl) (hsame rfl)
  | asleep up full =>
    rw [callState?_setCall]
    exact .still (crew_of_staff rfl) (hsame rfl)
  | saturated up full =>
    rw [callState?_setCall]
    exact .still (crew_of_staff rfl) (hsame rfl)

theorem move_submit (hp : p.Ticketed) (task : τ) (objection : Option String) (blocking : Bool)
    (hindrance : Option String) (hq : q = (p.submit task objection blocking hindrance).2) :
    Move p q (p.acquisition (q.callState? p.nextTicket)) ∧ q.Ticketed := by
  have hbefore : p.holding? p.nextTicket = none := by
    rw [holding?, callState?, hp p.nextTicket (Nat.le_refl _)]
    rfl
  -- the ticket is given out before anything else happens
  have hnext : ({ p with nextTicket := p.nextTicket + 1 } : Pool τ α).Ticketed :=
    fun ticket hticket => hp ticket (Nat.le_of_succ_le hticket)
  have hlt := Nat.lt_succ_self p.nextTicket
  cases objection with
  | none =>
    have hglance := glance_attempt { p with nextTicket := p.nextTicket + 1 } p.nextTicket task
      blocking hindrance
    rw [hq]
    exact ⟨move_glance hbefore (p.nextTicket + 1) hglance, hnext.glance hlt hglance⟩
  | some why =>
    have hstate : q.callState? p.nextTicket = some (.answered (.refused (.invalidParams why))) := by
      rw [hq]
      exact callState?_setCall _ _ _ _
    rw [hstate, hq]
    exact ⟨.still (crew_of_staff rfl) (holding?_setCall_same hbefore rfl task),
      hnext.setCall hlt _ _⟩

theorem move_stir (hp : p.Ticketed) {ticket : Nat} (h : p.stir ticket = some q) :
    Move p q [] ∧ q.Ticketed := by
  rw [stir] at h
  split at h
  · rename_i task hcall
    cases h
    exact ⟨.still (crew_of_staff rfl) (holding?_setCall_same (holding?_of_get? hcall) rfl task),
      hp.setCall (hp.lt hcall) _ _⟩
  · cases h

theorem move_wake (hp : p.Ticketed) {ticket : Nat} {hindrance : Option String}
    (h : p.wake ticket hindrance = some q) :
    Move p q (p.acquisition (q.callState? ticket)) ∧ q.Ticketed := by
  rw [wake] at h
  split at h
  · rename_i task hcall
    have hglance := glance_attempt p ticket task true hindrance
    rw [← Option.some.inj h]
    exact ⟨move_glance (holding?_of_get? hcall) p.nextTicket hglance,
      hp.glance (hp.lt hcall) hglance⟩
  · cases h

/-- the worker of the submission has ended -/
theorem move_lose (hp : p.Ticketed) {ticket worker : Nat} {task : τ} {chosen : Option Nat}
    (hheld : p.holding? ticket = some worker) (hlt : ticket < p.nextTicket)
    (hgone : ∀ w, p.workers.get? worker = some w → w.state = .ended)
    (h : p.lose ticket task worker chosen = some q) :
    Move p q (q.loss ticket) ∧ q.Ticketed := by
  rw [lose] at h
  obtain ⟨hstaff, hholding⟩ := notifyOne_some h
  have hstate : q.callState? ticket = _ :=
    callState?_notifyOne h (by rw [callState?_setCall]; nofun)
  rw [callState?_setCall] at hstate
  rw [loss, hstate]
  refine ⟨.lose ticket worker hheld hgone (crew_of_staff hstaff) fun t => ?_, ?_⟩
  · rw [hholding]
    exact holding?_setCall _ _ _ _ t
  · refine .notifyOne ?_ h
    refine .setCall ?_ hlt _ _
    exact hp

theorem move_handOver (hp : p.Ticketed) {ticket : Nat} {chosen : Option Nat}
    (h : p.handOver ticket chosen = some q) : Move p q (q.loss ticket) ∧ q.Ticketed := by
  rw [handOver] at h
  split at h
  · rename_i task worker hcall
    have hheld := holding?_of_get? hcall
    split at h
    · rename_i hnone
      exact move_lose hp hheld (hp.lt hcall) (fun w hw => by rw [hnone] at hw; cases hw) h
    · rename_i w hfound
      split at h
      · rename_i hended
        refine move_lose hp hheld (hp.lt hcall) (fun v hv => ?_) h
        rw [hfound] at hv
        rwa [← Option.some.inj hv]
      · rename_i halive
        cases h
        rw [loss, callState?_setCall]
        refine ⟨.handOver ticket worker w hheld hfound halive (crew_of_staff rfl)
          (holding?_setCall _ _ _ _), ?_⟩
        refine .setCall ?_ (hp.lt hcall) _ _
        exact hp
  · cases h

theorem move_take (hp : p.Ticketed) {worker : Nat} (h : p.take worker = some q) :
    Move p q [] ∧ q.Ticketed := by
  rw [take] at h
  split at h
  · rename_i ticket inbox hfound
    cases h
    refine ⟨.work worker _ _ hfound (.run ticket inbox) (crew_of_staff (staff_setJob _ _ _))
      (holding?_of_calls (calls_setJob _ _ _)), .setJob ?_ _ _⟩
    exact hp
  · rename_i inbox hfound
    cases h
    exact ⟨.work worker _ _ hfound (.stop inbox) (crew_of_staff rfl) fun _ => rfl, hp⟩
  · cases h

theorem move_report (hp : p.Ticketed) {worker : Nat} {x : Float} (h : p.report worker x = some q) :
    Move p q [] ∧ q.Ticketed := by
  rw [report] at h
  split at h
  · cases h
    exact ⟨.still (crew_of_staff (staff_setJob _ _ _)) (holding?_of_calls (calls_setJob _ _ _)),
      hp.setJob _ _⟩
  · cases h

theorem move_finish (hp : p.Ticketed) {worker : Nat} {outcome : TaskOutcome α}
    (h : p.finish worker outcome = some q) : Move p q [] ∧ q.Ticketed := by
  rw [finish] at h
  split at h
  · rename_i inbox ticket hfound
    cases h
    refine ⟨.work worker _ _ hfound (.finish inbox ticket) (crew_of_staff (staff_setJob _ _ _))
      (holding?_of_calls (calls_setJob _ _ _)), .setJob ?_ _ _⟩
    exact hp
  · cases h

theorem move_giveBack (hp : p.Ticketed) {worker : Nat} {chosen : Option Nat}
    (h : p.giveBack worker chosen = some q) : Move p q [.returned worker] ∧ q.Ticketed := by
  rw [giveBack] at h
  split at h
  · rename_i inbox hfound
    dsimp only at h
    obtain ⟨hstaff, hholding⟩ := notifyOne_some h
    split at h
    · rename_i hkeep
      rw [if_pos hkeep] at hstaff hholding
      rw [Bool.and_eq_true, Bool.not_eq_true', decide_eq_true_iff] at hkeep
      refine ⟨.keep worker inbox hfound hkeep.1 hkeep.2 (crew_of_staff hstaff) hholding,
        .notifyOne ?_ h⟩
      exact hp
    · rename_i hkeep
      rw [if_neg hkeep] at hstaff hholding
      refine ⟨.dismiss worker inbox hfound (crew_of_staff hstaff) hholding, .notifyOne ?_ h⟩
      exact hp
  · cases h

theorem move_shutDown (hp : p.Ticketed) : Move p p.shutDown [] ∧ p.shutDown.Ticketed := by
  rw [shutDown]
  split
  · exact ⟨.still (crew_of_staff rfl) fun _ => rfl, hp⟩
  · rename_i hup
    rw [Bool.not_eq_true] at hup
    refine ⟨.shutDown hup (crew_of_staff ?_) fun t => ?_, ?_⟩
    · rw [sendStops_eq]
      rfl
    · rw [holding?_notifyAll, sendStops_eq]
      exact holding?_of_calls rfl t
    · rw [sendStops_eq]
      intro ticket hticket
      rw [notifyAll, Table.get?_map, hp ticket hticket]
      rfl

theorem move_collect (hp : p.Ticketed) {ticket : Nat} {r : Except PoolError α × Pool τ α}
    (h : p.collect ticket = some r) : Move p r.2 [] ∧ r.2.Ticketed := by
  rw [collect] at h
  split at h
  · split at h
    · cases h
      exact ⟨.still (crew_of_staff rfl) fun _ => rfl, hp⟩
    · cases h
      exact ⟨.still (crew_of_staff rfl) fun _ => rfl, hp⟩
    · cases h
    · cases h
  · cases h

/-- each step is a move with the turns of the step -/
theorem move_perform (hp : p.Ticketed) {a : Action τ α} (h : p.perform a = some q) :
    Move p q (p.turns q a) ∧ q.Ticketed := by
  cases a with
  | submit task objection blocking hindrance =>
    exact move_submit hp task objection blocking hindrance (Option.some.inj h).symm
  | stir ticket => exact move_stir hp h
  | wake ticket hindrance => exact move_wake hp h
  | handOver ticket chosen => exact move_handOver hp h
  | take worker => exact move_take hp h
  | report worker x => exact move_report hp h
  | finish worker outcome => exact move_finish hp h
  | giveBack worker chosen => exact move_giveBack hp h
  | shutDown =>
    cases h
    exact move_shutDown hp
  | collect ticket =>
    obtain ⟨r, hr, rfl⟩ := Option.map_eq_some_iff.mp h
    exact move_collect hp hr

end Pool

end BundleLink
