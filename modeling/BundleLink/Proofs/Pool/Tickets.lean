import BundleLink.Proofs.Pool.Bystanders
import Mathlib.Control.Monad.Basic

/-!
# Submissions and jobs of a pool

What a step of a pool is to a submission that it concerns is one of few things, each of which makes
known something new about it.

* `Pool.Milestone`, `Pool.milestones`  what is new about a submission in a step;
* `Pool.Affair`, `Pool.affair_perform`  the ways in which a step concerns a submission, and that
  there are no others;
* `Pool.noted`, `Booked.noted`  notes taken along a run, and what holds of them in the end.
-/

namespace BundleLink

namespace Pool

variable {τ α : Type} {p q r : Pool τ α} {ticket other worker : Nat}

/-! ## what a step is to a submission -/

inductive Milestone (τ α : Type) where
  | submitted (task : τ)
  | answered (r : Reply)
  /-- a worker begins to run a task -/
  | began (worker : Nat) (task : Option τ)
  | ended (worker : Nat) (task : Option τ) (outcome : TaskOutcome α)
  /-- somebody asked for the outcome and got this -/
  | collected (result : Except PoolError α)
  deriving DecidableEq

def taskOf? (p : Pool τ α) (ticket : Nat) : Option τ := (p.standing? ticket).map Prod.fst

/-- what a submission is told, once it is told anything -/
def answers (q : Pool τ α) (ticket : Nat) : List (Milestone τ α) :=
  ((q.callState? ticket).bind CallState.reply?).toList.map .answered

theorem answers_of_get? {task : τ} {s : CallState} (h : q.calls.get? ticket = some ⟨task, s⟩) :
    q.answers ticket = s.reply?.toList.map .answered := by
  rw [answers, callState?, h]
  rfl

theorem taskOf?_of_standing {task : τ} {s : JobState α}
    (h : p.standing? ticket = some (task, s)) : p.taskOf? ticket = some task := by
  rw [taskOf?, h]
  rfl

/-- what is new about a submission in the step from `p` to `q` -/
def milestones (p q : Pool τ α) (ticket : Nat) : Action τ α → List (Milestone τ α)
  | .submit task .. => if ticket = p.nextTicket then .submitted task :: q.answers ticket else []
  | .wake other _ | .handOver other _ => if ticket = other then q.answers ticket else []
  | .take worker =>
    if q.workerState? worker = some (.running ticket) then [.began worker (q.taskOf? ticket)]
    else []
  | .finish worker outcome =>
    if p.workerState? worker = some (.running ticket) then
      [.ended worker (p.taskOf? ticket) outcome]
    else []
  | .collect other =>
    if ticket = other then ((p.collect ticket).map fun r => .collected r.1).toList else []
  | .stir _ | .report .. | .giveBack .. | .shutDown => []

/-- The ways in which a step concerns a submission. -/
inductive Affair (p q : Pool τ α) (ticket : Nat) : List (Milestone τ α) → Prop
  | aside (same : Bystands p q ticket) : Affair p q ticket []
  | submitted (task : τ) (s : CallState) (before : p.calls.get? ticket = none)
    (call : q.calls.get? ticket = some ⟨task, s⟩)
    (polite : ∀ r, s.reply? = some r → r.isRefusal = true)
    (job : q.standing? ticket = p.standing? ticket) (carriers : SameCarriers p q ticket) :
    Affair p q ticket (.submitted task :: q.answers ticket)
  | looked (task : τ) (s : CallState) (before : p.calls.get? ticket = some ⟨task, .notified⟩)
    (call : q.calls.get? ticket = some ⟨task, s⟩)
    (polite : ∀ r, s.reply? = some r → r.isRefusal = true)
    (job : q.standing? ticket = p.standing? ticket) (carriers : SameCarriers p q ticket) :
    Affair p q ticket (q.answers ticket)
  | handedOver (task : τ) (worker : Nat)
    (before : p.calls.get? ticket = some ⟨task, .holding worker⟩)
    (call : q.calls.get? ticket = some ⟨task, .answered (.dispatched worker)⟩)
    (job : q.standing? ticket = some (task, .queued))
    (carrier : q.workers.get? worker = some ⟨[.run ticket], .waiting⟩)
    (others : ∀ w, w ≠ worker → q.workers.get? w = p.workers.get? w) :
    Affair p q ticket [.answered (.dispatched worker)]
  | began (worker : Nat) (before : p.workers.get? worker = some ⟨[.run ticket], .waiting⟩)
    (carrier : q.workers.get? worker = some ⟨[], .running ticket⟩)
    (others : ∀ w, w ≠ worker → q.workers.get? w = p.workers.get? w)
    (call : q.calls.get? ticket = p.calls.get? ticket)
    (job : ∀ task, p.standing? ticket = some (task, .queued) →
      q.standing? ticket = some (task, .running)) :
    Affair p q ticket [.began worker (q.taskOf? ticket)]
  | ended (worker : Nat) (outcome : TaskOutcome α)
    (before : p.workers.get? worker = some ⟨[], .running ticket⟩)
    (freed : q.workers.get? worker = some ⟨[], .returning⟩)
    (others : ∀ w, w ≠ worker → q.workers.get? w = p.workers.get? w)
    (call : q.calls.get? ticket = p.calls.get? ticket)
    (job : ∀ task s, p.standing? ticket = some (task, s) → s.isPending = true →
      q.standing? ticket = some (task, .finished outcome)) :
    Affair p q ticket [.ended worker (p.taskOf? ticket) outcome]
  | collected (task : τ) (outcome : TaskOutcome α)
    (before : p.standing? ticket = some (task, .finished outcome))
    (job : q.standing? ticket = some (task, .collected))
    (call : q.calls.get? ticket = p.calls.get? ticket) (carriers : SameCarriers p q ticket) :
    Affair p q ticket [.collected outcome.toExcept]
  | tooLate (task : τ) (before : p.standing? ticket = some (task, .collected))
    (same : Bystands p q ticket) : Affair p q ticket [.collected (.error .alreadyCollected)]

/-! ## each step -/

theorem affair_of_glance (hnew : p.workers.get? p.nextWorker = none) {task : τ} {other : Nat}
    (h : Glance p other task q) (hbefore : p.calls.get? other = some ⟨task, .notified⟩)
    (ticket : Nat) : Affair p q ticket (if ticket = other then q.answers ticket else []) := by
  split
  · rename_i heq
    subst heq
    obtain ⟨s, hcall, hpolite⟩ := h.call
    exact .looked task s hbefore hcall hpolite (standing?_of_jobs h.jobs ticket)
      (h.carriers hnew ticket)
  · rename_i hother
    exact .aside (h.bystands hnew hother)

theorem submit_fst (p : Pool τ α) (task : τ) (objection : Option String) (blocking : Bool)
    (hindrance : Option String) :
    (p.submit task objection blocking hindrance).1 = p.nextTicket := by
  cases objection <;> rfl

/-- A new submission is turned away, or looks at the pool. Nobody else notices. -/
theorem submit_glances (hnew : p.workers.get? p.nextWorker = none) (task : τ)
    (objection : Option String) (blocking : Bool) (hindrance : Option String)
    (hq : q = (p.submit task objection blocking hindrance).2) :
    (∃ s, q.calls.get? p.nextTicket = some ⟨task, s⟩ ∧
      ∀ r, s.reply? = some r → r.isRefusal = true) ∧
      q.jobs = p.jobs ∧ (∀ other, SameCarriers p q other) ∧
      ∀ other, other ≠ p.nextTicket → Bystands p q other := by
  subst hq
  cases objection with
  | some why =>
    refine ⟨⟨.answered (.refused (.invalidParams why)), (Table.get?_put _ _ _ _).trans (if_pos rfl),
      ?_⟩, rfl, fun _ _ _ _ => Iff.rfl, fun other hother => ⟨.inl ?_, rfl, fun _ _ _ => Iff.rfl⟩⟩
    · rintro r hr
      cases hr
      rfl
    · exact (Table.get?_put _ _ _ _).trans (if_neg hother)
  | none =>
    have h := glance_attempt { p with nextTicket := p.nextTicket + 1 } p.nextTicket task blocking
      hindrance
    refine ⟨h.call, h.jobs, h.carriers hnew, fun other hother => ?_⟩
    obtain ⟨hcalls, hjob, hcarriers⟩ := h.bystands hnew hother
    exact ⟨hcalls, hjob, hcarriers⟩

theorem affair_submit (hp : p.Ticketed) (hnew : p.workers.get? p.nextWorker = none) (task : τ)
    (objection : Option String) (blocking : Bool) (hindrance : Option String)
    (hq : q = (p.submit task objection blocking hindrance).2) (ticket : Nat) :
    Affair p q ticket (p.milestones q ticket (.submit task objection blocking hindrance)) := by
  obtain ⟨⟨s, hcall, hpolite⟩, hjobs, hcarriers, hothers⟩ :=
    submit_glances hnew task objection blocking hindrance hq
  rw [milestones]
  split
  · rename_i heq
    subst heq
    exact .submitted task s (hp _ (Nat.le_refl _)) hcall hpolite (standing?_of_jobs hjobs _)
      (hcarriers _)
  · rename_i hother
    exact .aside (hothers ticket hother)

theorem bystands_stir (h : p.stir other = some q) (ticket : Nat) : Bystands p q ticket := by
  rw [stir] at h
  split at h
  · rename_i task hcall
    cases h
    by_cases hsame : ticket = other
    · subst hsame
      refine ⟨.inr ⟨task, hcall, ?_⟩, rfl, fun _ _ _ => Iff.rfl⟩
      rw [setCall, Table.get?_put, if_pos rfl]
    · exact bystands_setCall p task _ hsame
  · cases h

theorem affair_wake (hnew : p.workers.get? p.nextWorker = none) {hindrance : Option String}
    (h : p.wake other hindrance = some q) (ticket : Nat) :
    Affair p q ticket (p.milestones q ticket (.wake other hindrance)) := by
  rw [wake] at h
  split at h
  · rename_i task hcall
    cases h
    exact affair_of_glance hnew (glance_attempt p other task true hindrance) hcall ticket
  · cases h

section
variable {place : Nat → Place} {ws : List Nat} {chosen : Option Nat}

theorem Staffed.get?_nextWorker (hs : Staffed place ws p) :
    p.workers.get? p.nextWorker = none := by
  rw [hs.worker, (hs.unborn _).mp (Nat.le_refl _)]
  rfl

/-- a worker that a submission holds waits for its task -/
theorem Staffed.worker_given (hs : Staffed place ws p) (h : p.holding? ticket = some worker) :
    p.workers.get? worker = some ⟨[], .waiting⟩ := by
  rw [hs.worker, (hs.given worker ticket).mp h]
  rfl

/-- what a worker looks like that carries a task -/
theorem Staffed.carries (hs : Staffed place ws p) {x : Worker}
    (hx : p.workers.get? worker = some x) (hcarries : x.Carries ticket) :
    x = ⟨[.run ticket], .waiting⟩ ∨ x = ⟨[], .running ticket⟩ := by
  rw [hs.worker] at hx
  rcases hcarries with hin | hstate
  · cases hplace : place worker with
    | assigned t =>
      rw [hplace] at hx
      cases hx
      rw [Command.run.inj (List.mem_singleton.mp hin)]
      exact .inl rfl
    | told =>
      rw [hplace] at hx
      cases hx
      cases List.mem_singleton.mp hin
    | _ =>
      rw [hplace] at hx
      cases hx
      all_goals cases hin
  · cases hplace : place worker with
    | running t =>
      rw [hplace] at hx
      cases hx
      rw [WorkerState.running.inj hstate]
      exact .inr rfl
    | _ =>
      rw [hplace] at hx
      cases hx
      all_goals cases hstate

theorem handOver_eq (hs : Staffed place ws p) {task : τ}
    (hcall : p.calls.get? ticket = some ⟨task, .holding worker⟩) :
    p.handOver ticket chosen =
      some (({ p with
        workers := p.workers.put worker ⟨[.run ticket], .waiting⟩
        jobs := p.jobs.put ticket ⟨task, .queued, Progress.none⟩ } : Pool τ α).setCall ticket task
          (.answered (.dispatched worker))) := by
  rw [handOver, hcall]
  dsimp only
  rw [hs.worker_given (holding?_of_get? hcall)]
  exact if_neg (by simp)

/-- Only who holds a worker hands over. -/
theorem exists_holding (h : p.handOver ticket chosen = some q) :
    ∃ task w, p.calls.get? ticket = some ⟨task, .holding w⟩ := by
  rw [handOver] at h
  split at h
  · exact ⟨_, _, ‹_›⟩
  · cases h

theorem affair_handOver (hs : Staffed place ws p) (h : p.handOver other chosen = some q)
    (ticket : Nat) : Affair p q ticket (p.milestones q ticket (.handOver other chosen)) := by
  obtain ⟨task, w, hcall⟩ := exists_holding h
  have hfree := hs.worker_given (holding?_of_get? hcall)
  rw [handOver_eq hs hcall] at h
  cases h
  rw [milestones]
  split
  · rename_i heq
    subst heq
    rw [answers_of_get? ((Table.get?_put _ _ _ _).trans (if_pos rfl))]
    refine .handedOver task w hcall (by rw [setCall, Table.get?_put, if_pos rfl]) ?_ ?_ ?_
    · exact (standing?_put (p := p) rfl ticket).trans (if_pos rfl)
    · exact (Table.get?_put _ _ _ _).trans (if_pos rfl)
    · exact fun v hv => (Table.get?_put _ _ _ _).trans (if_neg hv)
  · rename_i hother
    refine .aside ⟨.inl (by rw [setCall, Table.get?_put, if_neg hother]), ?_, ?_⟩
    · exact (standing?_put (p := p) rfl ticket).trans (if_neg hother)
    · refine sameCarriers_put (p := p) rfl (fun x hx => ?_) (not_carries_run hother)
      rw [hfree] at hx
      cases hx
      exact not_carries_nil (by simp)

/-- A worker goes on with a task. Whoever waits for another task does not notice. -/
theorem bystands_setJob_put {x y : Worker} {f : Job τ α → Job τ α}
    (hfound : p.workers.get? worker = some x)
    (hq : q = Pool.setJob other f { p with workers := p.workers.put worker y })
    (hother : ticket ≠ other) (hx : ¬ x.Carries ticket) (hy : ¬ y.Carries ticket) :
    Bystands p q ticket := by
  subst hq
  refine ⟨.inl (by rw [calls_setJob]), by rw [standing?_setJob, if_neg hother]; rfl, ?_⟩
  refine sameCarriers_put (workers_setJob _ other f) (fun z hz => ?_) hy
  rw [hfound] at hz
  rwa [← Option.some.inj hz]

theorem get?_setJob_put {y : Worker} {f : Job τ α → Job τ α}
    (hq : q = Pool.setJob ticket f { p with workers := p.workers.put worker y }) (w : Nat) :
    q.workers.get? w = if w = worker then some y else p.workers.get? w := by
  rw [hq, workers_setJob]
  exact Table.get?_put _ _ _ _

theorem affair_take (hs : Staffed place ws p) (h : p.take worker = some q) (ticket : Nat) :
    Affair p q ticket (p.milestones q ticket (.take worker)) := by
  rw [take] at h
  split at h
  · rename_i t inbox hfound
    -- there is nothing else in the inbox
    rcases hs.carries hfound (.inl List.mem_cons_self) with heq | heq <;> cases heq
    have hq := (Option.some.inj h).symm
    have hworkers := get?_setJob_put hq
    have hstate : q.workerState? worker = some (.running t) := by
      rw [workerState?, hworkers, if_pos rfl]
      rfl
    rw [milestones, hstate]
    split
    · rename_i heq
      cases heq
      refine .began worker hfound ((hworkers worker).trans (if_pos rfl))
        (fun w hw => (hworkers w).trans (if_neg hw)) (by rw [hq, calls_setJob]) fun task htask => ?_
      rw [hq]
      exact standing?_begin (by exact htask)
    · rename_i hne
      have hother : ticket ≠ t := fun heq => hne (by rw [heq])
      exact .aside (bystands_setJob_put hfound hq hother (not_carries_run hother)
        (not_carries_running hother))
  · rename_i rest hfound
    cases h
    have hstate : ({ p with workers := p.workers.put worker ⟨[], .ended⟩ } :
        Pool τ α).workerState? worker = some .ended := by
      rw [workerState?, Table.get?_put, if_pos rfl]
      rfl
    rw [milestones, hstate, if_neg (by simp)]
    refine .aside (bystands_of_carriers rfl rfl
      (sameCarriers_put rfl (fun x hx hcarries => ?_) (not_carries_nil (by simp))))
    rw [hfound] at hx
    rcases hs.carries hfound (Option.some.inj hx ▸ hcarries) with heq | heq <;> cases heq
  · cases h

theorem bystands_report {x : Float} (h : p.report worker x = some q) (ticket : Nat) :
    Bystands p q ticket := by
  rw [report] at h
  split at h
  · rename_i t _
    cases h
    exact bystands_setJob_report p t x ticket
  · cases h

theorem affair_finish (hs : Staffed place ws p) {outcome : TaskOutcome α}
    (h : p.finish worker outcome = some q) (ticket : Nat) :
    Affair p q ticket (p.milestones q ticket (.finish worker outcome)) := by
  rw [finish] at h
  split at h
  · rename_i inbox t hfound
    rcases hs.carries hfound (.inr rfl) with heq | heq <;> cases heq
    have hq := (Option.some.inj h).symm
    have hworkers := get?_setJob_put hq
    have hstate : p.workerState? worker = some (.running t) := by
      rw [workerState?, hfound]
      rfl
    rw [milestones, hstate]
    split
    · rename_i heq
      cases heq
      refine .ended worker outcome hfound ((hworkers worker).trans (if_pos rfl))
        (fun w hw => (hworkers w).trans (if_neg hw)) (by rw [hq, calls_setJob])
        fun task s htask hpending => ?_
      rw [hq]
      exact standing?_conclude (by exact htask) hpending outcome
    · rename_i hne
      have hother : ticket ≠ t := fun heq => hne (by rw [heq])
      exact .aside (bystands_setJob_put hfound hq hother (not_carries_running hother)
        (not_carries_nil (by simp)))
  · cases h

theorem bystands_giveBack (hs : Staffed place ws p) (h : p.giveBack worker chosen = some q)
    (ticket : Nat) : Bystands p q ticket := by
  rw [giveBack] at h
  split at h
  · rename_i inbox hfound
    obtain ⟨-, rfl⟩ := Place.eq_returning ((hs.worker worker).symm.trans hfound)
    have hcarries (x : Worker) (hx : p.workers.get? worker = some x) : ¬ x.Carries ticket := by
      rw [hfound] at hx
      cases hx
      exact not_carries_nil (by simp)
    have hnotified := bystands_notifyOne h ticket
    refine Bystands.trans ?_ ?_ hnotified
    · have hnone {s : WorkerState} (hs : s ≠ .running ticket) :=
        sameCarriers_put (q := { p with workers := p.workers.put worker ⟨[], s⟩ }) rfl hcarries
          (not_carries_nil hs)
      split <;> exact bystands_of_carriers rfl rfl (hnone (by simp))
    · split <;> rfl
  · cases h

/-- Whoever is told to stop carries nothing. -/
theorem bystands_shutDown (hs : Staffed place ws p) (ticket : Nat) :
    Bystands p p.shutDown ticket := by
  rw [shutDown]
  split
  · exact bystands_of_same rfl rfl rfl ticket
  · refine Bystands.trans ?_ ?_ (bystands_notifyAll _ ticket)
    · refine bystands_of_carriers (by rw [sendStops_eq]) (by rw [sendStops_eq]) fun w x hx => ?_
      rw [Staffed.get?_sendStops hs.idle_distinct]
      split
      · rename_i hw
        dsimp only
        rw [hs.worker w, (hs.idle w).mp hw]
        refine iff_of_false (fun heq => ?_) (fun heq => ?_)
        · cases heq
          rcases hx with hin | hstate
          · cases List.mem_singleton.mp hin
          · cases hstate
        · exact not_carries_nil (s := .waiting) (by simp) (Option.some.inj heq ▸ hx)
      · exact Iff.rfl
    · rw [sendStops_eq]

end

theorem affair_collect (h : (p.collect other).map Prod.snd = some q) (ticket : Nat) :
    Affair p q ticket (p.milestones q ticket (.collect other)) := by
  obtain ⟨⟨result, r⟩, hcollect, rfl⟩ := Option.map_eq_some_iff.mp h
  rw [milestones]
  have hresult := hcollect
  rw [collect] at hcollect
  split at hcollect
  · rename_i job hjob
    split at hcollect
    · rename_i outcome hfinished
      cases hcollect
      split
      · rename_i heq
        subst heq
        rw [hresult]
        refine .collected job.task outcome ?_
          ((standing?_put (p := p) rfl ticket).trans (if_pos rfl)) rfl fun _ _ _ => Iff.rfl
        rw [standing?, hjob, Option.map_some, hfinished]
      · rename_i hother
        exact .aside ⟨.inl rfl, (standing?_put (p := p) rfl ticket).trans (if_neg hother),
          fun _ _ _ => Iff.rfl⟩
    · rename_i hcollected
      cases hcollect
      have hsame := bystands_of_same (p := p) rfl rfl rfl ticket
      split
      · rename_i heq
        subst heq
        rw [hresult]
        refine .tooLate job.task ?_ hsame
        rw [standing?, hjob, Option.map_some, hcollected]
      · exact .aside hsame
    · cases hcollect
    · cases hcollect
  · cases hcollect

/-- Each step concerns a submission in one of these ways. -/
theorem affair_perform {turns : List Turn} (h : Booked turns p) {a : Action τ α}
    (hq : p.perform a = some q) (ticket : Nat) :
    Affair p q ticket (p.milestones q ticket a) := by
  obtain ⟨place, hs⟩ := h.staffed
  have hnew := hs.get?_nextWorker
  cases a with
  | submit task objection blocking hindrance =>
    exact affair_submit h.ticketed hnew task objection blocking hindrance
      (Option.some.inj hq).symm ticket
  | stir other => exact .aside (bystands_stir hq ticket)
  | wake other hindrance => exact affair_wake hnew hq ticket
  | handOver other chosen => exact affair_handOver hs hq ticket
  | take worker => exact affair_take hs hq ticket
  | report worker x => exact .aside (bystands_report hq ticket)
  | finish worker outcome => exact affair_finish hs hq ticket
  | giveBack worker chosen => exact .aside (bystands_giveBack hs hq ticket)
  | shutDown =>
    cases hq
    exact .aside (bystands_shutDown hs ticket)
  | collect other => exact affair_collect hq ticket

/-! ## notes along a run -/

/-- the notes after several steps, each of which adds to them -/
def noted {β : Type} (note : Pool τ α → Pool τ α → Action τ α → β → β) (p : Pool τ α) (b : β) :
    List (Action τ α) → β
  | [] => b
  | a :: actions =>
    match p.perform a with
    | none => b
    | some q => noted note q (note p q a b) actions

/-- What each step keeps, a run keeps. -/
theorem Booked.noted {β : Type} {note : Pool τ α → Pool τ α → Action τ α → β → β}
    {I : β → Pool τ α → Prop}
    (hstep : ∀ {turns : List Turn} {p q : Pool τ α} {a : Action τ α} {b : β},
      Booked turns p → I b p → p.perform a = some q → I (note p q a b) q)
    {turns later : List Turn} {actions : List (Action τ α)} {b : β} (h : Booked turns p)
    (hI : I b p) (hrun : p.run actions = some (later, q)) :
    I (Pool.noted note p b actions) q := by
  induction actions generalizing p turns later b with
  | nil =>
    cases hrun
    exact hI
  | cons a actions ih =>
    obtain ⟨r, rest, hr, hrest, -⟩ := run_cons hrun
    rw [Pool.noted, hr]
    exact ih (h.perform hr).1 (hstep h hI hr) hrest

end Pool

end BundleLink
