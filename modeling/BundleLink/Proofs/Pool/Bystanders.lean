import BundleLink.Proofs.Pool.Workers

/-!
# Submissions that are not concerned

A step of a pool concerns one submission and its job, if any. For all others it is much as if
nothing had happened: they may be notified, but their jobs and the workers that carry these stay as
they are.

* `Worker.Carries`   a worker has a task in its inbox, or runs it;
* `Pool.standing?`   the task of a job and how far it is;
* `Pool.Bystands`    what a step leaves of the submissions that it does not concern, and
  `Glance.bystands` for a look at the pool by another submission.
-/

namespace BundleLink

/-- The worker has the task of the submission in its inbox, or runs it. -/
def Worker.Carries (w : Worker) (ticket : Nat) : Prop :=
  .run ticket ∈ w.inbox ∨ w.state = .running ticket

def CallState.reply? : CallState → Option Reply
  | .answered r => some r
  | .asleep | .notified | .holding _ => none

/-- The submission is turned away. It is told so, and nothing else becomes of it. -/
def Reply.isRefusal : Reply → Bool
  | .saturated | .refused .shutDown | .refused (.invalidParams _) | .refused (.notStarted _) => true
  | _ => false

namespace Job

variable {τ α : Type} (job : Job τ α)

theorem task_begin : job.begin.task = job.task := by
  rw [begin]
  split <;> rfl

theorem state_begin (h : job.state = .queued) : job.begin.state = .running := by
  rw [begin, h]

theorem state_conclude (o : TaskOutcome α) (h : job.state.isPending = true) :
    (job.conclude o).state = .finished o := by
  rw [conclude]
  cases o.isValue <;> exact congrArg state (if_pos h)

theorem task_conclude (o : TaskOutcome α) : (job.conclude o).task = job.task := by
  rw [conclude]
  cases o.isValue with
  | false =>
    rw [if_neg Bool.false_ne_true]
    split <;> rfl
  | true =>
    rw [if_pos rfl]
    split <;> rfl

end Job

namespace Pool

variable {τ α : Type} {p q r : Pool τ α} {ticket other worker : Nat}

/-- the task of a job and how far it is -/
def standing? (p : Pool τ α) (ticket : Nat) : Option (τ × JobState α) :=
  (p.jobs.get? ticket).map fun job => (job.task, job.state)

theorem standing?_of_jobs (h : q.jobs = p.jobs) (ticket : Nat) :
    q.standing? ticket = p.standing? ticket := by
  rw [standing?, standing?, h]

theorem standing?_put {job : Job τ α} (h : q.jobs = p.jobs.put ticket job) (other : Nat) :
    q.standing? other =
      if other = ticket then some (job.task, job.state) else p.standing? other := by
  rw [standing?, h, Table.get?_put]
  split <;> rfl

theorem workers_setJob (p : Pool τ α) (ticket : Nat) (f : Job τ α → Job τ α) :
    (p.setJob ticket f).workers = p.workers := by
  rw [setJob]
  split <;> rfl

theorem standing?_setJob (p : Pool τ α) (ticket : Nat) (f : Job τ α → Job τ α) (other : Nat) :
    (p.setJob ticket f).standing? other =
      if other = ticket then (p.jobs.get? ticket).map fun job => ((f job).task, (f job).state)
      else p.standing? other := by
  rw [setJob]
  split
  · rename_i job hjob
    rw [standing?_put rfl, hjob]
    rfl
  · rename_i hjob
    rw [hjob]
    split
    · rename_i heq
      rw [heq, standing?, hjob]
      rfl
    · rfl

theorem standing?_begin {task : τ} (h : p.standing? ticket = some (task, .queued)) :
    (p.setJob ticket Job.begin).standing? ticket = some (task, .running) := by
  obtain ⟨job, hjob, heq⟩ := Option.map_eq_some_iff.mp h
  obtain ⟨rfl, hqueued⟩ := Prod.mk.inj heq
  rw [standing?_setJob, if_pos rfl, hjob, Option.map_some, job.task_begin, job.state_begin hqueued]

theorem standing?_conclude {task : τ} {s : JobState α}
    (h : p.standing? ticket = some (task, s)) (hpending : s.isPending = true)
    (outcome : TaskOutcome α) :
    (p.setJob ticket (Job.conclude outcome)).standing? ticket =
      some (task, .finished outcome) := by
  obtain ⟨job, hjob, heq⟩ := Option.map_eq_some_iff.mp h
  obtain ⟨rfl, rfl⟩ := Prod.mk.inj heq
  rw [standing?_setJob, if_pos rfl, hjob, Option.map_some, job.task_conclude,
    job.state_conclude outcome hpending]

/-! ## submissions that a step does not concern -/

/-- The same workers carry the task of the submission, in the same state. -/
def SameCarriers (p q : Pool τ α) (ticket : Nat) : Prop :=
  ∀ w x, x.Carries ticket → (q.workers.get? w = some x ↔ p.workers.get? w = some x)

theorem sameCarriers_of_workers (h : q.workers = p.workers) (ticket : Nat) :
    SameCarriers p q ticket :=
  fun w x _ => by rw [h]

theorem SameCarriers.trans (h : SameCarriers p q ticket) (h' : SameCarriers q r ticket) :
    SameCarriers p r ticket :=
  fun w x hx => (h' w x hx).trans (h w x hx)

/-- a worker that carries the task neither before nor afterwards -/
theorem sameCarriers_put {y : Worker} (h : q.workers = p.workers.put worker y)
    (hbefore : ∀ x, p.workers.get? worker = some x → ¬ x.Carries ticket)
    (hafter : ¬ y.Carries ticket) : SameCarriers p q ticket := by
  intro w x hx
  rw [h, Table.get?_put]
  split
  · rename_i hw
    subst hw
    refine ⟨fun heq => absurd hx ?_, fun heq => absurd hx (hbefore x heq)⟩
    rwa [← Option.some.inj heq]
  · exact Iff.rfl

theorem not_carries_nil {s : WorkerState} (h : s ≠ .running ticket) :
    ¬ Worker.Carries ⟨[], s⟩ ticket := by
  rintro (hin | hs)
  · exact List.not_mem_nil hin
  · exact h hs

theorem not_carries_run (h : ticket ≠ other) :
    ¬ Worker.Carries ⟨[.run other], .waiting⟩ ticket := by
  rintro (hin | hs)
  · exact h (Command.run.inj (List.mem_singleton.mp hin))
  · cases hs

theorem not_carries_running (h : ticket ≠ other) :
    ¬ Worker.Carries ⟨[], .running other⟩ ticket :=
  not_carries_nil fun hs => h (WorkerState.running.inj hs).symm

/-- The submission may have been notified, but its job and the workers that carry it are the same
as before. -/
structure Bystands (p q : Pool τ α) (ticket : Nat) : Prop where
  call : q.calls.get? ticket = p.calls.get? ticket ∨
    ∃ task, p.calls.get? ticket = some ⟨task, .asleep⟩ ∧
      q.calls.get? ticket = some ⟨task, .notified⟩
  job : q.standing? ticket = p.standing? ticket
  carriers : SameCarriers p q ticket

/-- a notification after a step that notifies nobody -/
theorem Bystands.trans (h : Bystands p q ticket)
    (hcall : q.calls.get? ticket = p.calls.get? ticket) (h' : Bystands q r ticket) :
    Bystands p r ticket where
  call := hcall ▸ h'.call
  job := h'.job.trans h.job
  carriers := h.carriers.trans h'.carriers

theorem bystands_of_carriers (hcalls : q.calls = p.calls) (hjobs : q.jobs = p.jobs)
    (h : SameCarriers p q ticket) : Bystands p q ticket :=
  ⟨.inl (by rw [hcalls]), standing?_of_jobs hjobs ticket, h⟩

theorem bystands_of_same (hcalls : q.calls = p.calls) (hjobs : q.jobs = p.jobs)
    (hworkers : q.workers = p.workers) (ticket : Nat) : Bystands p q ticket :=
  bystands_of_carriers hcalls hjobs (sameCarriers_of_workers hworkers ticket)

theorem bystands_setCall (p : Pool τ α) (task : τ) (s : CallState) (h : other ≠ ticket) :
    Bystands p (p.setCall ticket task s) other where
  call := .inl (by rw [setCall, Table.get?_put, if_neg h])
  job := rfl
  carriers _ _ _ := Iff.rfl

theorem bystands_notifyOne {chosen : Option Nat} (h : p.notifyOne chosen = some q)
    (ticket : Nat) : Bystands p q ticket := by
  cases chosen with
  | none =>
    rw [notifyOne] at h
    split at h
    · cases h
      exact bystands_of_same rfl rfl rfl ticket
    · cases h
  | some other =>
    rw [notifyOne] at h
    split at h
    · rename_i task hcall
      cases h
      by_cases hsame : ticket = other
      · subst hsame
        refine ⟨.inr ⟨task, hcall, ?_⟩, rfl, fun _ _ _ => Iff.rfl⟩
        rw [setCall, Table.get?_put, if_pos rfl]
      · exact bystands_setCall p task _ hsame
    · cases h

theorem bystands_notifyAll (p : Pool τ α) (ticket : Nat) : Bystands p p.notifyAll ticket where
  call := by
    rw [notifyAll, Table.get?_map]
    cases p.calls.get? ticket with
    | none => exact .inl rfl
    | some call =>
      obtain ⟨task, s⟩ := call
      by_cases hs : s = .asleep
      · subst hs
        exact .inr ⟨task, rfl, rfl⟩
      · exact .inl (congrArg some (if_neg hs))
  job := rfl
  carriers _ _ _ := Iff.rfl

/-- a report does not concern any submission -/
theorem bystands_setJob_report (p : Pool τ α) (ticket : Nat) (x : Float) (other : Nat) :
    Bystands p (p.setJob ticket (Job.report x)) other where
  call := .inl (by rw [calls_setJob])
  job := by
    rw [standing?_setJob]
    split
    · rename_i heq
      rw [heq]
      rfl
    · rfl
  carriers := sameCarriers_of_workers (workers_setJob p ticket _) other

/-! ## a look at the pool -/

namespace Glance

variable {task : τ}

/-- The submission waits, or has a worker, or was turned away. -/
theorem call (h : Glance p ticket task q) :
    ∃ s, q.calls.get? ticket = some ⟨task, s⟩ ∧ ∀ r, s.reply? = some r → r.isRefusal = true := by
  have hput (r : Pool τ α) (s : CallState) :
      (r.setCall ticket task s).calls.get? ticket = some ⟨task, s⟩ :=
    (Table.get?_put _ _ _ _).trans (if_pos rfl)
  cases h with
  | refused down => exact ⟨_, hput _ _, fun r hr => by cases hr; rfl⟩
  | reused up free idle => exact ⟨_, hput _ _, fun _ hr => by cases hr⟩
  | started up free idle => exact ⟨_, hput _ _, fun _ hr => by cases hr⟩
  | missed up free idle why => exact ⟨_, hput _ _, fun r hr => by cases hr; rfl⟩
  | asleep up full => exact ⟨_, hput _ _, fun _ hr => by cases hr⟩
  | saturated up full => exact ⟨_, hput _ _, fun r hr => by cases hr; rfl⟩

theorem jobs (h : Glance p ticket task q) : q.jobs = p.jobs := by
  cases h with
  | _ => rfl

/-- A worker that is made active carries nothing: it was idle, or did not exist. -/
theorem carriers (h : Glance p ticket task q) (hnew : p.workers.get? p.nextWorker = none)
    (other : Nat) : SameCarriers p q other := by
  cases h with
  | started up free idle =>
    refine sameCarriers_put (p := p) rfl (fun y hy => ?_) (not_carries_nil (by simp))
    rw [hnew] at hy
    cases hy
  | _ => exact fun _ _ _ => Iff.rfl

/-- other submissions do not notice -/
theorem others (h : Glance p ticket task q) (hother : other ≠ ticket) :
    q.calls.get? other = p.calls.get? other := by
  cases h with
  | _ => exact (Table.get?_put _ _ _ _).trans (if_neg hother)

theorem bystands (h : Glance p ticket task q) (hnew : p.workers.get? p.nextWorker = none)
    (hother : other ≠ ticket) : Bystands p q other :=
  ⟨.inl (h.others hother), standing?_of_jobs h.jobs other, h.carriers hnew other⟩

end Glance

end Pool

end BundleLink
