import BundleLink.Proofs.Pool.Tickets

/-!
# What becomes of a submission

A submission that is turned away leaves no trace. A task that is handed over is run once, by the
worker that it was handed to, whatever else happens in the pool, and its outcome is kept until
somebody collects it.

* `JobState.Next`      the order of the states of a job;
* `Pool.CarriedBy`     who carries a task;
* `Pool.Work`, `Pool.Fate`  the stories of a job and of a submission, up to any point;
* `Fate.step`          every step adds to such a story;
* `Fate.forward`, `Fate.completable`  jobs only go on, and can always go on;
* `Pool.Dismissed`, `Pool.Usable`  workers that are of no use any more, and of use again;
* `orderly_of_run`     all of this, in every run.
-/

namespace BundleLink

namespace JobState

variable {α : Type}

/-- A job in the first state gets into the second one next. -/
inductive Next : JobState α → JobState α → Prop
  | begin : Next .queued .running
  | finish (outcome : TaskOutcome α) : Next .running (.finished outcome)
  | collect (outcome : TaskOutcome α) : Next (.finished outcome) .collected

/-- what the worker with the job looks like -/
def worker? (s : JobState α) (ticket : Nat) : Option Worker :=
  match s with
  | .queued => some ⟨[.run ticket], .waiting⟩
  | .running => some ⟨[], .running ticket⟩
  | .finished _ | .collected => none

end JobState

namespace Pool

variable {τ α : Type} {p q : Pool τ α} {ticket worker : Nat}

/-! ## who carries a task -/

/-- The task of the submission is carried by this worker and nobody else, or by nobody. -/
def CarriedBy (p : Pool τ α) (ticket : Nat) (c : Option (Nat × Worker)) : Prop :=
  ∀ w x, p.workers.get? w = some x ∧ x.Carries ticket ↔ c = some (w, x)

namespace CarriedBy

variable {c : Option (Nat × Worker)} {x y : Worker}

theorem of_same (h : CarriedBy p ticket c) (hsame : SameCarriers p q ticket) :
    CarriedBy q ticket c := by
  intro w x
  rw [← h w x]
  exact ⟨fun hx => ⟨(hsame w x hx.2).mp hx.1, hx.2⟩, fun hx => ⟨(hsame w x hx.2).mpr hx.1, hx.2⟩⟩

/-- If the task is carried by one worker at most, then only this one matters. -/
theorem put (h : CarriedBy p ticket c) (hc : ∀ w x, c = some (w, x) → w = worker)
    (hworker : q.workers.get? worker = some y)
    (hothers : ∀ w, w ≠ worker → q.workers.get? w = p.workers.get? w) :
    (y.Carries ticket → CarriedBy q ticket (some (worker, y))) ∧
      (¬ y.Carries ticket → CarriedBy q ticket none) := by
  have hfound {w : Nat} {x : Worker} (hx : q.workers.get? w = some x)
      (hcarries : x.Carries ticket) : w = worker ∧ y = x := by
    by_cases hw : w = worker
    · subst hw
      exact ⟨rfl, Option.some.inj (hworker.symm.trans hx)⟩
    · exact absurd (hc w x ((h w x).mp ⟨hothers w hw ▸ hx, hcarries⟩)) hw
  refine ⟨fun hy w x => ⟨fun hx => ?_, fun heq => ?_⟩, fun hy w x => ⟨fun hx => ?_, nofun⟩⟩
  · obtain ⟨rfl, rfl⟩ := hfound hx.1 hx.2
    rfl
  · cases heq
    exact ⟨hworker, hy⟩
  · obtain ⟨rfl, rfl⟩ := hfound hx.1 hx.2
    exact absurd hx.2 hy

end CarriedBy

/-! ## fates -/

/-- What happens to a job on its worker, and afterwards. -/
inductive Work (worker : Nat) (task : τ) : JobState α → List (Milestone τ α) → Prop
  | queued : Work worker task .queued []
  | running : Work worker task .running [.began worker (some task)]
  | finished (outcome : TaskOutcome α) :
    Work worker task (.finished outcome)
      [.began worker (some task), .ended worker (some task) outcome]
  | collected (outcome : TaskOutcome α) (again : Nat) :
    Work worker task .collected
      ([.began worker (some task), .ended worker (some task) outcome,
        .collected outcome.toExcept] ++
        List.replicate again (.collected (.error .alreadyCollected)))

theorem Work.again {worker : Nat} {task : τ} {ms : List (Milestone τ α)}
    (h : Work worker task .collected ms) :
    Work worker task .collected (ms ++ [.collected (.error .alreadyCollected)]) := by
  cases h with
  | collected outcome again =>
    rw [List.append_assoc, ← List.replicate_succ']
    exact .collected outcome (again + 1)

/-- All that has happened to a submission so far, and how it stands now. -/
inductive Fate (p : Pool τ α) (ticket : Nat) : List (Milestone τ α) → Prop
  | unknown (call : p.calls.get? ticket = none) (job : p.standing? ticket = none)
    (carried : CarriedBy p ticket none) : Fate p ticket []
  | pending (task : τ) (s : CallState) (call : p.calls.get? ticket = some ⟨task, s⟩)
    (waits : s.reply? = none) (job : p.standing? ticket = none)
    (carried : CarriedBy p ticket none) : Fate p ticket [.submitted task]
  | refused (task : τ) (r : Reply) (call : p.calls.get? ticket = some ⟨task, .answered r⟩)
    (refusal : r.isRefusal = true) (job : p.standing? ticket = none)
    (carried : CarriedBy p ticket none) : Fate p ticket [.submitted task, .answered r]
  | dispatched (task : τ) (worker : Nat) (s : JobState α) (work : List (Milestone τ α))
    (call : p.calls.get? ticket = some ⟨task, .answered (.dispatched worker)⟩)
    (job : p.standing? ticket = some (task, s)) (worked : Work worker task s work)
    (carried : CarriedBy p ticket ((s.worker? ticket).map (Prod.mk worker))) :
    Fate p ticket (.submitted task :: .answered (.dispatched worker) :: work)

theorem fate_empty (settings : PoolSettings) (ticket : Nat) :
    Fate (empty settings : Pool τ α) ticket [] :=
  .unknown rfl rfl fun _ _ => iff_of_false (fun h => nomatch h.1) nofun

namespace Fate

variable {ms : List (Milestone τ α)}

theorem aside (h : Fate p ticket ms) (same : Bystands p q ticket) : Fate q ticket ms := by
  obtain ⟨hcall, hjob, hcarriers⟩ := same
  cases h with
  | unknown call job carried =>
    rcases hcall with hcall | ⟨task, hcall, -⟩
    · exact .unknown (hcall.trans call) (hjob.trans job) (carried.of_same hcarriers)
    · rw [call] at hcall
      cases hcall
  | pending task s call waits job carried =>
    rcases hcall with hcall | ⟨_, hasleep, hcall⟩
    · exact .pending task s (hcall.trans call) waits (hjob.trans job) (carried.of_same hcarriers)
    · rw [call] at hasleep
      cases hasleep
      exact .pending task .notified hcall rfl (hjob.trans job) (carried.of_same hcarriers)
  | refused task r call refusal job carried =>
    rcases hcall with hcall | ⟨_, hasleep, -⟩
    · exact .refused task r (hcall.trans call) refusal (hjob.trans job) (carried.of_same hcarriers)
    · rw [call] at hasleep
      cases hasleep
  | dispatched task worker s work call job worked carried =>
    rcases hcall with hcall | ⟨_, hasleep, -⟩
    · exact .dispatched task worker s work (hcall.trans call) (hjob.trans job) worked
        (carried.of_same hcarriers)
    · rw [call] at hasleep
      cases hasleep

/-- after a look at the pool -/
theorem of_call {task : τ} {s : CallState} (call : q.calls.get? ticket = some ⟨task, s⟩)
    (polite : ∀ r, s.reply? = some r → r.isRefusal = true) (job : q.standing? ticket = none)
    (carried : CarriedBy q ticket none) :
    Fate q ticket (.submitted task :: q.answers ticket) := by
  rw [answers_of_get? call]
  cases s with
  | answered r => exact .refused task r call (polite r rfl) job carried
  | asleep => exact .pending task _ call rfl job carried
  | notified => exact .pending task _ call rfl job carried
  | holding worker => exact .pending task _ call rfl job carried

/-- a submission that was not answered yet -/
theorem of_waits (h : Fate p ticket ms) {task : τ} {s : CallState}
    (call : p.calls.get? ticket = some ⟨task, s⟩) (hs : s.reply? = none) :
    ms = [.submitted task] ∧ p.standing? ticket = none ∧ CarriedBy p ticket none := by
  cases h with
  | unknown call' job carried =>
    rw [call] at call'
    cases call'
  | pending task' s' call' waits job carried =>
    rw [call] at call'
    cases call'
    exact ⟨rfl, job, carried⟩
  | refused task' r call' refusal job carried =>
    rw [call] at call'
    cases call'
    cases hs
  | dispatched task' worker s' work call' job worked carried =>
    rw [call] at call'
    cases call'
    cases hs

/-- a task that a worker carries -/
theorem of_carried (h : Fate p ticket ms) {x : Worker} (hx : p.workers.get? worker = some x)
    (hcarries : x.Carries ticket) :
    ∃ task s work, ms = .submitted task :: .answered (.dispatched worker) :: work ∧
      p.calls.get? ticket = some ⟨task, .answered (.dispatched worker)⟩ ∧
      p.standing? ticket = some (task, s) ∧ s.worker? ticket = some x ∧ Work worker task s work ∧
      CarriedBy p ticket (some (worker, x)) := by
  cases h with
  | unknown call job carried => cases (carried worker x).mp ⟨hx, hcarries⟩
  | pending task s call waits job carried => cases (carried worker x).mp ⟨hx, hcarries⟩
  | refused task r call refusal job carried => cases (carried worker x).mp ⟨hx, hcarries⟩
  | dispatched task w s work call job worked carried =>
    have hsome := (carried worker x).mp ⟨hx, hcarries⟩
    obtain ⟨y, hy, heq⟩ := Option.map_eq_some_iff.mp hsome
    cases heq
    exact ⟨task, s, work, rfl, call, job, hy, worked, hsome ▸ carried⟩

/-- a task that was handed over -/
theorem of_standing (h : Fate p ticket ms) {task : τ} {s : JobState α}
    (hs : p.standing? ticket = some (task, s)) :
    ∃ worker work, ms = .submitted task :: .answered (.dispatched worker) :: work ∧
      p.calls.get? ticket = some ⟨task, .answered (.dispatched worker)⟩ ∧
      Work worker task s work ∧
      CarriedBy p ticket ((s.worker? ticket).map (Prod.mk worker)) := by
  cases h with
  | unknown call job carried =>
    rw [job] at hs
    cases hs
  | pending task' s' call waits job carried =>
    rw [job] at hs
    cases hs
  | refused task' r call refusal job carried =>
    rw [job] at hs
    cases hs
  | dispatched task' w s' work call job worked carried =>
    rw [hs] at job
    cases job
    exact ⟨w, work, rfl, call, worked, carried⟩

/-- what one step makes of it -/
theorem step (h : Fate p ticket ms) {new : List (Milestone τ α)} (ha : Affair p q ticket new) :
    Fate q ticket (ms ++ new) := by
  cases ha with
  | aside same =>
    rw [List.append_nil]
    exact h.aside same
  | submitted task s before call polite job carriers =>
    cases h with
    | unknown _ job' carried =>
      exact of_call call polite (job.trans job') (carried.of_same carriers)
    | pending task' s' call' waits job' carried =>
      rw [before] at call'
      cases call'
    | refused task' r call' refusal job' carried =>
      rw [before] at call'
      cases call'
    | dispatched task' worker s' work call' job' worked carried =>
      rw [before] at call'
      cases call'
  | looked task s before call polite job carriers =>
    obtain ⟨rfl, hjob, hcarried⟩ := h.of_waits before rfl
    exact of_call call polite (job.trans hjob) (hcarried.of_same carriers)
  | handedOver task worker before call job carrier others =>
    obtain ⟨rfl, -, hcarried⟩ := h.of_waits before rfl
    refine .dispatched task worker .queued [] call job .queued ?_
    exact (hcarried.put (fun _ _ heq => nomatch heq) carrier others).1 (.inl List.mem_cons_self)
  | began worker before carrier others call job =>
    obtain ⟨task, s, work, rfl, hcall, hjob, hs, hworked, hcarried⟩ :=
      h.of_carried before (.inl List.mem_cons_self)
    cases s <;> cases hs
    cases hworked
    rw [taskOf?_of_standing (job task hjob)]
    refine .dispatched task worker .running _ (call.trans hcall) (job task hjob) .running ?_
    exact (hcarried.put (fun _ _ heq => by cases heq; rfl) carrier others).1 (.inr rfl)
  | ended worker outcome before freed others call job =>
    obtain ⟨task, s, work, rfl, hcall, hjob, hs, hworked, hcarried⟩ :=
      h.of_carried before (.inr rfl)
    cases s <;> cases hs
    cases hworked
    rw [taskOf?_of_standing hjob]
    refine .dispatched task worker (.finished outcome) _ (call.trans hcall)
      (job task .running hjob rfl) (.finished outcome) ?_
    exact (hcarried.put (fun _ _ heq => by cases heq; rfl) freed others).2 (not_carries_nil nofun)
  | collected task outcome before job call carriers =>
    obtain ⟨worker, work, rfl, hcall, hworked, hcarried⟩ := h.of_standing before
    cases hworked
    exact .dispatched task worker .collected _ (call.trans hcall) job (.collected outcome 0)
      (hcarried.of_same carriers)
  | tooLate task before same =>
    obtain ⟨worker, work, rfl, hcall, hworked, hcarried⟩ := h.of_standing before
    exact (dispatched task worker .collected _ hcall before hworked.again hcarried).aside same

/-- A job only goes on, from one state to the next. -/
theorem forward (h : Fate p ticket ms) {new : List (Milestone τ α)} (ha : Affair p q ticket new)
    {task : τ} {s : JobState α} (hs : p.standing? ticket = some (task, s)) :
    ∃ s', q.standing? ticket = some (task, s') ∧ (s' = s ∨ s.Next s') := by
  cases ha with
  | aside same => exact ⟨s, same.job.trans hs, .inl rfl⟩
  | submitted task s before call polite job carriers => exact ⟨_, job.trans hs, .inl rfl⟩
  | looked task s before call polite job carriers => exact ⟨_, job.trans hs, .inl rfl⟩
  | handedOver task worker before call job carrier others =>
    rw [(h.of_waits before rfl).2.1] at hs
    cases hs
  | began worker before carrier others call job =>
    obtain ⟨task', s', work, -, -, hjob, hs', -, -⟩ := h.of_carried before (.inl List.mem_cons_self)
    rw [hs] at hjob
    cases hjob
    cases s <;> cases hs'
    exact ⟨.running, job task hs, .inr .begin⟩
  | ended worker outcome before freed others call job =>
    obtain ⟨task', s', work, -, -, hjob, hs', -, -⟩ := h.of_carried before (.inr rfl)
    rw [hs] at hjob
    cases hjob
    cases s <;> cases hs'
    exact ⟨.finished outcome, job task .running hs rfl, .inr (.finish outcome)⟩
  | collected task' outcome before job call carriers =>
    rw [hs] at before
    cases before
    exact ⟨.collected, job, .inr (.collect outcome)⟩
  | tooLate task' before same => exact ⟨s, same.job.trans hs, .inl rfl⟩

/-- The worker of a job can bring it to its end, whatever the outcome and whatever the other workers
and submissions do. -/
theorem completable (h : Fate p ticket ms) {task : τ} {s : JobState α}
    (hs : p.standing? ticket = some (task, s)) (hpending : s.isPending = true)
    (outcome : TaskOutcome α) :
    ∃ worker actions turns q,
      (actions = [.take worker, .finish worker outcome] ∨ actions = [.finish worker outcome]) ∧
      p.run actions = some (turns, q) ∧ q.standing? ticket = some (task, .finished outcome) := by
  obtain ⟨worker, work, -, -, -, hcarried⟩ := h.of_standing hs
  -- once the job runs
  have hfinish {r : Pool τ α} {inbox : List Command}
      (hfound : r.workers.get? worker = some ⟨inbox, .running ticket⟩)
      (hrunning : r.standing? ticket = some (task, .running)) :
      ∃ turns q, r.run [.finish worker outcome] = some (turns, q) ∧
        q.standing? ticket = some (task, .finished outcome) := by
    have hperform : r.finish worker outcome =
        some (({ r with workers := r.workers.put worker ⟨inbox, .returning⟩ } : Pool τ α).setJob
          ticket (Job.conclude outcome)) := by
      rw [finish, hfound]
    exact ⟨_, _, run_of_perform hperform rfl, standing?_conclude (by exact hrunning) rfl outcome⟩
  cases s with
  | finished o => cases hpending
  | collected => cases hpending
  | running =>
    obtain ⟨turns, q, hrun, hq⟩ := hfinish ((hcarried worker _).mpr rfl).1 hs
    exact ⟨worker, _, turns, q, .inr rfl, hrun, hq⟩
  | queued =>
    have hfound := ((hcarried worker _).mpr rfl).1
    have hperform : p.take worker =
        some (({ p with workers := p.workers.put worker ⟨[], .running ticket⟩ } :
          Pool τ α).setJob ticket Job.begin) := by
      rw [take, hfound]
    obtain ⟨turns, q, hrun, hq⟩ := hfinish ((get?_setJob_put rfl worker).trans (if_pos rfl))
      (standing?_begin (by exact hs))
    exact ⟨worker, _, _, q, .inl rfl, run_of_perform hperform hrun, hq⟩

end Fate

/-! ## workers that are of no use any more -/

/-- The worker was told to stop, or has stopped. -/
def Dismissed (x : Worker) : Prop := .stop ∈ x.inbox ∨ x.state = .ended

section
variable {place : Nat → Place} {ws : List Nat} {turns : List Turn} {x : Worker}

theorem Staffed.place_of_dismissed (hs : Staffed place ws p)
    (hx : p.workers.get? worker = some x) (hd : Dismissed x) :
    place worker = .told ∨ place worker = .ended := by
  rw [hs.worker] at hx
  cases hplace : place worker with
  | told => exact .inl rfl
  | ended => exact .inr rfl
  | _ =>
    rw [hplace] at hx
    cases hx
    all_goals
      rcases hd with hin | hstate
      · simp at hin
      · cases hstate

/-- Nobody holds such a worker, and it carries nothing. -/
theorem Staffed.free_of_dismissed (hs : Staffed place ws p)
    (hx : p.workers.get? worker = some x) (hd : Dismissed x) :
    (∀ t, ¬ x.Carries t) ∧ ∀ t, p.holding? t ≠ some worker := by
  have hplace := hs.place_of_dismissed hx hd
  rw [hs.worker] at hx
  refine ⟨fun t ht => ?_, fun t ht => ?_⟩
  · rcases hplace with hplace | hplace
    · rw [hplace] at hx
      cases hx
      rcases ht with hin | hstate
      · cases List.mem_singleton.mp hin
      · cases hstate
    · rw [hplace] at hx
      cases hx
      exact not_carries_nil (s := .ended) nofun ht
  · rw [(hs.given worker t).mp ht] at hplace
    rcases hplace with hplace | hplace <;> cases hplace

/-- It stays of no use. -/
theorem Staffed.dismissed_move (hs : Staffed place ws p) (hm : Move p q turns)
    (hx : p.workers.get? worker = some x) (hd : Dismissed x) :
    ∃ y, q.workers.get? worker = some y ∧ Dismissed y := by
  have hplace := hs.place_of_dismissed hx hd
  have hother {w : Nat} {y z : Worker} (hw : p.workers.get? w = some z) (hz : ¬ Dismissed z)
      (hq : q.workers = p.workers.put w y) : ∃ y, q.workers.get? worker = some y ∧ Dismissed y := by
    refine ⟨x, ?_, hd⟩
    rw [hq, Table.get?_put, if_neg, hx]
    rintro rfl
    rw [hx] at hw
    exact hz (Option.some.inj hw ▸ hd)
  cases hm with
  | still crew holding => exact ⟨x, crew.workers ▸ hx, hd⟩
  | reuse ticket w rest up free idle crew before holding => exact ⟨x, crew.workers ▸ hx, hd⟩
  | miss up free idle crew holding => exact ⟨x, crew.workers ▸ hx, hd⟩
  | start ticket up free idle crew before holding =>
    refine ⟨x, ?_, hd⟩
    rw [crew.workers, Table.get?_put, if_neg, hx]
    rintro rfl
    rw [(hs.unborn _).mp (Nat.le_refl _)] at hplace
    rcases hplace with hplace | hplace <;> cases hplace
  | handOver ticket w y given found alive crew holding =>
    refine hother found ?_ crew.workers
    rw [hs.worker_given given] at found
    cases found
    rintro (hin | hstate)
    · cases hin
    · cases hstate
  | lose ticket w given gone crew holding => exact ⟨x, crew.workers ▸ hx, hd⟩
  | work w y y' found works crew holding =>
    by_cases hw : worker = w
    · subst hw
      rw [hx] at found
      cases found
      refine ⟨y', by rw [crew.workers, Table.get?_put, if_pos rfl], ?_⟩
      cases works with
      | run ticket inbox =>
        exact absurd (.inl List.mem_cons_self) ((hs.free_of_dismissed hx hd).1 ticket)
      | stop inbox => exact .inr rfl
      | finish inbox ticket => exact absurd (.inr rfl) ((hs.free_of_dismissed hx hd).1 ticket)
    · exact ⟨x, by rw [crew.workers, Table.get?_put, if_neg hw, hx], hd⟩
  | keep w inbox found up room crew holding =>
    refine hother found ?_ crew.workers
    obtain ⟨-, rfl⟩ := Place.eq_returning ((hs.worker w).symm.trans found)
    rintro (hin | hstate)
    · cases hin
    · cases hstate
  | dismiss w inbox found crew holding =>
    refine hother found ?_ crew.workers
    obtain ⟨-, rfl⟩ := Place.eq_returning ((hs.worker w).symm.trans found)
    rintro (hin | hstate)
    · cases hin
    · cases hstate
  | shutDown up crew holding =>
    refine ⟨x, ?_, hd⟩
    rw [crew.workers, Staffed.get?_sendStops hs.idle_distinct, if_neg, hx]
    intro hin
    rw [(hs.idle worker).mp hin] at hplace
    rcases hplace with hplace | hplace <;> cases hplace

theorem Booked.dismissed {later : List Turn} {actions : List (Action τ α)} (h : Booked turns p)
    (hx : p.workers.get? worker = some x) (hd : Dismissed x)
    (hrun : p.run actions = some (later, q)) :
    ∃ y, q.workers.get? worker = some y ∧ Dismissed y ∧ (∀ t, ¬ y.Carries t) ∧
      ∀ t, q.holding? t ≠ some worker := by
  induction actions generalizing p turns later x with
  | nil =>
    cases hrun
    obtain ⟨place, hs⟩ := h.staffed
    exact ⟨x, hx, hd, hs.free_of_dismissed hx hd⟩
  | cons a actions ih =>
    obtain ⟨r, rest, hr, hrest, -⟩ := run_cons hrun
    obtain ⟨place, hs⟩ := h.staffed
    obtain ⟨y, hy, hd'⟩ := hs.dismissed_move (move_perform h.ticketed hr).1 hx hd
    exact ih (h.perform hr).1 hy hd' hrest

end

/-! ## workers that are of use again -/

theorem get?_of_callState {s : CallState} (h : p.callState? ticket = some s) :
    ∃ task, p.calls.get? ticket = some ⟨task, s⟩ := by
  obtain ⟨⟨task, state⟩, hcall, rfl⟩ := Option.map_eq_some_iff.mp h
  exact ⟨task, hcall⟩

theorem callState?_of_get? {task : τ} {s : CallState}
    (h : p.calls.get? ticket = some ⟨task, s⟩) : p.callState? ticket = some s := by
  rw [callState?, h]
  rfl

theorem mem_callsIn {s : CallState} : ticket ∈ p.callsIn s ↔ p.callState? ticket = some s := by
  rw [callsIn, List.mem_mergeSort, List.mem_map]
  constructor
  · rintro ⟨⟨t, task, state⟩, hmem, rfl⟩
    obtain ⟨hentry, hs⟩ := List.mem_filter.mp hmem
    rw [← of_decide_eq_true hs]
    exact callState?_of_get? (Table.get?_of_mem hentry)
  · intro hcall
    obtain ⟨task, hcall⟩ := get?_of_callState hcall
    refine ⟨(ticket, ⟨task, s⟩), List.mem_filter.mpr ⟨Table.mem_of_find hcall, ?_⟩, rfl⟩
    exact decide_eq_true rfl

/-- Somebody can be notified, or nobody sleeps. -/
theorem exists_notifyOne (p : Pool τ α) : ∃ chosen q, p.notifyOne chosen = some q := by
  cases hasleep : p.asleep with
  | nil => exact ⟨none, p, by rw [notifyOne, hasleep]; rfl⟩
  | cons t ts =>
    obtain ⟨task, hcall⟩ := get?_of_callState
      (mem_callsIn.mp (hasleep ▸ List.mem_cons_self : t ∈ p.asleep))
    exact ⟨some t, _, by rw [notifyOne, hcall]⟩

/-- The worker can be given back. If it is kept, it runs the task of the very next submission. -/
def Usable (worker : Nat) (p : Pool τ α) : Prop :=
  ∃ chosen q, p.perform (.giveBack worker chosen) = some q ∧
    (p.down = false → p.idle.length < p.settings.maxIdle → ∀ task blocking hindrance, ∃ turns r,
      q.run [.submit task none blocking hindrance, .handOver q.nextTicket none] = some (turns, r) ∧
        r.callState? q.nextTicket = some (.answered (.dispatched worker)))

theorem get?_submit_idle {rest : List Nat} (hup : p.down = false)
    (hfree : p.active < p.settings.maxActive) (hidle : p.idle = worker :: rest) (task : τ)
    (blocking : Bool) (hindrance : Option String) :
    (p.submit task none blocking hindrance).2.calls.get? p.nextTicket =
      some ⟨task, .holding worker⟩ := by
  rw [submit, attempt, if_neg (by rw [hup]; exact Bool.false_ne_true), if_pos hfree,
    acquire_idle (p := { p with nextTicket := p.nextTicket + 1 }) hidle]
  exact (Table.get?_put _ _ _ _).trans (if_pos rfl)

theorem Booked.usable {turns : List Turn} {inbox : List Command} (h : Booked turns p)
    (hfound : p.workers.get? worker = some ⟨inbox, .returning⟩) : Usable worker p := by
  obtain ⟨chosen, q, hnotify⟩ := exists_notifyOne
    (if !p.down && p.idle.length < p.settings.maxIdle then
      { p with
        active := p.active - 1
        idle := worker :: p.idle
        workers := p.workers.put worker ⟨inbox, .waiting⟩ }
    else
      { p with active := p.active - 1, workers := p.workers.put worker ⟨[], .ended⟩ } : Pool τ α)
  have hperform : p.perform (.giveBack worker chosen) = some q := by
    rw [Pool.perform, giveBack, hfound]
    exact hnotify
  refine ⟨chosen, q, hperform, fun hup hroom task blocking hindrance => ?_⟩
  obtain ⟨hq, hbalance⟩ := h.perform hperform
  rw [if_pos (by rw [hup]; exact decide_eq_true hroom)] at hnotify
  have hcrew := crew_of_staff (notifyOne_some hnotify).1
  have hfree : q.active < q.settings.maxActive := by
    have hle := h.within.active_le
    rw [hcrew.settings]
    exact Nat.lt_of_lt_of_le (Nat.lt_of_succ_le (Nat.le_of_eq hbalance)) hle
  have hcall := get?_submit_idle (hcrew.down.trans hup) hfree hcrew.idle task blocking
    hindrance
  have hsubmit : q.perform (.submit task none blocking hindrance) =
      some (q.submit task none blocking hindrance).2 := rfl
  obtain ⟨place, hs⟩ := (hq.perform hsubmit).1.staffed
  exact ⟨_, _, run_of_perform hsubmit (run_of_perform (handOver_eq hs hcall) rfl),
    callState?_setCall _ _ _ _⟩

/-! ## runs -/

/-- what has happened to each submission in a run -/
def chronicle (p : Pool τ α) (actions : List (Action τ α)) : Nat → List (Milestone τ α) :=
  noted (fun p q a record ticket => record ticket ++ p.milestones q ticket a) p (fun _ => [])
    actions

/-- A pool in which every submission is treated as it should be. -/
structure Orderly (record : Nat → List (Milestone τ α)) (p : Pool τ α) : Prop where
  /-- whatever has happened to a submission is one of these stories -/
  fate : ∀ ticket, Fate p ticket (record ticket)
  /-- a job that has not ended can always be brought to its end by its worker alone -/
  completable : ∀ ticket task s outcome, p.standing? ticket = some (task, s) →
    s.isPending = true → ∃ worker actions turns q,
      (actions = [.take worker, .finish worker outcome] ∨ actions = [.finish worker outcome]) ∧
      p.run actions = some (turns, q) ∧ q.standing? ticket = some (task, .finished outcome)
  /-- no step leads a job back -/
  forward : ∀ a q ticket task s, p.perform a = some q → p.standing? ticket = some (task, s) →
    ∃ s', q.standing? ticket = some (task, s') ∧ (s' = s ∨ s.Next s')
  /-- whoever a submission holds waits for its task -/
  ready : ∀ ticket worker, p.holding? ticket = some worker →
    p.workers.get? worker = some ⟨[], .waiting⟩
  never_lost : ∀ ticket worker,
    p.callState? ticket ≠ some (.answered (.refused (.executorLost worker)))
  /-- who was told to stop or has stopped gets no task, from then on -/
  dismissed : ∀ worker x actions turns q, p.workers.get? worker = some x → Dismissed x →
    p.run actions = some (turns, q) → ∃ y, q.workers.get? worker = some y ∧ Dismissed y ∧
      (∀ t, ¬ y.Carries t) ∧ ∀ t, q.holding? t ≠ some worker
  /-- a panic makes no worker useless, nor does any other outcome -/
  usable : ∀ worker ticket outcome, p.workerState? worker = some (.running ticket) →
    ∃ q, p.perform (.finish worker outcome) = some q ∧ Usable worker q

theorem Fate.never_lost {ms : List (Milestone τ α)} (h : Fate p ticket ms) :
    p.callState? ticket ≠ some (.answered (.refused (.executorLost worker))) := by
  rw [callState?]
  intro hlost
  obtain ⟨⟨task', s'⟩, hcall', rfl⟩ := Option.map_eq_some_iff.mp hlost
  cases h with
  | unknown call job carried =>
    rw [call] at hcall'
    cases hcall'
  | pending task s call waits job carried =>
    rw [call] at hcall'
    cases hcall'
    cases waits
  | refused task r call refusal job carried =>
    rw [call] at hcall'
    cases hcall'
    cases refusal
  | dispatched task w s work call job worked carried =>
    rw [call] at hcall'
    cases hcall'

theorem Booked.orderly {turns : List Turn} {record : Nat → List (Milestone τ α)}
    (h : Booked turns p) (hfate : ∀ ticket, Fate p ticket (record ticket)) :
    Orderly record p where
  fate := hfate
  completable ticket task s outcome hs hpending := (hfate ticket).completable hs hpending outcome
  forward a q ticket task s hq hs := (hfate ticket).forward (affair_perform h hq ticket) hs
  ready ticket worker hheld := by
    obtain ⟨place, hs⟩ := h.staffed
    exact hs.worker_given hheld
  never_lost ticket worker := (hfate ticket).never_lost
  dismissed worker x actions turns q hx hd hrun := h.dismissed hx hd hrun
  usable worker ticket outcome hrunning := by
    obtain ⟨⟨inbox, s⟩, hfound, rfl⟩ := Option.map_eq_some_iff.mp hrunning
    have hperform : p.perform (.finish worker outcome) =
        some (({ p with workers := p.workers.put worker ⟨inbox, .returning⟩ } :
          Pool τ α).setJob ticket (Job.conclude outcome)) := by
      rw [Pool.perform, finish, hfound]
    exact ⟨_, hperform,
      (h.perform hperform).1.usable ((get?_setJob_put rfl worker).trans (if_pos rfl))⟩

/-- Whatever submissions, workers and the user of a pool do in whichever order: a submission is
turned away and nothing comes of it, or its task is run once, by one worker, and the outcome of this
run is what the first one to ask for it gets. -/
theorem orderly_of_run {settings : PoolSettings} {actions : List (Action τ α)}
    {turns : List Turn} (hrun : (empty settings : Pool τ α).run actions = some (turns, q)) :
    Orderly ((empty settings).chronicle actions) q := by
  have hbooked := ((booked_empty settings).run hrun).1
  refine hbooked.orderly (Booked.noted
    (I := fun (record : Nat → List (Milestone τ α)) p => ∀ ticket, Fate p ticket (record ticket))
    ?_ (booked_empty settings) (fate_empty settings) hrun)
  intro turns p q a record hp hfate hq ticket
  exact (hfate ticket).step (affair_perform hp hq ticket)

/-- Two submissions have a worker each when the pool is shut down, and hand their tasks over all the
same. A third one comes too late. The first task panics, the second one has a value, and somebody
asks for it twice. -/
def lastOrders : List (Action Nat Nat) :=
  [.submit 7 none false none, .submit 8 none false none, .shutDown, .handOver 0 none,
    .submit 9 none true none, .take 0, .handOver 1 none, .finish 0 (.panicked none), .take 1,
    .giveBack 0 none, .finish 1 (.value 16), .collect 1, .collect 1, .collect 0, .giveBack 1 none]

theorem orderly_of_run_lastOrders :
    ∃ turns q,
      run (empty ⟨"pool", 2, 1⟩) lastOrders = some (turns, q) ∧
      chronicle (empty ⟨"pool", 2, 1⟩) lastOrders 0 =
        [.submitted 7, .answered (.dispatched 0), .began 0 (some 7),
          .ended 0 (some 7) (.panicked none), .collected (.error (.panicked none))] ∧
      chronicle (empty ⟨"pool", 2, 1⟩) lastOrders 1 =
        [.submitted 8, .answered (.dispatched 1), .began 1 (some 8),
          .ended 1 (some 8) (.value 16), .collected (.ok 16),
          .collected (.error .alreadyCollected)] ∧
      chronicle (empty ⟨"pool", 2, 1⟩) lastOrders 2 =
        [.submitted 9, .answered (.refused .shutDown)] ∧
      Orderly (chronicle (empty ⟨"pool", 2, 1⟩) lastOrders) q := by
  have hrun : (run (empty ⟨"pool", 2, 1⟩) lastOrders).isSome = true := by decide +kernel
  obtain ⟨⟨turns, q⟩, hrun⟩ := Option.isSome_iff_exists.mp hrun
  exact ⟨turns, q, hrun, by decide +kernel, by decide +kernel, by decide +kernel,
    orderly_of_run hrun⟩

end Pool

end BundleLink
