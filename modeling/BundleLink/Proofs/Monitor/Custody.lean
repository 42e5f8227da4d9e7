import BundleLink.Proofs.Monitor.Steps

/-!
# Who holds a claim

The claim of a link that the monitor looks after is with the scanner until it submits the task of
receiving, and with the task from then on, until the task is refused or has ended.

* `Pool.isPending`     a job has not ended;
* `Pool.Manned`        what is known of the pool at any time;
* `Monitor.Custody`    each claim is where it belongs, and nobody who should have one goes without;
* `Monitor.Secure`     pool, claims and flags are in order;
* `Secure.follow`      the scanner has been told something about its submission;
* `Secure.step`        each step keeps all of this.
-/

namespace BundleLink

/-! ## jobs that have not ended -/

namespace Job

variable {τ α : Type} (job : Job τ α)

theorem isPending_begin : job.begin.state.isPending = job.state.isPending := by
  rw [begin]
  split
  · rename_i hqueued
    rw [hqueued]
    rfl
  · rfl

theorem isPending_conclude (o : TaskOutcome α) : (job.conclude o).state.isPending = false := by
  by_cases hpending : job.state.isPending = true
  · rw [job.state_conclude o hpending]
    rfl
  · have hstate : (job.conclude o).state = job.state := by
      rw [conclude]
      cases o.isValue with
      | false => exact congrArg state (if_neg hpending)
      | true =>
        rw [if_pos rfl]
        exact (congrArg state (if_neg hpending)).trans rfl
    rw [hstate]
    exact Bool.eq_false_iff.mpr hpending

end Job

namespace Pool

variable {τ α : Type} {p q : Pool τ α} {ticket worker : Nat} {settings : PoolSettings}

/-- the job is queued or runs -/
def isPending (p : Pool τ α) (ticket : Nat) : Bool :=
  (p.standing? ticket).any fun e => e.2.isPending

theorem isPending_of_standing {task : τ} {s : JobState α}
    (h : p.standing? ticket = some (task, s)) : p.isPending ticket = s.isPending := by
  rw [isPending, h]
  rfl

theorem isPending_congr (h : q.standing? ticket = p.standing? ticket) :
    q.isPending ticket = p.isPending ticket := by
  rw [isPending, isPending, h]

theorem isPending_setJob (p : Pool τ α) (ticket : Nat) (f : Job τ α → Job τ α) (other : Nat) :
    (p.setJob ticket f).isPending other =
      if other = ticket then (p.jobs.get? ticket).any fun job => (f job).state.isPending
      else p.isPending other := by
  rw [isPending, standing?_setJob]
  split
  · rw [Option.any_map]
  · rfl

theorem isPending_take (h : p.take worker = some q) (t : Nat) :
    q.calls = p.calls ∧ q.isPending t = p.isPending t := by
  rw [take] at h
  split at h
  · rename_i ticket inbox hfound
    cases h
    refine ⟨calls_setJob _ _ _, ?_⟩
    rw [isPending_setJob]
    split
    · rename_i heq
      subst heq
      rw [isPending, standing?, Option.any_map]
      exact congrArg (Option.any · _) (funext Job.isPending_begin)
    · rfl
  · cases h
    exact ⟨rfl, rfl⟩
  · cases h

/-- A running task can end in any way. -/
theorem exists_finish {inbox : List Command}
    (hfound : p.workers.get? worker = some ⟨inbox, .running ticket⟩) (outcome : TaskOutcome α) :
    ∃ q, p.finish worker outcome = some q ∧ q.calls = p.calls ∧
      ∀ t, q.isPending t = if t = ticket then false else p.isPending t := by
  refine ⟨setJob ticket (Job.conclude outcome)
    { p with workers := p.workers.put worker ⟨inbox, .returning⟩ }, by rw [finish, hfound],
    calls_setJob _ _ _, fun t => ?_⟩
  rw [isPending_setJob]
  split
  · cases p.jobs.get? ticket with
    | none => rfl
    | some job => exact job.isPending_conclude outcome
  · rfl

/-- At any time: workers are in their places, each submission has its story, and the settings are
those of the start. -/
structure Manned (settings : PoolSettings) (p : Pool τ α) : Prop where
  booked : ∃ turns, Booked turns p
  fate : ∀ ticket, ∃ ms, Fate p ticket ms
  settings_eq : p.settings = settings

namespace Manned

theorem perform (h : Manned settings p) {a : Action τ α} (hq : p.perform a = some q) :
    Manned settings q := by
  obtain ⟨turns, hbooked⟩ := h.booked
  refine ⟨⟨_, (hbooked.perform hq).1⟩, fun ticket => ?_, ?_⟩
  · obtain ⟨ms, hfate⟩ := h.fate ticket
    exact ⟨_, hfate.step (affair_perform hbooked hq ticket)⟩
  · exact (move_perform hbooked.ticketed hq).1.settings.trans h.settings_eq

/-- the call of a job -/
theorem dispatched (h : Manned settings p) (hpending : p.isPending ticket = true) :
    ∃ task w, p.calls.get? ticket = some ⟨task, .answered (.dispatched w)⟩ := by
  obtain ⟨⟨task, s⟩, hs⟩ : ∃ e, p.standing? ticket = some e := by
    rw [isPending] at hpending
    cases hs : p.standing? ticket with
    | none =>
      rw [hs] at hpending
      cases hpending
    | some e => exact ⟨e, rfl⟩
  obtain ⟨ms, hfate⟩ := h.fate ticket
  obtain ⟨w, work, -, hcall, -⟩ := hfate.of_standing hs
  exact ⟨task, w, hcall⟩

/-- A worker that runs a task runs a job that has not ended. -/
theorem running (h : Manned settings p)
    (hrunning : p.workerState? worker = some (.running ticket)) :
    p.workers.get? worker = some ⟨[], .running ticket⟩ ∧ p.isPending ticket = true ∧
      CarriedBy p ticket (some (worker, ⟨[], .running ticket⟩)) := by
  obtain ⟨⟨inbox, s⟩, hfound, rfl⟩ := Option.map_eq_some_iff.mp hrunning
  obtain ⟨ms, hfate⟩ := h.fate ticket
  obtain ⟨task, s, work, -, -, hs, hworker, -, hcarried⟩ := hfate.of_carried hfound (.inr rfl)
  cases s <;> cases hworker
  exact ⟨hfound, isPending_of_standing hs, hcarried⟩

end Manned

end Pool

/-! ## custody -/

namespace Monitor

variable {τ : Type} {m m' : Monitor τ} {ticket link : Nat} {settings : PoolSettings}

/-- The submission with the ticket was not answered yet, or its task was taken and has not ended. -/
def Underway (m : Monitor τ) (ticket : Nat) : Prop :=
  m.scanner = .submitting ticket ∨ m.pool.isPending ticket = true

/-- Each claim is where it belongs. -/
structure Custody (m : Monitor τ) : Prop where
  scanner : ∀ id, ⟨id, .scanner⟩ ∈ m.claims ↔ m.scanner = .holding id
  waits : ∀ t, m.scanner = .submitting t →
    ∃ task s, m.pool.calls.get? t = some ⟨task, s⟩ ∧ s.reply? = none
  held : ∀ id t, ⟨id, .task t⟩ ∈ m.claims → m.linkOf t = some id ∧ m.Underway t
  kept : ∀ id t, m.Underway t → m.linkOf t = some id → ⟨id, .task t⟩ ∈ m.claims

structure Secure (settings : PoolSettings) (m : Monitor τ) : Prop where
  pool : Pool.Manned settings m.pool
  ledger : Ledger m.network m.links
  custody : Custody m

theorem linkOf_of_get? {task : ReceiveTask} {s : CallState}
    (h : m.pool.calls.get? ticket = some ⟨task, s⟩) : m.linkOf ticket = some task.link := by
  rw [linkOf, h]
  rfl

theorem get?_of_linkOf (h : m.linkOf ticket = some link) :
    ∃ s, m.pool.calls.get? ticket = some ⟨⟨link⟩, s⟩ := by
  obtain ⟨⟨⟨id⟩, s⟩, hcall, rfl⟩ := Option.map_eq_some_iff.mp h
  exact ⟨s, hcall⟩

theorem linkOf_congr (h : m'.pool.calls.get? ticket = m.pool.calls.get? ticket) :
    m'.linkOf ticket = m.linkOf ticket := by
  rw [linkOf, linkOf, h]

namespace Secure

/-- whoever is under way receives on some link -/
theorem exists_link (h : Secure settings m) (hunderway : m.Underway ticket) :
    ∃ id, m.linkOf ticket = some id := by
  rcases hunderway with hwaits | hpending
  · obtain ⟨task, s, hcall, -⟩ := h.custody.waits ticket hwaits
    exact ⟨_, linkOf_of_get? hcall⟩
  · obtain ⟨task, w, hcall⟩ := h.pool.dispatched hpending
    exact ⟨_, linkOf_of_get? hcall⟩

/-! ## steps that leave the pool alone -/

/-- Claims of others come and go. -/
theorem of_callers (h : Secure settings m) (hledger : Ledger m'.network m'.links)
    (hpool : m'.pool = m.pool) (hscanner : m'.scanner = m.scanner)
    (hclaims : ∀ id holder, holder ≠ .caller →
      (⟨id, holder⟩ ∈ m'.claims ↔ ⟨id, holder⟩ ∈ m.claims)) : Secure settings m' := by
  obtain ⟨hmanned, -, hcustody⟩ := h
  have hlink (t : Nat) : m'.linkOf t = m.linkOf t := linkOf_congr (by rw [hpool])
  have hunderway (t : Nat) : m'.Underway t ↔ m.Underway t := by
    rw [Underway, Underway, hscanner, hpool]
  refine ⟨hpool ▸ hmanned, hledger, fun id => ?_, fun t ht => ?_, fun id t ht => ?_,
    fun id t ht hid => ?_⟩
  · rw [hclaims id .scanner nofun, hscanner, hcustody.scanner]
  · rw [hpool]
    exact hcustody.waits t (hscanner ▸ ht)
  · rw [hclaims id (.task t) nofun] at ht
    rw [hlink, hunderway]
    exact hcustody.held id t ht
  · rw [hclaims id (.task t) nofun]
    exact hcustody.kept id t ((hunderway t).mp ht) (hlink t ▸ hid)

theorem claim (h : Secure settings m) (hm : m.claim link = some m') : Secure settings m' := by
  obtain ⟨network, rfl, hledger⟩ := h.ledger.grant hm
  refine h.of_callers hledger rfl rfl fun id holder hholder => ?_
  rw [List.mem_cons]
  exact ⟨fun hmem => hmem.resolve_left fun heq => hholder (Claim.mk.inj heq).2, .inr⟩

theorem unclaim (h : Secure settings m) (hm : m.unclaim link = some m') : Secure settings m' := by
  rw [Monitor.unclaim] at hm
  split at hm
  · rename_i hmem
    cases hm
    obtain ⟨network, heq, hledger, -⟩ := h.ledger.drop hmem
    rw [heq]
    refine h.of_callers hledger rfl rfl fun id holder hholder => ?_
    rw [h.ledger.mem_erase]
    exact ⟨And.right, fun hmem => ⟨fun heq => hholder (Claim.mk.inj heq).2, hmem⟩⟩
  · cases hm

theorem use [Channel τ] (h : Secure settings m) {network : Network τ}
    (hu : m.network.Use network) : Secure settings { m with network := network } :=
  h.of_callers (h.ledger.use hu) rfl rfl fun _ _ _ => Iff.rfl

/-- The scanner stops, or looks further. -/
theorem rest (h : Secure settings m) (hlooking : m.scanner = .looking) {scanner : Scanner}
    (hscanner : scanner = .looking ∨ scanner = .stopped) (cursor : Nat) :
    Secure settings { m with scanner := scanner, cursor := cursor } := by
  obtain ⟨hmanned, hledger, hcustody⟩ := h
  have hidle (t : Nat) : scanner ≠ .submitting t ∧ m.scanner ≠ .submitting t := by
    rw [hlooking]
    rcases hscanner with rfl | rfl <;> exact ⟨nofun, nofun⟩
  have hunderway (t : Nat) : Underway { m with scanner := scanner, cursor := cursor } t ↔
      m.Underway t := or_congr_left (iff_of_false (hidle t).1 (hidle t).2)
  refine ⟨hmanned, hledger, fun id => ?_, fun t ht => absurd ht (hidle t).1, fun id t ht => ?_,
    fun id t ht hid => ?_⟩
  · rw [hcustody.scanner, hlooking]
    rcases hscanner with rfl | rfl <;> exact iff_of_false nofun nofun
  · rw [hunderway]
    exact hcustody.held id t ht
  · exact hcustody.kept id t ((hunderway t).mp ht) hid

theorem seize (h : Secure settings m) (hlooking : m.scanner = .looking)
    (hm : m.grant link .scanner = some m') :
    Secure settings { m' with scanner := .holding link } := by
  obtain ⟨network, rfl, hledger⟩ := h.ledger.grant hm
  obtain ⟨hmanned, -, hcustody⟩ := h
  have hclaims (id t : Nat) : ⟨id, .task t⟩ ∈ (⟨link, .scanner⟩ : Claim) :: m.claims ↔
      ⟨id, .task t⟩ ∈ m.claims := by
    rw [List.mem_cons]
    exact ⟨fun hmem => hmem.resolve_left nofun, .inr⟩
  have hunderway (t : Nat) : Underway { m with
      network := network
      claims := ⟨link, .scanner⟩ :: m.claims
      scanner := .holding link } t ↔ m.Underway t := by
    refine or_congr_left (iff_of_false nofun ?_)
    rw [hlooking]
    nofun
  refine ⟨hmanned, hledger, fun id => ?_, nofun, fun id t ht => ?_,
    fun id t ht hid => ?_⟩
  · rw [List.mem_cons, hcustody.scanner, hlooking]
    refine ⟨fun hmem => hmem.elim (fun heq => ?_) nofun, fun heq => ?_⟩
    · rw [(Claim.mk.inj heq).1]
    · rw [Scanner.holding.inj heq]
      exact .inl rfl
  · rw [hunderway]
    exact hcustody.held id t ((hclaims id t).mp ht)
  · exact (hclaims id t).mpr (hcustody.kept id t ((hunderway t).mp ht) hid)

theorem scan (h : Secure settings m) (hm : m.scan = some m') : Secure settings m' := by
  rw [Monitor.scan] at hm
  split at hm
  · rename_i hlooking
    split at hm
    · cases hm
      exact h.rest hlooking (.inl hlooking) 0
    · dsimp only at hm
      split at hm
      · rename_i hgrant
        cases hm
        exact seize (h.rest hlooking (.inl hlooking) (m.cursor + 1)) hlooking hgrant
      · cases hm
        exact h.rest hlooking (.inl hlooking) (m.cursor + 1)
  · cases hm

/-! ## steps of the pool alone -/

/-- The pool makes a step in which no job ends, and submissions that wait go on waiting. -/
theorem of_pool (h : Secure settings m) {pool : Pool ReceiveTask Unit}
    (hmanned : Pool.Manned settings pool)
    (hpending : ∀ t, pool.isPending t = m.pool.isPending t)
    (hcalls : ∀ t task s, m.pool.calls.get? t = some ⟨task, s⟩ →
      ∃ s', pool.calls.get? t = some ⟨task, s'⟩ ∧ (s.reply? = none → s'.reply? = none)) :
    Secure settings { m with pool := pool } := by
  have hunderway (t : Nat) : Underway { m with pool := pool } t ↔ m.Underway t :=
    or_congr_right (by rw [hpending])
  have hlink {id t : Nat} (hid : m.linkOf t = some id) :
      linkOf { m with pool := pool } t = some id := by
    obtain ⟨s, hcall⟩ := get?_of_linkOf hid
    obtain ⟨s', hcall', -⟩ := hcalls t _ s hcall
    exact linkOf_of_get? (m := { m with pool := pool }) hcall'
  refine ⟨hmanned, h.ledger, h.custody.scanner, fun t ht => ?_, fun id t ht => ?_,
    fun id t ht hid => ?_⟩
  · obtain ⟨task, s, hcall, hs⟩ := h.custody.waits t ht
    obtain ⟨s', hcall', hs'⟩ := hcalls t task s hcall
    exact ⟨task, s', hcall', hs' hs⟩
  · obtain ⟨hid, ht⟩ := h.custody.held id t ht
    exact ⟨hlink hid, (hunderway t).mpr ht⟩
  · have hbefore := (hunderway t).mp ht
    obtain ⟨id', hid'⟩ := h.exists_link hbefore
    rw [hlink hid'] at hid
    cases hid
    exact h.custody.kept id t hbefore hid'

/-- a step that concerns no submission -/
theorem of_bystands (h : Secure settings m) {a : Pool.Action ReceiveTask Unit}
    {pool : Pool ReceiveTask Unit} (hpool : m.pool.perform a = some pool)
    (hsame : ∀ t, Pool.Bystands m.pool pool t) : Secure settings { m with pool := pool } := by
  refine h.of_pool (h.pool.perform hpool) (fun t => Pool.isPending_congr (hsame t).job)
    fun t task s hcall => ?_
  rcases (hsame t).call with hcall' | ⟨task', hasleep, hnotified⟩
  · exact ⟨s, hcall'.trans hcall, id⟩
  · rw [hcall] at hasleep
    cases hasleep
    exact ⟨.notified, hnotified, fun _ => rfl⟩

theorem take (h : Secure settings m) {worker : Nat} (hm : m.take worker = some m') :
    Secure settings m' := by
  obtain ⟨pool, hpool, rfl⟩ := Option.map_eq_some_iff.mp hm
  have hsame (t : Nat) := Pool.isPending_take hpool t
  exact h.of_pool (h.pool.perform (a := .take worker) hpool) (fun t => (hsame t).2)
    fun t task s hcall => ⟨s, (hsame t).1 ▸ hcall, id⟩

/-! ## steps of a submission -/

/-- The scanner is about to hear what became of its submission with the ticket, for receiving on the
link: the claim is with the submission. -/
structure Entrusted (ticket link : Nat) (m : Monitor τ) : Prop where
  linkOf : m.linkOf ticket = some link
  scanner : ∀ id, ⟨id, .scanner⟩ ∉ m.claims
  queued : ∀ w, m.pool.callState? ticket = some (.answered (.dispatched w)) →
    m.pool.isPending ticket = true
  held : ∀ id t, ⟨id, .task t⟩ ∈ m.claims →
    m.linkOf t = some id ∧ (t = ticket ∨ m.pool.isPending t = true)
  kept : ∀ id t, t = ticket ∨ m.pool.isPending t = true → m.linkOf t = some id →
    ⟨id, .task t⟩ ∈ m.claims

/-- It was refused. -/
theorem of_refused (hmanned : Pool.Manned settings m.pool) (hledger : Ledger m.network m.links)
    (he : Entrusted ticket link m) (hpending : m.pool.isPending ticket = false) {scanner : Scanner}
    (hscanner : scanner = .looking ∨ scanner = .stopped) :
    Secure settings { m.drop link (.task ticket) with scanner := scanner } := by
  obtain ⟨hlink, hnone, -, hheld, hkept⟩ := he
  have hmem := hkept link ticket (.inl rfl) hlink
  obtain ⟨network, heq, hledger', -⟩ := hledger.drop hmem
  have hidle (t : Nat) : scanner ≠ .submitting t := by
    rcases hscanner with rfl | rfl <;> nofun
  rw [heq]
  refine ⟨hmanned, hledger', fun id => ?_, fun t ht => absurd ht (hidle t), fun id t ht => ?_,
    fun id t ht hid => hledger.mem_erase.mpr ⟨?_, ?_⟩⟩
  · refine iff_of_false (fun hin => hnone id (List.mem_of_mem_erase hin)) ?_
    rcases hscanner with rfl | rfl <;> nofun
  · obtain ⟨hne, hin⟩ := hledger.mem_erase.mp ht
    obtain ⟨hid, ht⟩ := hheld id t hin
    refine ⟨hid, .inr (ht.resolve_left ?_)⟩
    rintro rfl
    rw [hlink] at hid
    cases hid
    exact hne rfl
  · rintro heq
    cases heq
    rw [Underway, hpending] at ht
    exact ht.elim (hidle ticket) nofun
  · exact hkept id t (.inr (ht.resolve_left (hidle t))) hid

/-- The scanner acts on what it hears. -/
theorem follow (hmanned : Pool.Manned settings m.pool) (hledger : Ledger m.network m.links)
    (he : Entrusted ticket link m) : Secure settings (m.follow ticket link) := by
  obtain ⟨s, hcall⟩ := get?_of_linkOf he.linkOf
  have hstate := Pool.callState?_of_get? hcall
  obtain ⟨ms, hfate⟩ := hmanned.fate ticket
  rw [Monitor.follow, hstate]
  cases hfate with
  | unknown call job carried =>
    rw [call] at hcall
    cases hcall
  | pending task s' call waits job carried =>
    rw [call] at hcall
    cases hcall
    have hsubmitting : Secure settings { m with scanner := .submitting ticket } := by
      refine ⟨hmanned, hledger, fun id => iff_of_false (he.scanner id) nofun, fun t ht => ?_,
        fun id t ht => ?_, fun id t ht hid => he.kept id t (ht.imp_left ?_) hid⟩
      · cases ht
        exact ⟨_, s, call, waits⟩
      · obtain ⟨hid, ht⟩ := he.held id t ht
        exact ⟨hid, ht.imp_left fun heq => by rw [heq]⟩
      · exact fun heq => (Scanner.submitting.inj heq).symm
    cases s with
    | answered r => cases waits
    | asleep => exact hsubmitting
    | notified => exact hsubmitting
    | holding w => exact hsubmitting
  | refused task r call refusal job carried =>
    rw [call] at hcall
    cases hcall
    have hpending : m.pool.isPending ticket = false := by
      rw [Pool.isPending, job]
      rfl
    have hrefused {scanner : Scanner} (hscanner : scanner = .looking ∨ scanner = .stopped) :=
      of_refused hmanned hledger he hpending hscanner
    rcases r with w | _ | e
    · cases refusal
    · exact hrefused (.inl rfl)
    · cases e with
      | shutDown => exact hrefused (.inr rfl)
      | _ => exact hrefused (.inl rfl)
  | dispatched task w s' work call job worked carried =>
    rw [call] at hcall
    cases hcall
    have hpending := he.queued w hstate
    refine ⟨hmanned, hledger, fun id => iff_of_false (he.scanner id) nofun, nofun,
      fun id t ht => ?_, fun id t ht hid => he.kept id t (.inr (ht.resolve_left nofun)) hid⟩
    obtain ⟨hid, ht⟩ := he.held id t ht
    exact ⟨hid, .inr (ht.elim (fun heq => heq ▸ hpending) fun ht => ht)⟩

theorem offer (h : Secure settings m) {objection hindrance : Option String}
    (hm : m.offer objection hindrance = some m') : Secure settings m' := by
  cases hholding : m.scanner with
  | holding link =>
    rw [offer_eq hholding] at hm
    obtain ⟨turns, hbooked⟩ := h.pool.booked
    obtain ⟨place, hs⟩ := hbooked.staffed
    have hmanned := h.pool.perform (a := .submit ⟨link⟩ objection true hindrance) rfl
    obtain ⟨⟨s, hcall, hpolite⟩, hjobs, -, hothers⟩ :=
      Pool.submit_glances hs.get?_nextWorker ⟨link⟩ objection true hindrance rfl
    generalize (m.pool.submit (⟨link⟩ : ReceiveTask) objection true hindrance).2 = pool
      at hmanned hcall hjobs hothers hm
    have hmem := (h.custody.scanner link).mpr hholding
    have hpending (t : Nat) : pool.isPending t = m.pool.isPending t :=
      Pool.isPending_congr (Pool.standing?_of_jobs hjobs t)
    -- submissions from before
    have hlink {t id : Nat} (hid : m.linkOf t = some id) :
        linkOf { m with pool := pool } t = some id ∧ t ≠ m.pool.nextTicket := by
      obtain ⟨s', hcall'⟩ := get?_of_linkOf hid
      have hne : t ≠ m.pool.nextTicket := Nat.ne_of_lt (hbooked.ticketed.lt hcall')
      refine ⟨?_, hne⟩
      rcases (hothers t hne).call with hsame | ⟨task, hasleep, hnotified⟩
      · exact linkOf_of_get? (m := { m with pool := pool }) (hsame.trans hcall')
      · rw [hcall'] at hasleep
        cases hasleep
        exact linkOf_of_get? (m := { m with pool := pool }) hnotified
    have hidle (t : Nat) : m.scanner ≠ .submitting t := by
      rw [hholding]
      nofun
    cases hm
    refine follow hmanned (h.ledger.pass (m := { m with pool := pool }) hmem) ?_
    refine ⟨linkOf_of_get? (m := { m with pool := pool }) hcall, fun id hin => ?_, fun w hw => ?_,
      fun id t hin => ?_, fun id t ht hid => ?_⟩
    · obtain ⟨hne, hin⟩ := h.ledger.mem_erase.mp ((List.mem_cons.mp hin).resolve_left nofun)
      have hsame := hholding.symm.trans ((h.custody.scanner id).mp hin)
      rw [Scanner.holding.inj hsame] at hne
      exact hne rfl
    · have hanswered := (Pool.callState?_of_get? hcall).symm.trans hw
      cases hanswered
      cases hpolite _ rfl
    · rcases List.mem_cons.mp hin with heq | hin
      · cases heq
        exact ⟨linkOf_of_get? (m := { m with pool := pool }) hcall, .inl rfl⟩
      · obtain ⟨hid, ht⟩ := h.custody.held id t (h.ledger.mem_erase.mp hin).2
        exact ⟨(hlink hid).1, .inr ((hpending t).trans (ht.resolve_left (hidle t)))⟩
    · have hnew : t = m.pool.nextTicket → id = link := by
        rintro rfl
        exact Option.some.inj (hid.symm.trans (linkOf_of_get? (m := { m with pool := pool }) hcall))
      refine List.mem_cons.mpr ?_
      by_cases hsame : t = m.pool.nextTicket
      · exact .inl (by rw [hnew hsame, hsame])
      · have hunderway : m.Underway t := .inr ((hpending t).symm.trans (ht.resolve_left hsame))
        obtain ⟨id', hid'⟩ := h.exists_link hunderway
        cases (hlink hid').1.symm.trans hid
        exact .inr (h.ledger.mem_erase.mpr ⟨nofun, h.custody.kept id t hunderway hid'⟩)
  | _ =>
    rw [Monitor.offer, hholding] at hm
    cases hm

theorem submit (h : Secure settings m) {hindrance : Option String}
    (hm : m.submit hindrance = some m') : Secure settings m' := by
  cases hscanner : m.scanner with
  | holding link =>
    rw [submit_eq_offer hscanner] at hm
    exact h.offer hm
  | _ =>
    rw [Monitor.submit, hscanner] at hm
    cases hm

/-- A step of the pool concerns the submission that the scanner waits for, and no other. -/
theorem entrusted (h : Secure settings m) (hscanner : m.scanner = .submitting ticket)
    {pool : Pool ReceiveTask Unit} {s : CallState}
    (hself : pool.calls.get? ticket = some ⟨⟨link⟩, s⟩)
    (hqueued : ∀ w, s = .answered (.dispatched w) → pool.isPending ticket = true)
    (hothers : ∀ t, t ≠ ticket → pool.calls.get? t = m.pool.calls.get? t)
    (hpending : ∀ t, t ≠ ticket → pool.isPending t = m.pool.isPending t)
    (hlink : m.linkOf ticket = some link) : Entrusted ticket link { m with pool := pool } := by
  have hsame (t : Nat) : linkOf { m with pool := pool } t = m.linkOf t := by
    by_cases ht : t = ticket
    · rw [ht, hlink]
      exact linkOf_of_get? (m := { m with pool := pool }) hself
    · exact linkOf_congr (by exact hothers t ht)
  have hunderway (t : Nat) : m.Underway t ∨ t = ticket ↔ t = ticket ∨ pool.isPending t = true := by
    rw [Underway, hscanner]
    by_cases ht : t = ticket
    · exact iff_of_true (.inr ht) (.inl ht)
    · rw [hpending t ht]
      constructor
      · rintro ((heq | hpend) | heq)
        · exact .inl (Scanner.submitting.inj heq).symm
        · exact .inr hpend
        · exact .inl heq
      · rintro (heq | hpend)
        · exact .inr heq
        · exact .inl (.inr hpend)
  refine ⟨(hsame ticket).trans hlink, fun id hin => ?_, fun w hw => hqueued w ?_,
    fun id t hin => ?_, fun id t ht hid => ?_⟩
  · have hholding := hscanner.symm.trans ((h.custody.scanner id).mp hin)
    cases hholding
  · exact Option.some.inj ((Pool.callState?_of_get? hself).symm.trans hw)
  · obtain ⟨hid, ht⟩ := h.custody.held id t hin
    exact ⟨(hsame t).trans hid, (hunderway t).mp (.inl ht)⟩
  · rw [hsame] at hid
    refine h.custody.kept id t (((hunderway t).mpr ht).elim (fun ht => ht) fun heq => ?_) hid
    rw [heq]
    exact .inl hscanner

theorem wake (h : Secure settings m) {hindrance : Option String}
    (hm : m.wake hindrance = some m') : Secure settings m' := by
  rw [Monitor.wake] at hm
  split at hm
  · rename_i ticket hscanner
    obtain ⟨link, hlink, hm⟩ := Option.bind_eq_some_iff.mp hm
    obtain ⟨pool, hpool, hm⟩ := Option.bind_eq_some_iff.mp hm
    cases hm
    have hmanned := h.pool.perform (a := .wake ticket hindrance) hpool
    rw [Pool.wake] at hpool
    split at hpool
    · rename_i task hcall
      have hglance := Pool.glance_attempt m.pool ticket task true hindrance
      rw [Option.some.inj hpool] at hglance
      obtain ⟨s, hself, hpolite⟩ := hglance.call
      have htask : task = ⟨link⟩ := by
        have hid := (linkOf_of_get? hcall).symm.trans hlink
        exact congrArg ReceiveTask.mk (Option.some.inj hid)
      rw [htask] at hself
      refine follow hmanned h.ledger (h.entrusted hscanner hself (fun w hw => ?_)
        (fun t ht => hglance.others ht)
        (fun t _ => Pool.isPending_congr (Pool.standing?_of_jobs hglance.jobs t)) hlink)
      subst hw
      cases hpolite _ rfl
    · cases hpool
  · cases hm

theorem handOver (h : Secure settings m) (hm : m.handOver = some m') : Secure settings m' := by
  rw [Monitor.handOver] at hm
  split at hm
  · rename_i ticket hscanner
    obtain ⟨link, hlink, hm⟩ := Option.bind_eq_some_iff.mp hm
    obtain ⟨pool, hpool, hm⟩ := Option.bind_eq_some_iff.mp hm
    cases hm
    have hmanned := h.pool.perform (a := .handOver ticket m.pool.asleep.head?) hpool
    obtain ⟨turns, hbooked⟩ := h.pool.booked
    obtain ⟨place, hs⟩ := hbooked.staffed
    obtain ⟨task, w, hcall⟩ := Pool.exists_holding hpool
    have htask : task = ⟨link⟩ := by
      have hid := (linkOf_of_get? hcall).symm.trans hlink
      exact congrArg ReceiveTask.mk (Option.some.inj hid)
    subst htask
    rw [Pool.handOver_eq hs hcall] at hpool
    cases hpool
    have hjobs : (Pool.setCall
        { m.pool with
          workers := m.pool.workers.put w ⟨[.run ticket], .waiting⟩
          jobs := m.pool.jobs.put ticket ⟨⟨link⟩, .queued, Progress.none⟩ }
        ticket ⟨link⟩ (.answered (.dispatched w))).jobs =
          m.pool.jobs.put ticket ⟨⟨link⟩, .queued, Progress.none⟩ := rfl
    have hstanding := Pool.standing?_put hjobs
    refine follow hmanned h.ledger (h.entrusted hscanner
      ((Table.get?_put _ _ _ _).trans (if_pos rfl)) (fun _ _ => ?_)
      (fun t ht => (Table.get?_put _ _ _ _).trans (if_neg ht))
      (fun t ht => Pool.isPending_congr ((hstanding t).trans (if_neg ht))) hlink)
    exact Pool.isPending_of_standing ((hstanding ticket).trans (if_pos rfl))
  · cases hm

/-! ## the end of a task -/

theorem conclude (h : Secure settings m) {worker : Nat} {outcome : TaskOutcome Unit}
    (hm : m.conclude worker outcome = some m') : Secure settings m' := by
  rw [Monitor.conclude] at hm
  split at hm
  · rename_i ticket hrunning
    obtain ⟨link, hlink, hm⟩ := Option.bind_eq_some_iff.mp hm
    obtain ⟨pool, hpool, hm⟩ := Option.bind_eq_some_iff.mp hm
    cases hm
    obtain ⟨hfound, hpending, -⟩ := h.pool.running hrunning
    obtain ⟨pool', hpool', hcalls, hpending'⟩ := Pool.exists_finish hfound outcome
    rw [hpool] at hpool'
    cases hpool'
    have hmem := h.custody.kept link ticket (.inr hpending) hlink
    obtain ⟨network, heq, hledger, -⟩ := h.ledger.drop (m := { m with pool := pool }) hmem
    have hlink' (t : Nat) : linkOf { m with pool := pool } t = m.linkOf t :=
      linkOf_congr (by rw [hcalls])
    -- the call of the task has been answered
    have hanswered : m.scanner ≠ .submitting ticket := by
      intro hscanner
      obtain ⟨task, s, hcall, hs⟩ := h.custody.waits ticket hscanner
      obtain ⟨task', w, hcall'⟩ := h.pool.dispatched hpending
      rw [hcall] at hcall'
      cases hcall'
      cases hs
    have hunderway {t : Nat} (ht : t ≠ ticket) :
        Underway { m with pool := pool } t ↔ m.Underway t := by
      refine or_congr_right ?_
      rw [hpending', if_neg ht]
    have hdone : ¬ Underway { m with pool := pool } ticket := by
      rintro (hscanner | hpend)
      · exact hanswered hscanner
      · rw [hpending', if_pos rfl] at hpend
        cases hpend
    rw [heq]
    refine ⟨h.pool.perform (a := .finish worker outcome) hpool, hledger, fun id => ?_,
      fun t ht => ?_, fun id t hin => ?_, fun id t ht hid => ?_⟩
    · rw [h.ledger.mem_erase, h.custody.scanner]
      exact and_iff_right nofun
    · rw [hcalls]
      exact h.custody.waits t ht
    · obtain ⟨hne, hin⟩ := h.ledger.mem_erase.mp hin
      obtain ⟨hid, ht⟩ := h.custody.held id t hin
      refine ⟨(hlink' t).trans hid, (hunderway ?_).mpr ht⟩
      rintro rfl
      rw [hlink] at hid
      cases hid
      exact hne rfl
    · have hother : t ≠ ticket := by
        rintro rfl
        exact hdone ht
      refine h.ledger.mem_erase.mpr ⟨fun heq => hother (Holder.task.inj (Claim.mk.inj heq).2), ?_⟩
      exact h.custody.kept id t ((hunderway hother).mp ht) ((hlink' t).symm.trans hid)
  · cases hm

theorem finish [Channel τ] (h : Secure settings m) {worker : Nat} (hm : m.finish worker = some m') :
    Secure settings m' := by
  rw [Monitor.finish] at hm
  split at hm
  · rename_i ticket hrunning
    obtain ⟨link, hlink, hm⟩ := Option.bind_eq_some_iff.mp hm
    obtain ⟨⟨result, network⟩, hreceive, hm⟩ := Option.bind_eq_some_iff.mp hm
    obtain ⟨pool, hpool, hm⟩ := Option.bind_eq_some_iff.mp hm
    cases hm
    -- the receive itself changes no claim
    have hconclude : Monitor.conclude worker (outcomeOf result) { m with network := network } =
        some (({ m with network := network, pool := pool } : Monitor τ).drop link
          (.task ticket)) := by
      rw [Monitor.conclude]
      dsimp only
      rw [hrunning]
      exact Option.bind_eq_some_iff.mpr
        ⟨link, hlink, Option.bind_eq_some_iff.mpr ⟨pool, hpool, rfl⟩⟩
    exact (h.use (.receive hreceive)).conclude hconclude
  · cases hm

/-! ## every step -/

theorem step [Channel τ] (h : Secure settings m) (hstep : Step m m') : Secure settings m' := by
  obtain ⟨turns, hbooked⟩ := h.pool.booked
  obtain ⟨place, hs⟩ := hbooked.staffed
  cases hstep with
  | claim done => exact h.claim done
  | unclaim done => exact h.unclaim done
  | use used => exact h.use used
  | scan done => exact h.scan done
  | seize looking granted => exact h.seize looking granted
  | submit done => exact h.submit done
  | offer objection done => exact h.offer done
  | stir done => exact h.of_bystands (a := .stir _) done (Pool.bystands_stir done)
  | wake done => exact h.wake done
  | handOver done => exact h.handOver done
  | take done => exact h.take done
  | finish done => exact h.finish done
  | conclude outcome done => exact h.conclude done
  | giveBack done =>
    obtain ⟨pool, hpool, rfl⟩ := Option.map_eq_some_iff.mp done
    exact h.of_bystands (a := .giveBack _ _) hpool (Pool.bystands_giveBack hs hpool)
  | halt done =>
    rw [Monitor.halt] at done
    split at done
    · rename_i hlooking
      cases done
      exact h.rest hlooking.1 (.inr rfl) m.cursor
    · cases done
  | quit looking => exact h.rest looking (.inr rfl) m.cursor
  | shutDown => exact h.of_bystands (a := .shutDown) rfl (Pool.bystands_shutDown hs)

end Secure

end Monitor

end BundleLink
