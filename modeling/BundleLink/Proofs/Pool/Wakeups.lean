import BundleLink.Proofs.Pool.Fates

/-!
# Sleeping submissions

Workers that are given back notify one sleeping submission each, and a submission that was notified
may find that another one was faster. But as long as anybody sleeps, at least as many submissions
are on their way to look at the pool as there is room for, except for those that have looked and
for which no worker could be started. They leave room behind without anybody being notified of it,
and so a submission may sleep while there is room for it.

* `Pool.Watch`, `Pool.rouse`  the submissions that were notified and have not looked at the pool
  since, and those that are STRANDED: they looked in vain, for want of a new worker;
* `Pool.Alert`          they are enough, and nobody sleeps in a pool that is shut down;
* `Alert.perform`       each step keeps that;
* `Pool.AllBusy`        as many workers are busy as may be;
* `vigilant_of_run`     who sleeps in which states, in every run;
* `asleep_forgotten`    a submission that sleeps next to a free place.
-/

namespace BundleLink.Pool

variable {τ α : Type} {p q : Pool τ α} {ticket worker : Nat} {ts : List Nat}

/-! ## submissions in a state -/

theorem callsIn_distinct (p : Pool τ α) (s : CallState) : (p.callsIn s).Nodup :=
  (List.mergeSort_perm _ _).nodup_iff.mpr (p.calls.distinct_filter _)

theorem callState?_of_calls (h : q.calls = p.calls) (t : Nat) :
    q.callState? t = p.callState? t := by
  rw [callState?, callState?, h]

theorem callState?_of_put {task : τ} {s : CallState}
    (h : q.calls = p.calls.put ticket ⟨task, s⟩) (t : Nat) :
    q.callState? t = if t = ticket then some s else p.callState? t := by
  rw [callState?, h, Table.get?_put]
  split <;> rfl

/-- a submission that is notified -/
theorem callState?_of_notified {task : τ} (h : q.calls = p.calls.put ticket ⟨task, .notified⟩)
    {t : Nat} : (q.callState? t = some .asleep → p.callState? t = some .asleep) ∧
      (p.callState? t = some .notified → q.callState? t = some .notified) := by
  rw [callState?_of_put h]
  split
  · exact ⟨nofun, fun _ => rfl⟩
  · exact ⟨id, id⟩

/-! ## submissions that were notified -/

/-- the submissions that are notified in the step from `p` to `q` -/
def roused (p q : Pool τ α) : List Nat :=
  p.calls.keys.filter fun t =>
    p.callState? t = some .asleep ∧ q.callState? t = some .notified

/-- The submission failed, because no worker could be started for it. -/
def isStranded (p : Pool τ α) (ticket : Nat) : Bool :=
  match p.callState? ticket with
  | some (.answered (.refused (.notStarted _))) => true
  | _ => false

/-- the submissions that were notified -/
structure Watch where
  /-- those that have not looked at the pool since -/
  onTheWay : List Nat
  /-- those that have, and are stranded -/
  stranded : List Nat
  deriving DecidableEq

namespace Watch

def empty : Watch := ⟨[], []⟩

def size (w : Watch) : Nat := w.onTheWay.length + w.stranded.length

def join (w : Watch) (ts : List Nat) : Watch := { w with onTheWay := w.onTheWay ++ ts }

theorem size_join (w : Watch) (ts : List Nat) : (w.join ts).size = w.size + ts.length := by
  rw [size, size, join, List.length_append]
  exact Nat.add_right_comm ..

/-- a submission looks at the pool, and is stranded or not -/
def look (ticket : Nat) (stranded : Bool) (w : Watch) : Watch where
  onTheWay := w.onTheWay.erase ticket
  stranded :=
    if ticket ∈ w.onTheWay ∧ stranded = true then w.stranded ++ [ticket] else w.stranded

theorem size_le_look (ticket : Nat) (stranded : Bool) (w : Watch) :
    w.size ≤ (w.look ticket stranded).size + 1 := by
  have hlength := List.length_erase (a := ticket) (l := w.onTheWay)
  have hmore : w.stranded.length ≤ (w.look ticket stranded).stranded.length := by
    rw [look]
    dsimp only
    split
    · rw [List.length_append]
      exact Nat.le_add_right _ _
    · exact Nat.le_refl _
  have hway : (w.look ticket stranded).onTheWay = w.onTheWay.erase ticket := rfl
  rw [size, size, hway, hlength]
  split <;> omega

/-- The places of those that are stranded are kept count of. -/
theorem size_look_stranded (ticket : Nat) (w : Watch) : (w.look ticket true).size = w.size := by
  rw [size, size, look]
  dsimp only
  by_cases hmem : ticket ∈ w.onTheWay
  · have hpos := List.length_pos_of_mem hmem
    rw [if_pos ⟨hmem, rfl⟩, List.length_erase_of_mem hmem, List.length_append,
      List.length_singleton]
    omega
  · rw [if_neg fun h => hmem h.1, List.erase_of_not_mem hmem]

end Watch

/-- Of the submissions that were notified, one looks at the pool, or others join them. A submission
that wakes up by itself was not notified. -/
def rouse (p q : Pool τ α) (a : Action τ α) (w : Watch) : Watch :=
  match a with
  | .stir _ => w
  | .wake ticket _ => w.look ticket (q.isStranded ticket)
  | _ => w.join (p.roused q)

theorem mem_roused {t : Nat} :
    t ∈ p.roused q ↔ p.callState? t = some .asleep ∧ q.callState? t = some .notified := by
  rw [roused, List.mem_filter, decide_eq_true_eq, and_iff_right_iff_imp]
  rintro ⟨hasleep, -⟩
  obtain ⟨task, hcall⟩ := get?_of_callState hasleep
  exact List.mem_map_of_mem (Table.mem_of_find hcall)

/-- nobody is notified -/
theorem roused_eq_nil (h : ∀ t, p.callState? t = some .asleep → q.callState? t ≠ some .notified) :
    p.roused q = [] :=
  List.eq_nil_iff_forall_not_mem.mpr fun t ht => h t (mem_roused.mp ht).1 (mem_roused.mp ht).2

variable {w : Watch}

/-- If anybody sleeps, at least as many submissions are on their way or stranded as could get a
worker now, and the pool is not shut down. -/
structure Alert (w : Watch) (p : Pool τ α) : Prop where
  notified : ∀ t ∈ w.onTheWay, p.callState? t = some .notified
  distinct : w.onTheWay.Nodup
  up : ∀ t, p.callState? t = some .asleep → p.down = false
  free_le : ∀ t, p.callState? t = some .asleep → p.settings.maxActive - p.active ≤ w.size

theorem alert_empty (settings : PoolSettings) : Alert .empty (empty settings : Pool τ α) :=
  ⟨nofun, List.nodup_nil, nofun, nofun⟩

namespace Alert

/-- a step in which nobody falls asleep or wakes up -/
theorem quiet (h : Alert w p) (hsettings : q.settings = p.settings) (hactive : q.active = p.active)
    (hdown : q.down = p.down)
    (hcall : ∀ t s, s = .asleep ∨ s = .notified →
      (q.callState? t = some s ↔ p.callState? t = some s)) :
    Alert (w.join (p.roused q)) q := by
  have hnobody : p.roused q = [] := by
    refine roused_eq_nil fun t ht hnotified => ?_
    rw [hcall t _ (.inr rfl), ht] at hnotified
    cases hnotified
  rw [hnobody, Watch.join, List.append_nil]
  refine ⟨fun t ht => (hcall t _ (.inr rfl)).mpr (h.notified t ht), h.distinct, fun t ht => ?_,
    fun t ht => ?_⟩
  · rw [hdown]
    exact h.up t ((hcall t _ (.inl rfl)).mp ht)
  · rw [hsettings, hactive]
    exact h.free_le t ((hcall t _ (.inl rfl)).mp ht)

/-- a step of a worker on its own -/
theorem crew (h : Alert w p) {idle : List Nat} {nextWorker : Nat} {workers : Table Nat Worker}
    (hcrew : Crew p q idle p.active nextWorker p.down workers) (hcalls : q.calls = p.calls) :
    Alert (w.join (p.roused q)) q :=
  h.quiet hcrew.settings hcrew.active hcrew.down fun t s _ => by rw [callState?_of_calls hcalls]

/-- A submission that neither sleeps nor was notified goes on to another such state. -/
theorem answer (h : Alert w p) {task : τ} {s : CallState}
    (hsettings : q.settings = p.settings) (hactive : q.active = p.active) (hdown : q.down = p.down)
    (hcalls : q.calls = p.calls.put ticket ⟨task, s⟩) (hs : s ≠ .asleep ∧ s ≠ .notified)
    (hbefore : p.callState? ticket ≠ some .asleep ∧ p.callState? ticket ≠ some .notified) :
    Alert (w.join (p.roused q)) q := by
  refine h.quiet hsettings hactive hdown fun t s' hs' => ?_
  rw [callState?_of_put hcalls]
  split
  · rename_i heq
    subst heq
    rcases hs' with rfl | rfl
    · exact iff_of_false (fun heq => hs.1 (Option.some.inj heq)) hbefore.1
    · exact iff_of_false (fun heq => hs.2 (Option.some.inj heq)) hbefore.2
  · exact Iff.rfl

/-- A submission looks at the pool, and one fewer may be on their way. It takes a free place itself,
or there is none, or it is stranded. -/
theorem glance (h : Alert w p) {task : τ} (hglance : Glance p ticket task q) {w' : Watch}
    (hway : ∀ t ∈ w'.onTheWay, t ∈ w.onTheWay ∧ t ≠ ticket) (hdistinct : w'.onTheWay.Nodup)
    (hsize : w.size ≤ w'.size + 1) (hstranded : q.isStranded ticket = true → w.size ≤ w'.size) :
    Alert w' q := by
  have hothers {t : Nat} (ht : t ≠ ticket) : q.callState? t = p.callState? t := by
    rw [callState?, callState?, hglance.others ht]
  have hnotified (t : Nat) (ht : t ∈ w'.onTheWay) : q.callState? t = some .notified :=
    (hothers (hway t ht).2).trans (h.notified t (hway t ht).1)
  -- unless it falls asleep itself, nobody else does
  have hsleeps {s : CallState} (hself : q.callState? ticket = some s) (hs : s ≠ .asleep) {t : Nat}
      (ht : q.callState? t = some .asleep) : p.callState? t = some .asleep := by
    by_cases hsame : t = ticket
    · rw [hsame, hself] at ht
      exact absurd (Option.some.inj ht) hs
    · exact (hothers hsame).symm.trans ht
  have hserved {r : Pool τ α} {worker : Nat} (hq : q = r.setCall ticket task (.holding worker))
      (hsettings : r.settings = p.settings) (hactive : r.active = p.active + 1) {t : Nat}
      (ht : q.callState? t = some .asleep) : q.settings.maxActive - q.active ≤ w'.size := by
    have hle := h.free_le t (hsleeps (hq ▸ callState?_setCall _ _ _ _) (by simp) ht)
    subst hq
    change r.settings.maxActive - r.active ≤ w'.size
    rw [hsettings, hactive]
    omega
  have hfull (full : p.settings.maxActive ≤ p.active) :
      p.settings.maxActive - p.active ≤ w'.size := by omega
  cases hglance with
  | refused down =>
    have hnone (t : Nat) : (p.setCall ticket task
        (.answered (.refused .shutDown))).callState? t ≠ some .asleep := by
      intro ht
      have hup := h.up t (hsleeps (callState?_setCall _ _ _ _) (by simp) ht)
      rw [down] at hup
      cases hup
    exact ⟨hnotified, hdistinct, fun t ht => absurd ht (hnone t), fun t ht => absurd ht (hnone t)⟩
  | reused up free idle =>
    exact ⟨hnotified, hdistinct, fun _ _ => up, fun t ht => hserved rfl rfl rfl ht⟩
  | started up free idle =>
    exact ⟨hnotified, hdistinct, fun _ _ => up, fun t ht => hserved rfl rfl rfl ht⟩
  | missed up free idle why =>
    refine ⟨hnotified, hdistinct, fun _ _ => up, fun t ht => ?_⟩
    have hle := h.free_le t (hsleeps (callState?_setCall _ _ _ _) (by simp) ht)
    exact Nat.le_trans hle (hstranded (by rw [isStranded, callState?_setCall]))
  | asleep up full => exact ⟨hnotified, hdistinct, fun _ _ => up, fun _ _ => hfull full⟩
  | saturated up full => exact ⟨hnotified, hdistinct, fun _ _ => up, fun _ _ => hfull full⟩

theorem submit (h : Alert w p) (hp : p.Ticketed) (task : τ) (objection : Option String)
    (blocking : Bool) (hindrance : Option String)
    (hq : q = (p.submit task objection blocking hindrance).2) :
    Alert (w.join (p.roused q)) q := by
  have hnew : p.callState? p.nextTicket = none := by
    rw [callState?, hp _ (Nat.le_refl _)]
    rfl
  cases objection with
  | some why =>
    subst hq
    refine h.answer (s := .answered (.refused (.invalidParams why))) rfl rfl rfl rfl
      ⟨by simp, by simp⟩ ?_
    rw [hnew]
    exact ⟨by simp, by simp⟩
  | none =>
    have hglance : Glance { p with nextTicket := p.nextTicket + 1 } p.nextTicket task q := by
      rw [hq]
      exact glance_attempt _ _ task blocking hindrance
    have hnobody : p.roused q = [] := by
      refine roused_eq_nil fun t ht hnotified => ?_
      have hother : t ≠ p.nextTicket := by
        rintro rfl
        rw [hnew] at ht
        cases ht
      have hsame : q.callState? t = p.callState? t := by
        rw [callState?, callState?, hglance.others hother]
      rw [hsame, ht] at hnotified
      cases hnotified
    rw [hnobody, Watch.join, List.append_nil]
    refine glance (p := { p with nextTicket := p.nextTicket + 1 })
      ⟨h.notified, h.distinct, h.up, h.free_le⟩ hglance (fun t ht => ⟨ht, ?_⟩) h.distinct
      (Nat.le_succ _) fun _ => Nat.le_refl _
    rintro rfl
    have hnotified := h.notified _ ht
    rw [hnew] at hnotified
    cases hnotified

theorem wake (h : Alert w p) {hindrance : Option String} (hq : p.wake ticket hindrance = some q) :
    Alert (w.look ticket (q.isStranded ticket)) q := by
  rw [Pool.wake] at hq
  split at hq
  · rename_i task hcall
    cases hq
    refine h.glance (glance_attempt p ticket task true hindrance) (fun t ht => ?_)
      (h.distinct.erase ticket) (Watch.size_le_look ..) fun hstranded => ?_
    · rw [Watch.look, h.distinct.mem_erase_iff] at ht
      exact ⟨ht.2, ht.1⟩
    · exact Nat.le_of_eq (by rw [hstranded, Watch.size_look_stranded])
  · cases hq

/-- A submission that wakes up by itself counts no more as sleeping, and not as notified either. -/
theorem stir (h : Alert w p) (hq : p.stir ticket = some q) : Alert w q := by
  rw [Pool.stir] at hq
  split at hq
  · rename_i task hcall
    cases hq
    have hstate {t : Nat} :=
      callState?_of_notified (q := p.setCall ticket task .notified) (t := t) rfl
    exact ⟨fun t ht => hstate.2 (h.notified t ht), h.distinct, fun t ht => h.up t (hstate.1 ht),
      fun t ht => h.free_le t (hstate.1 ht)⟩
  · cases hq

/-- those on their way, and those that join them in a step that makes nobody look at the pool -/
theorem notified_of_roused (h : Alert w p)
    (hkept : ∀ t, p.callState? t = some .notified → q.callState? t = some .notified) :
    (∀ t ∈ (w.join (p.roused q)).onTheWay, q.callState? t = some .notified) ∧
      (w.join (p.roused q)).onTheWay.Nodup := by
  refine ⟨fun t ht => ?_, List.nodup_append.mpr
    ⟨h.distinct, p.calls.distinct.filter _, fun t ht t' ht' heq => ?_⟩⟩
  · rcases List.mem_append.mp ht with ht | ht
    · exact hkept t (h.notified t ht)
    · exact (mem_roused.mp ht).2
  · subst heq
    have hnotified := h.notified t ht
    rw [(mem_roused.mp ht').1] at hnotified
    cases hnotified

/-- A worker makes room for one submission, and notifies one if it can. -/
theorem notifyOne (h : Alert w p) {r : Pool τ α} {chosen : Option Nat}
    (hcalls : r.calls = p.calls) (hsettings : r.settings = p.settings) (hdown : r.down = p.down)
    (hactive : p.active ≤ r.active + 1) (hq : r.notifyOne chosen = some q) :
    Alert (w.join (p.roused q)) q := by
  cases chosen with
  | none =>
    -- nobody sleeps
    rw [Pool.notifyOne] at hq
    split at hq
    · rename_i hempty
      cases hq
      have hnone (t : Nat) : q.callState? t ≠ some .asleep := by
        rw [Ne, ← mem_callsIn]
        intro ht
        exact List.ne_nil_of_mem ht (List.isEmpty_iff.mp hempty)
      obtain ⟨hnotified, hdistinct⟩ := h.notified_of_roused (q := q)
        fun t ht => (callState?_of_calls hcalls t).trans ht
      exact ⟨hnotified, hdistinct, fun t ht => absurd ht (hnone t), fun t ht => absurd ht (hnone t)⟩
    · cases hq
  | some ticket =>
    rw [Pool.notifyOne] at hq
    split at hq
    · rename_i task hcall
      cases hq
      have hput :
          (r.setCall ticket task .notified).calls = p.calls.put ticket ⟨task, .notified⟩ := by
        rw [← hcalls]
        rfl
      have hstate {t : Nat} := callState?_of_notified (t := t) hput
      obtain ⟨hnotified, hdistinct⟩ := h.notified_of_roused (q := r.setCall ticket task .notified)
        fun t ht => hstate.2 ht
      refine ⟨hnotified, hdistinct, fun t ht => hdown.trans (h.up t (hstate.1 ht)), fun t ht => ?_⟩
      -- the one that is notified makes up for the one more place
      have hjoins : ticket ∈ p.roused (r.setCall ticket task .notified) := by
        refine mem_roused.mpr ⟨?_, callState?_setCall _ _ _ _⟩
        rw [← callState?_of_calls hcalls]
        exact callState?_of_get? hcall
      have hpos := List.length_pos_of_mem hjoins
      have hle := h.free_le t (hstate.1 ht)
      rw [Watch.size_join]
      change r.settings.maxActive - r.active ≤ _
      rw [hsettings]
      omega
    · cases hq

theorem shutDown (h : Alert w p) : Alert (w.join (p.roused p.shutDown)) p.shutDown := by
  rw [Pool.shutDown]
  split
  · exact h.quiet rfl rfl rfl fun _ _ _ => Iff.rfl
  · have hstate (t : Nat) : (p.idle.foldl sendStop
        { p with down := true, idle := [] }).notifyAll.callState? t =
        (p.callState? t).map fun s => if s = .asleep then .notified else s := by
      rw [callState?, notifyAll, Table.get?_map, sendStops_eq, callState?]
      cases p.calls.get? t with
      | none => rfl
      | some call =>
        rw [Option.map_some, Option.map_some, Option.map_some, Option.map_some]
        split <;> rfl
    have hnone (t : Nat) : (p.idle.foldl sendStop
        { p with down := true, idle := [] }).notifyAll.callState? t ≠ some .asleep := by
      rw [hstate]
      intro ht
      obtain ⟨s, -, hs⟩ := Option.map_eq_some_iff.mp ht
      split at hs
      · cases hs
      · rename_i hawake
        exact hawake hs
    obtain ⟨hnotified, hdistinct⟩ := h.notified_of_roused
      (q := (p.idle.foldl sendStop { p with down := true, idle := [] }).notifyAll)
      fun t ht => by rw [hstate, ht]; rfl
    exact ⟨hnotified, hdistinct, fun t ht => absurd ht (hnone t), fun t ht => absurd ht (hnone t)⟩

theorem handOver (h : Alert w p) {place : Nat → Place} {ws : List Nat} (hs : Staffed place ws p)
    {chosen : Option Nat} (hq : p.handOver ticket chosen = some q) :
    Alert (w.join (p.roused q)) q := by
  obtain ⟨task, w, hcall⟩ := exists_holding hq
  rw [handOver_eq hs hcall] at hq
  cases hq
  refine h.answer rfl rfl rfl
    (show _ = p.calls.put ticket ⟨task, .answered (.dispatched w)⟩ from rfl) ⟨nofun, nofun⟩ ?_
  rw [callState?_of_get? hcall]
  exact ⟨nofun, nofun⟩

/-- one step -/
theorem perform (h : Alert w p) {turns : List Turn} (hp : Booked turns p) {a : Action τ α}
    (hq : p.perform a = some q) : Alert (rouse p q a w) q := by
  obtain ⟨place, hs⟩ := hp.staffed
  cases a with
  | submit task objection blocking hindrance =>
    exact h.submit hp.ticketed task objection blocking hindrance (Option.some.inj hq).symm
  | stir ticket => exact h.stir hq
  | wake ticket hindrance => exact h.wake hq
  | handOver ticket chosen => exact h.handOver hs hq
  | take worker =>
    rw [Pool.perform, take] at hq
    split at hq
    · cases hq
      exact h.crew (crew_of_staff (staff_setJob _ _ _)) (calls_setJob _ _ _)
    · cases hq
      exact h.crew (crew_of_staff rfl) rfl
    · cases hq
  | report worker x =>
    rw [Pool.perform, report] at hq
    split at hq
    · cases hq
      exact h.crew (crew_of_staff (staff_setJob _ _ _)) (calls_setJob _ _ _)
    · cases hq
  | finish worker outcome =>
    rw [Pool.perform, finish] at hq
    split at hq
    · cases hq
      exact h.crew (crew_of_staff (staff_setJob _ _ _)) (calls_setJob _ _ _)
    · cases hq
  | giveBack worker chosen =>
    rw [Pool.perform, giveBack] at hq
    split at hq
    · refine h.notifyOne ?_ ?_ ?_ ?_ hq
      · split <;> rfl
      · split <;> rfl
      · split <;> rfl
      · split <;> exact Nat.le_succ_of_pred_le (Nat.le_refl _)
    · cases hq
  | shutDown =>
    cases hq
    exact h.shutDown
  | collect ticket =>
    obtain ⟨⟨result, r⟩, hcollect, rfl⟩ := Option.map_eq_some_iff.mp hq
    rw [collect] at hcollect
    split at hcollect
    · split at hcollect
      · cases hcollect
        exact h.crew (crew_of_staff rfl) rfl
      · cases hcollect
        exact h.crew (crew_of_staff rfl) rfl
      · cases hcollect
      · cases hcollect
    · cases hcollect

end Alert

/-! ## when all of them have looked -/

/-- A submission has the worker, or the worker has a task or comes from one. -/
def Busy (worker : Nat) (p : Pool τ α) : Prop :=
  (∃ ticket, p.holding? ticket = some worker) ∨
    (∃ x ticket, p.workers.get? worker = some x ∧ x.Carries ticket) ∨
    p.workerState? worker = some .returning

/-- The pool is up, and as many workers are busy as may be. -/
structure AllBusy (p : Pool τ α) : Prop where
  up : p.down = false
  active : p.active = p.settings.maxActive
  busy : ∃ ws : List Nat, ws.Nodup ∧ ws.length = p.settings.maxActive ∧ ∀ w ∈ ws, Busy w p

theorem Staffed.busy {place : Nat → Place} {ws : List Nat} (hs : Staffed place ws p)
    (hw : worker ∈ ws) : Busy worker p := by
  have hheld := (hs.held worker).mp hw
  have hfound := hs.worker worker
  cases hplace : place worker with
  | given t => exact .inl ⟨t, (hs.given worker t).mpr hplace⟩
  | assigned t =>
    rw [hplace] at hfound
    exact .inr (.inl ⟨_, t, hfound, .inl List.mem_cons_self⟩)
  | running t =>
    rw [hplace] at hfound
    exact .inr (.inl ⟨_, t, hfound, .inr rfl⟩)
  | returning =>
    rw [hplace] at hfound
    refine .inr (.inr ?_)
    rw [workerState?, hfound]
    rfl
  | _ =>
    rw [hplace] at hheld
    cases hheld

/-- If nobody is on the way any more and nobody is stranded, whoever sleeps does so for lack of
workers. -/
theorem Booked.allBusy {turns : List Turn} (h : Booked turns p) (halert : Alert w p)
    (hsize : w.size = 0) (hasleep : p.asleep ≠ []) : AllBusy p := by
  obtain ⟨t, ts, ht⟩ := List.exists_cons_of_ne_nil hasleep
  have hstate := mem_callsIn.mp (ht ▸ List.mem_cons_self : t ∈ p.asleep)
  have hactive : p.active = p.settings.maxActive :=
    Nat.le_antisymm h.within.active_le
      (Nat.le_of_sub_eq_zero (Nat.le_zero.mp (hsize ▸ halert.free_le t hstate)))
  obtain ⟨place, hs⟩ := h.staffed
  exact ⟨halert.up t hstate, hactive, held turns, hs.held_distinct, hs.active ▸ hactive,
    fun w hw => hs.busy hw⟩

theorem Glance.callState?_ne {task : τ} (h : Glance p ticket task q) :
    q.callState? ticket ≠ some .notified := by
  cases h with
  | _ =>
    rw [callState?_setCall]
    nofun

/-- a submission that was notified looks at the pool, and is not on the way any more -/
theorem exists_wake (h : p.callState? ticket = some .notified) (hindrance : Option String) :
    ∃ q, p.wake ticket hindrance = some q ∧ q.callState? ticket ≠ some .notified ∧
      (∀ t, t ≠ ticket → q.callState? t = p.callState? t) ∧
      (p.down = true → q.callState? ticket = some (.answered (.refused .shutDown))) := by
  obtain ⟨task, hcall⟩ := get?_of_callState h
  have hglance := glance_attempt p ticket task true hindrance
  refine ⟨p.attempt ticket task true hindrance, by rw [wake, hcall], ?_, fun t ht => ?_,
    fun hdown => ?_⟩
  · exact hglance.callState?_ne
  · rw [callState?, callState?, hglance.others ht]
  · rw [attempt, if_pos hdown]
    exact callState?_setCall _ _ _ _

/-- They can all do so one after the other, whatever hinders which of them. -/
theorem exists_run_wakes (hindrance : Nat → Option String) (hts : ts.Nodup)
    (h : ∀ t ∈ ts, p.callState? t = some .notified) :
    ∃ turns q, p.run (ts.map fun t => .wake t (hindrance t)) = some (turns, q) ∧
      ∀ t, q.callState? t = some .notified → p.callState? t = some .notified ∧ t ∉ ts := by
  induction ts generalizing p with
  | nil => exact ⟨[], p, rfl, fun t ht => ⟨ht, List.not_mem_nil⟩⟩
  | cons ticket ts ih =>
    obtain ⟨hnotin, hrest⟩ := List.nodup_cons.mp hts
    obtain ⟨r, hr, hself, hothers, -⟩ :=
      exists_wake (h ticket List.mem_cons_self) (hindrance ticket)
    have hr' : p.perform (.wake ticket (hindrance ticket)) = some r := hr
    obtain ⟨turns, q, hrun, hq⟩ := ih hrest fun t ht => by
      rw [hothers t (ne_of_mem_of_not_mem ht hnotin)]
      exact h t (List.mem_cons_of_mem _ ht)
    refine ⟨_, q, run_of_perform hr' hrun, fun t ht => ?_⟩
    obtain ⟨hbefore, hout⟩ := hq t ht
    have hne : t ≠ ticket := by
      rintro rfl
      exact hself hbefore
    exact ⟨hothers t hne ▸ hbefore, List.not_mem_cons_of_ne_of_not_mem hne hout⟩

/-! ## those that are stranded -/

/-- An answer is final. -/
theorem Affair.answered {ms : List (Milestone τ α)} (h : Affair p q ticket ms) {r : Reply}
    (hr : p.callState? ticket = some (.answered r)) :
    q.callState? ticket = some (.answered r) := by
  obtain ⟨task, hcall⟩ := get?_of_callState hr
  have hsame (hq : q.calls.get? ticket = p.calls.get? ticket) :
      q.callState? ticket = some (.answered r) := callState?_of_get? (hq.trans hcall)
  have haside (same : Bystands p q ticket) : q.callState? ticket = some (.answered r) := by
    rcases same.call with hq | ⟨_, hasleep, -⟩
    · exact hsame hq
    · rw [hcall] at hasleep
      cases hasleep
  cases h with
  | aside same => exact haside same
  | submitted _ _ before =>
    rw [hcall] at before
    cases before
  | looked _ _ before =>
    rw [hcall] at before
    cases before
  | handedOver _ _ before =>
    rw [hcall] at before
    cases before
  | began _ _ _ _ call _ => exact hsame call
  | ended _ _ _ _ _ call _ => exact hsame call
  | collected _ _ _ _ call _ => exact hsame call
  | tooLate _ _ same => exact haside same

theorem isStranded_iff :
    p.isStranded ticket = true ↔
      ∃ why, p.callState? ticket = some (.answered (.refused (.notStarted why))) := by
  rw [isStranded]
  split
  · rename_i why hstate
    exact ⟨fun _ => ⟨why, hstate⟩, fun _ => rfl⟩
  · rename_i hstate
    exact iff_of_false Bool.false_ne_true fun ⟨why, h⟩ => hstate why h

/-- Different submissions are stranded, each of which failed for want of a worker. -/
def Stranded (w : Watch) (p : Pool τ α) : Prop :=
  w.stranded.Nodup ∧ ∀ t ∈ w.stranded, p.isStranded t = true

theorem Stranded.perform (h : Stranded w p) (halert : Alert w p) {turns : List Turn}
    (hp : Booked turns p) {a : Action τ α} (hq : p.perform a = some q) :
    Stranded (rouse p q a w) q := by
  have hkept (t : Nat) (ht : t ∈ w.stranded) : q.isStranded t = true := by
    obtain ⟨why, hwhy⟩ := isStranded_iff.mp (h.2 t ht)
    exact isStranded_iff.mpr ⟨why, (affair_perform hp hq t).answered hwhy⟩
  cases a with
  | wake ticket hindrance =>
    rw [rouse, Watch.look, Stranded]
    dsimp only
    split
    · rename_i hnew
      -- whoever is on the way has no answer yet
      have hfresh : ticket ∉ w.stranded := by
        intro hmem
        obtain ⟨why, hwhy⟩ := isStranded_iff.mp (h.2 ticket hmem)
        rw [halert.notified ticket hnew.1] at hwhy
        cases hwhy
      refine ⟨List.nodup_append.mpr ⟨h.1, List.pairwise_singleton _ _, fun t ht t' ht' heq => ?_⟩,
        fun t ht => ?_⟩
      · rw [heq, List.mem_singleton.mp ht'] at ht
        exact hfresh ht
      · rcases List.mem_append.mp ht with ht | ht
        · exact hkept t ht
        · rw [List.mem_singleton.mp ht]
          exact hnew.2
    · exact ⟨h.1, hkept⟩
  | _ => exact ⟨h.1, hkept⟩

/-- what would keep a new worker from starting in the step -/
def Action.hindrance? : Action τ α → Option String
  | .submit _ _ _ hindrance | .wake _ hindrance => hindrance
  | _ => none

theorem isStranded_attempt (p : Pool τ α) (ticket : Nat) (task : τ) (blocking : Bool) :
    (p.attempt ticket task blocking none).isStranded ticket = false := by
  have hnot {r : Pool τ α} {s : CallState}
      (hs : ∀ why, s ≠ .answered (.refused (.notStarted why))) :
      (r.setCall ticket task s).isStranded ticket = false := by
    rw [← Bool.not_eq_true, isStranded_iff, callState?_setCall]
    exact fun ⟨why, h⟩ => hs why (Option.some.inj h)
  rw [attempt]
  split
  · exact hnot (by simp)
  · split
    · cases hidle : p.idle with
      | nil =>
        rw [acquire_new hidle]
        exact hnot (by simp)
      | cons worker rest =>
        rw [acquire_idle hidle]
        exact hnot (by simp)
    · split
      · exact hnot (by simp)
      · exact hnot (by simp)

theorem stranded_rouse {a : Action τ α} (hq : p.perform a = some q) (ha : a.hindrance? = none) :
    (rouse p q a w).stranded = w.stranded := by
  cases a with
  | wake ticket hindrance =>
    obtain rfl : hindrance = none := ha
    rw [perform, wake] at hq
    split at hq
    · rename_i task hcall
      cases hq
      rw [rouse, isStranded_attempt]
      exact if_neg fun h => Bool.false_ne_true h.2
    · cases hq
  | _ => rfl

/-- Where nothing hinders the start of workers, nobody is stranded. -/
theorem stranded_noted {actions : List (Action τ α)} {turns : List Turn}
    (hrun : p.run actions = some (turns, q)) (hactions : ∀ a ∈ actions, a.hindrance? = none) :
    (Pool.noted rouse p w actions).stranded = w.stranded := by
  induction actions generalizing p turns w with
  | nil => rfl
  | cons a actions ih =>
    obtain ⟨r, rest, hr, hrest, -⟩ := run_cons hrun
    rw [noted, hr]
    dsimp only
    rw [ih hrest fun b hb => hactions b (List.mem_cons_of_mem a hb),
      stranded_rouse hr (hactions a List.mem_cons_self)]

/-! ## runs -/

/-- the submissions that were notified in a run, and have not looked at the pool since or are
stranded -/
def watch (p : Pool τ α) (actions : List (Action τ α)) : Watch := noted rouse p .empty actions

/-- Whoever sleeps does so while the pool is up, and there is room for no more submissions than are
on their way or stranded. -/
structure Vigilant (w : Watch) (p : Pool τ α) : Prop where
  notified : ∀ t ∈ w.onTheWay, t ∈ p.notified
  distinct : w.onTheWay.Nodup
  /-- the stranded ones are different submissions, and each of them was told why it failed -/
  stranded : w.stranded.Nodup ∧ ∀ t ∈ w.stranded,
    ∃ why, p.callState? t = some (.answered (.refused (.notStarted why)))
  active_le : p.active ≤ p.settings.maxActive
  up : p.asleep ≠ [] → p.down = false
  free_le : p.asleep ≠ [] →
    p.settings.maxActive - p.active ≤ w.onTheWay.length + w.stranded.length
  busy : w.onTheWay = [] → w.stranded = [] → p.asleep ≠ [] → AllBusy p
  /-- Those that were notified can look at the pool, one after the other, whatever hinders which of
  them. If nothing does and nobody was stranded before, those that still sleep have to. -/
  settles : ∀ hindrance : Nat → Option String, ∃ turns q,
    p.run (p.notified.map fun t => .wake t (hindrance t)) = some (turns, q) ∧ q.notified = [] ∧
      (w.stranded = [] → (∀ t ∈ p.notified, hindrance t = none) → q.asleep ≠ [] → AllBusy q)
  closed : p.down = true → p.asleep = [] ∧ ∀ t ∈ p.notified, ∀ hindrance, ∃ q,
    p.perform (.wake t hindrance) = some q ∧
      q.callState? t = some (.answered (.refused .shutDown))

theorem Booked.alert {turns later : List Turn} {actions : List (Action τ α)} (h : Booked turns p)
    (halert : Alert w p) (hstranded : Stranded w p) (hrun : p.run actions = some (later, q)) :
    Alert (Pool.noted rouse p w actions) q ∧ Stranded (Pool.noted rouse p w actions) q :=
  Booked.noted (I := fun w p => Alert w p ∧ Stranded w p)
    (fun hp h hq => ⟨h.1.perform hp hq, h.2.perform h.1 hp hq⟩) h ⟨halert, hstranded⟩ hrun

theorem Booked.exists_settled {turns : List Turn} (h : Booked turns p) (halert : Alert w p)
    (hstranded : Stranded w p) (hindrance : Nat → Option String) :
    ∃ turns q, p.run (p.notified.map fun t => .wake t (hindrance t)) = some (turns, q) ∧
      q.notified = [] ∧ (w.stranded = [] → (∀ t ∈ p.notified, hindrance t = none) →
        q.asleep ≠ [] → AllBusy q) := by
  have hdistinct : p.notified.Nodup := p.callsIn_distinct .notified
  obtain ⟨turns, q, hrun, hq⟩ :=
    exists_run_wakes hindrance hdistinct fun t ht => mem_callsIn.mp ht
  have hnone (t : Nat) : t ∉ q.notified := fun ht =>
    (hq t (mem_callsIn.mp ht)).2 (mem_callsIn.mpr (hq t (mem_callsIn.mp ht)).1)
  refine ⟨turns, q, hrun, List.eq_nil_iff_forall_not_mem.mpr hnone, fun hempty hfree hasleep => ?_⟩
  have hend := (h.alert halert hstranded hrun).1
  refine (h.run hrun).1.allBusy hend ?_ hasleep
  have hway := List.eq_nil_iff_forall_not_mem.mpr fun t ht =>
    hnone t (mem_callsIn.mpr (hend.notified t ht))
  have hsame := stranded_noted (w := w) hrun fun a ha => by
    obtain ⟨t, ht, rfl⟩ := List.mem_map.mp ha
    exact hfree t ht
  rw [Watch.size, hway, hsame, hempty]
  rfl

theorem Booked.vigilant {turns : List Turn} (h : Booked turns p) (halert : Alert w p)
    (hstranded : Stranded w p) : Vigilant w p where
  notified t ht := mem_callsIn.mpr (halert.notified t ht)
  distinct := halert.distinct
  stranded := ⟨hstranded.1, fun t ht => isStranded_iff.mp (hstranded.2 t ht)⟩
  active_le := h.within.active_le
  up hasleep := by
    obtain ⟨t, ts, ht⟩ := List.exists_cons_of_ne_nil hasleep
    exact halert.up t (mem_callsIn.mp (ht ▸ List.mem_cons_self : t ∈ p.asleep))
  free_le hasleep := by
    obtain ⟨t, ts, ht⟩ := List.exists_cons_of_ne_nil hasleep
    exact halert.free_le t (mem_callsIn.mp (ht ▸ List.mem_cons_self : t ∈ p.asleep))
  busy hway hnobody hasleep := h.allBusy halert (by rw [Watch.size, hway, hnobody]; rfl) hasleep
  settles := h.exists_settled halert hstranded
  closed hdown := by
    refine ⟨List.eq_nil_iff_forall_not_mem.mpr fun t ht => ?_, fun t ht hindrance => ?_⟩
    · have hup := halert.up t (mem_callsIn.mp ht)
      rw [hdown] at hup
      cases hup
    · obtain ⟨q, hq, -, -, hrefused⟩ := exists_wake (mem_callsIn.mp ht) hindrance
      exact ⟨q, hq, hrefused hdown⟩

/-- Whatever submissions, workers and the user of a pool do in whichever order, whoever sleeps does
so while the pool is up, and while at least as many others are on their way to the pool, or
stranded, as could get a worker there. Nobody is stranded unless a worker could not be started. -/
theorem vigilant_of_run {settings : PoolSettings} {actions : List (Action τ α)}
    {turns : List Turn} (hrun : (empty settings : Pool τ α).run actions = some (turns, q)) :
    Vigilant ((empty settings).watch actions) q ∧ q.settings = settings ∧
      ((∀ a ∈ actions, a.hindrance? = none) → ((empty settings).watch actions).stranded = []) := by
  obtain ⟨halert, hstranded⟩ := (booked_empty settings).alert (alert_empty settings)
    ⟨List.nodup_nil, nofun⟩ hrun
  obtain ⟨hbooked, hsettings⟩ := (booked_empty settings).run hrun
  exact ⟨hbooked.vigilant halert hstranded, hsettings, stranded_noted hrun⟩

/-- Two submissions sleep, and one of them is notified. A third one gets ahead of it. -/
def overtaken : List (Action Nat Nat) :=
  [.submit 7 none false none, .submit 8 none true none, .submit 9 none true none,
    .handOver 0 none, .take 0, .finish 0 (.value 14), .giveBack 0 (some 1),
    .submit 10 none false none]

theorem vigilant_of_run_overtaken :
    ∃ turns q,
      run (empty ⟨"pool", 1, 1⟩) overtaken = some (turns, q) ∧
      q.asleep = [2] ∧ watch (empty ⟨"pool", 1, 1⟩) overtaken = ⟨[1], []⟩ ∧
      Vigilant (watch (empty ⟨"pool", 1, 1⟩) overtaken) q := by
  have hrun : (run (empty ⟨"pool", 1, 1⟩) overtaken).map (fun r => r.2.asleep) = some [2] := by
    decide +kernel
  obtain ⟨⟨turns, q⟩, hrun, hasleep⟩ := Option.map_eq_some_iff.mp hrun
  exact ⟨turns, q, hrun, hasleep, by decide +kernel, (vigilant_of_run hrun).1⟩

/-- Two submissions sleep. One of them is notified of a worker that was given back and not kept, and
no new one can be started for it. -/
def forgotten : List (Action Nat Nat) :=
  [.submit 7 none true none, .submit 8 none true none, .submit 9 none true none,
    .handOver 0 none, .take 0, .finish 0 (.value 14), .giveBack 0 (some 1),
    .wake 1 (some "Resource temporarily unavailable")]

/-- The other one goes on sleeping, although no worker is active, and nobody is on the way. -/
theorem asleep_forgotten :
    ∃ turns q,
      run (empty ⟨"pool", 1, 0⟩) forgotten = some (turns, q) ∧
      q.asleep = [2] ∧ q.notified = [] ∧ q.down = false ∧ q.active < q.settings.maxActive ∧
      watch (empty ⟨"pool", 1, 0⟩) forgotten = ⟨[], [1]⟩ := by
  have hrun : (run (empty ⟨"pool", 1, 0⟩) forgotten).map (fun r =>
      (r.2.asleep, r.2.notified, r.2.down, r.2.active, r.2.settings.maxActive)) =
      some ([2], [], false, 0, 1) := by
    decide +kernel
  obtain ⟨⟨turns, q⟩, hrun, heq⟩ := Option.map_eq_some_iff.mp hrun
  simp only [Prod.mk.injEq] at heq
  obtain ⟨hasleep, hnotified, hdown, hactive, hlimit⟩ := heq
  exact ⟨turns, q, hrun, hasleep, hnotified, hdown, by rw [hactive, hlimit]; exact Nat.one_pos,
    by decide +kernel⟩

end BundleLink.Pool
