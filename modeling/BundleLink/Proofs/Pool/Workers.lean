import BundleLink.Proofs.Pool.Basic

/-!
# The workers of a pool

Each number that was given out to a worker is in one place at a time: idle, with a submission, at
work for one, or gone, or its worker could not be started. A step moves at most one worker to
another place, except that shutting down sends all idle ones away.

* `Pool.Place`         where a worker is, and what is known about it there;
* `Pool.Staffed`       the pool's lists and tables agree on the places of all workers;
* `Pool.held`          the workers that were acquired and not given back since;
* `Pool.Accounted`     numbers of active and idle workers, against the turns so far;
* `accounted_of_run`   in every run of a valid pool, and after it is shut down.
-/

namespace BundleLink.Pool

/-! ## places -/

inductive Place where
  | unborn
  /-- could not be started -/
  | missed
  | idle
  /-- with a submission that has not handed its task over yet -/
  | given (ticket : Nat)
  | assigned (ticket : Nat)
  | running (ticket : Nat)
  | returning
  /-- told to stop -/
  | told
  | ended
  deriving DecidableEq, Repr

namespace Place

/-- what the table of workers holds for a worker in that place -/
def worker? : Place → Option Worker
  | unborn | missed => none
  | idle | given _ => some ⟨[], .waiting⟩
  | assigned ticket => some ⟨[.run ticket], .waiting⟩
  | running ticket => some ⟨[], .running ticket⟩
  | returning => some ⟨[], .returning⟩
  | told => some ⟨[.stop], .waiting⟩
  | ended => some ⟨[], .ended⟩

/-- from the acquisition to the return -/
def isHeld : Place → Bool
  | given _ | assigned _ | running _ | returning => true
  | unborn | missed | idle | told | ended => false

/-- where a worker gets by itself -/
theorem works {x : Place} {w w' : Worker} (hx : x.worker? = some w) (hworks : Works w w') :
    ∃ y : Place, y.worker? = some w' ∧ y.isHeld = x.isHeld ∧ y ≠ .unborn ∧ x ≠ .unborn ∧
      y ≠ .idle ∧ x ≠ .idle ∧ ∀ t, y ≠ .given t ∧ x ≠ .given t := by
  cases hworks with
  | run ticket inbox =>
    cases x <;> cases hx
    exact ⟨.running ticket, rfl, rfl, by simp⟩
  | stop inbox =>
    cases x <;> cases hx
    exact ⟨.ended, rfl, rfl, by simp⟩
  | finish inbox ticket =>
    cases x <;> cases hx
    exact ⟨.returning, rfl, rfl, by simp⟩

theorem eq_returning {x : Place} {inbox : List Command}
    (hx : x.worker? = some ⟨inbox, .returning⟩) : x = .returning ∧ inbox = [] := by
  cases x <;> cases hx
  exact ⟨rfl, rfl⟩

end Place

/-! ## turns, one after the other -/

def Turn.settle (held : List Nat) : Turn → List Nat
  | .started _ | .missed _ => held
  | .acquired worker => worker :: held
  | .returned worker => held.erase worker

/-- the workers acquired and not given back since -/
def held (turns : List Turn) : List Nat := turns.foldl Turn.settle []

def Turn.number? : Turn → Option Nat
  | .started worker | .missed worker => some worker
  | .acquired _ | .returned _ => none

/-- the numbers given out to new workers, in this order, whether or not they could be started -/
def numbersIn (turns : List Turn) : List Nat := turns.filterMap Turn.number?

theorem numbersIn_append (turns later : List Turn) :
    numbersIn (turns ++ later) = numbersIn turns ++ numbersIn later := List.filterMap_append

def Turn.isAcquired : Turn → Bool
  | .acquired _ => true
  | .started _ | .missed _ | .returned _ => false

def Turn.isReturned : Turn → Bool
  | .returned _ => true
  | .started _ | .missed _ | .acquired _ => false

/-! ## everybody in one place -/

variable {τ α : Type}

/-- The pool's tables and lists put each worker into its place, and `ws` are those that are held. -/
structure Staffed (place : Nat → Place) (ws : List Nat) (p : Pool τ α) : Prop where
  worker : ∀ w, p.workers.get? w = (place w).worker?
  unborn : ∀ w, p.nextWorker ≤ w ↔ place w = .unborn
  idle : ∀ w, w ∈ p.idle ↔ place w = .idle
  given : ∀ w t, p.holding? t = some w ↔ place w = .given t
  held : ∀ w, w ∈ ws ↔ (place w).isHeld = true
  idle_distinct : p.idle.Nodup
  held_distinct : ws.Nodup
  active : p.active = ws.length

theorem staffed_empty (settings : PoolSettings) :
    Staffed (fun _ => .unborn) [] (empty settings : Pool τ α) where
  worker _ := rfl
  unborn w := ⟨fun _ => rfl, fun _ => Nat.zero_le w⟩
  idle _ := ⟨fun h => absurd h List.not_mem_nil, nofun⟩
  given _ _ := ⟨nofun, nofun⟩
  held _ := ⟨fun h => absurd h List.not_mem_nil, nofun⟩
  idle_distinct := List.nodup_nil
  held_distinct := List.nodup_nil
  active := rfl

namespace Staffed

variable {place : Nat → Place} {ws ws' : List Nat} {p q : Pool τ α}

/-- no worker is idle and held -/
theorem apart (h : Staffed place ws p) : (ws ++ p.idle).Nodup := by
  refine List.nodup_append.mpr ⟨h.held_distinct, h.idle_distinct, fun v hv w hw heq => ?_⟩
  subst heq
  have hheld := (h.held v).mp hv
  rw [(h.idle v).mp hw] at hheld
  cases hheld

theorem congr (h : Staffed place ws p)
    (crew : Crew p q p.idle p.active p.nextWorker p.down p.workers)
    (hholding : ∀ t, q.holding? t = p.holding? t) : Staffed place ws q where
  worker w := crew.workers ▸ h.worker w
  unborn w := crew.nextWorker ▸ h.unborn w
  idle w := crew.idle ▸ h.idle w
  given w t := hholding t ▸ h.given w t
  held := h.held
  idle_distinct := crew.idle ▸ h.idle_distinct
  held_distinct := h.held_distinct
  active := crew.active ▸ h.active

/-- One worker goes to another place, the others stay where they are. -/
theorem moved (h : Staffed place ws p) (w : Nat) (x : Place)
    (hworkers : q.workers.get? w = x.worker? ∧ ∀ v, v ≠ w → q.workers.get? v = p.workers.get? v)
    (hunborn : (q.nextWorker ≤ w ↔ x = .unborn) ∧
      ∀ v, v ≠ w → (q.nextWorker ≤ v ↔ p.nextWorker ≤ v))
    (hidle : (w ∈ q.idle ↔ x = .idle) ∧ ∀ v, v ≠ w → (v ∈ q.idle ↔ v ∈ p.idle))
    (hgiven : ∀ t, (q.holding? t = some w ↔ x = .given t) ∧
      ∀ v, v ≠ w → (q.holding? t = some v ↔ p.holding? t = some v))
    (hheld : (w ∈ ws' ↔ x.isHeld = true) ∧ ∀ v, v ≠ w → (v ∈ ws' ↔ v ∈ ws))
    (hidle_distinct : q.idle.Nodup) (hheld_distinct : ws'.Nodup)
    (hactive : q.active = ws'.length) :
    Staffed (fun v => if v = w then x else place v) ws' q where
  worker v := by
    by_cases hv : v = w
    · rw [if_pos hv, hv, hworkers.1]
    · rw [if_neg hv, hworkers.2 v hv, h.worker]
  unborn v := by
    by_cases hv : v = w
    · rw [if_pos hv, hv, hunborn.1]
    · rw [if_neg hv, hunborn.2 v hv, h.unborn]
  idle v := by
    by_cases hv : v = w
    · rw [if_pos hv, hv, hidle.1]
    · rw [if_neg hv, hidle.2 v hv, h.idle]
  given v t := by
    by_cases hv : v = w
    · rw [if_pos hv, hv, (hgiven t).1]
    · rw [if_neg hv, (hgiven t).2 v hv, h.given]
  held v := by
    by_cases hv : v = w
    · rw [if_pos hv, hv, hheld.1]
    · rw [if_neg hv, hheld.2 v hv, h.held]
  idle_distinct := hidle_distinct
  held_distinct := hheld_distinct
  active := hactive

/-- a submission that gets a worker which nobody has -/
theorem acquired (h : Staffed place ws p) {ticket w : Nat}
    (hw : place w = .idle ∨ place w = .unborn) (hbefore : p.holding? ticket = none)
    (hworkers : q.workers.get? w = some ⟨[], .waiting⟩ ∧
      ∀ v, v ≠ w → q.workers.get? v = p.workers.get? v)
    (hunborn : w < q.nextWorker ∧ ∀ v, v ≠ w → (q.nextWorker ≤ v ↔ p.nextWorker ≤ v))
    (hidle : w ∉ q.idle ∧ ∀ v, v ≠ w → (v ∈ q.idle ↔ v ∈ p.idle))
    (hholding : ∀ t, q.holding? t = if t = ticket then some w else p.holding? t)
    (hidle_distinct : q.idle.Nodup) (hactive : q.active = p.active + 1) :
    ∃ place', Staffed place' (w :: ws) q := by
  have hnone (t : Nat) : p.holding? t ≠ some w := by
    rw [Ne, h.given]
    rcases hw with hw | hw <;> rw [hw] <;> nofun
  have hfree : w ∉ ws := by
    rw [h.held]
    rcases hw with hw | hw <;> rw [hw] <;> nofun
  refine ⟨_, h.moved w (.given ticket) hworkers ⟨?_, hunborn.2⟩ ⟨?_, hidle.2⟩ (fun t => ⟨?_, ?_⟩)
    ⟨?_, ?_⟩ hidle_distinct (List.nodup_cons.mpr ⟨hfree, h.held_distinct⟩) ?_⟩
  · exact ⟨fun hle => absurd hunborn.1 (Nat.not_lt.mpr hle), nofun⟩
  · exact ⟨fun hin => absurd hin hidle.1, nofun⟩
  · rw [hholding]
    split
    · rename_i ht
      rw [ht]
      exact ⟨fun _ => rfl, fun _ => rfl⟩
    · rename_i ht
      refine ⟨fun hin => absurd hin (hnone t), fun heq => ?_⟩
      exact absurd (Place.given.inj heq).symm ht
  · intro v hv
    rw [hholding]
    split
    · rename_i ht
      rw [ht, hbefore]
      exact ⟨fun heq => absurd (Option.some.inj heq).symm hv, nofun⟩
    · exact Iff.rfl
  · exact ⟨fun _ => rfl, fun _ => List.mem_cons_self⟩
  · intro v hv
    rw [List.mem_cons]
    exact ⟨fun hin => hin.resolve_left hv, .inr⟩
  · rw [hactive, h.active, List.length_cons]

/-- a worker that is neither with a submission before nor afterwards -/
theorem shifted (h : Staffed place ws p) {w : Nat} {x : Place}
    (hw : place w ≠ .unborn ∧ ∀ t, place w ≠ .given t) (hx : x ≠ .unborn ∧ ∀ t, x ≠ .given t)
    (hworkers : q.workers.get? w = x.worker? ∧ ∀ v, v ≠ w → q.workers.get? v = p.workers.get? v)
    (hnext : q.nextWorker = p.nextWorker) (hholding : ∀ t, q.holding? t = p.holding? t)
    (hidle : (w ∈ q.idle ↔ x = .idle) ∧ ∀ v, v ≠ w → (v ∈ q.idle ↔ v ∈ p.idle))
    (hheld : (w ∈ ws' ↔ x.isHeld = true) ∧ ∀ v, v ≠ w → (v ∈ ws' ↔ v ∈ ws))
    (hidle_distinct : q.idle.Nodup) (hheld_distinct : ws'.Nodup)
    (hactive : q.active = ws'.length) : ∃ place', Staffed place' ws' q := by
  refine ⟨_, h.moved w x hworkers ⟨?_, fun v _ => by rw [hnext]⟩ hidle (fun t => ⟨?_, ?_⟩) hheld
    hidle_distinct hheld_distinct hactive⟩
  · rw [hnext, h.unborn]
    exact ⟨fun heq => absurd heq hw.1, fun heq => absurd heq hx.1⟩
  · rw [hholding, h.given]
    exact ⟨fun heq => absurd heq (hw.2 t), fun heq => absurd heq (hx.2 t)⟩
  · intro v _
    rw [hholding]

/-- The next number is used up, but there is no worker for it. -/
theorem missed (h : Staffed place ws p)
    (crew : Crew p q p.idle p.active (p.nextWorker + 1) p.down p.workers)
    (hholding : ∀ t, q.holding? t = p.holding? t) : ∃ place', Staffed place' ws q := by
  have hw := (h.unborn p.nextWorker).mp (Nat.le_refl _)
  refine ⟨_, h.moved p.nextWorker .missed ⟨?_, fun v _ => by rw [crew.workers]⟩
    ⟨?_, fun v hv => ?_⟩ ⟨?_, fun v _ => by rw [crew.idle]⟩
    (fun t => ⟨?_, fun v _ => by rw [hholding]⟩) ⟨?_, fun v _ => Iff.rfl⟩
    (crew.idle ▸ h.idle_distinct) h.held_distinct (crew.active.trans h.active)⟩
  · rw [crew.workers, h.worker, hw]
    rfl
  · rw [crew.nextWorker]
    exact iff_of_false (Nat.not_succ_le_self _) Place.noConfusion
  · rw [crew.nextWorker]
    exact ⟨fun hle => Nat.le_of_succ_le hle, fun hle => Nat.lt_of_le_of_ne hle (Ne.symm hv)⟩
  · rw [crew.idle, h.idle, hw]
    exact iff_of_false Place.noConfusion Place.noConfusion
  · rw [hholding, h.given, hw]
    exact iff_of_false Place.noConfusion Place.noConfusion
  · rw [h.held, hw]
    exact Iff.rfl

/-- a worker that is given back -/
theorem returned (h : Staffed place ws p) {w : Nat} {x : Place} (hw : place w = .returning)
    (hx : x = .idle ∨ x = .ended)
    (hworkers : q.workers.get? w = x.worker? ∧ ∀ v, v ≠ w → q.workers.get? v = p.workers.get? v)
    (hnext : q.nextWorker = p.nextWorker) (hholding : ∀ t, q.holding? t = p.holding? t)
    (hidle : (w ∈ q.idle ↔ x = .idle) ∧ ∀ v, v ≠ w → (v ∈ q.idle ↔ v ∈ p.idle))
    (hidle_distinct : q.idle.Nodup) (hactive : q.active = p.active - 1) :
    (∃ place', Staffed place' (ws.erase w) q) ∧ q.active + 1 = p.active := by
  have hin : w ∈ ws := by
    rw [h.held, hw]
    rfl
  have hlength := List.length_erase_of_mem hin
  have hpos := List.length_pos_of_mem hin
  have hcount := h.active
  refine ⟨h.shifted (by rw [hw]; exact ⟨nofun, nofun⟩) ?_ hworkers hnext hholding hidle ⟨?_, ?_⟩
    hidle_distinct (h.held_distinct.erase w) (by omega), by omega⟩
  · rcases hx with rfl | rfl <;> exact ⟨nofun, nofun⟩
  · rw [h.held_distinct.mem_erase_iff]
    rcases hx with rfl | rfl <;> exact ⟨fun hmem => absurd rfl hmem.1, nofun⟩
  · intro v hv
    rw [h.held_distinct.mem_erase_iff]
    exact ⟨fun hmem => hmem.2, fun hmem => ⟨hv, hmem⟩⟩

/-- a submission that puts its task into the inbox of its worker -/
theorem handedOver (h : Staffed place ws p) {ticket w : Nat} (hgiven : p.holding? ticket = some w)
    (hworkers : q.workers.get? w = some ⟨[.run ticket], .waiting⟩ ∧
      ∀ v, v ≠ w → q.workers.get? v = p.workers.get? v)
    (hnext : q.nextWorker = p.nextWorker) (hidle : q.idle = p.idle)
    (hholding : ∀ t, q.holding? t = if t = ticket then none else p.holding? t)
    (hactive : q.active = p.active) : ∃ place', Staffed place' ws q := by
  have hw := (h.given w ticket).mp hgiven
  refine ⟨_, h.moved w (.assigned ticket) hworkers ⟨?_, fun v _ => by rw [hnext]⟩
    ⟨?_, fun v _ => by rw [hidle]⟩ (fun t => ⟨?_, ?_⟩) ⟨?_, fun v _ => Iff.rfl⟩
    (hidle ▸ h.idle_distinct) h.held_distinct (hactive.trans h.active)⟩
  · rw [hnext, h.unborn, hw]
    exact ⟨nofun, nofun⟩
  · rw [hidle, h.idle, hw]
    exact ⟨nofun, nofun⟩
  · rw [hholding]
    split
    · exact ⟨nofun, nofun⟩
    · rename_i ht
      rw [h.given, hw]
      exact ⟨fun heq => absurd (Place.given.inj heq).symm ht, nofun⟩
  · intro v hv
    rw [hholding]
    split
    · rename_i ht
      rw [ht, hgiven]
      exact ⟨nofun, fun heq => absurd (Option.some.inj heq).symm hv⟩
    · exact Iff.rfl
  · rw [h.held, hw]
    exact ⟨fun _ => rfl, fun _ => rfl⟩

theorem get?_sendStops {idle : List Nat} (hidle : idle.Nodup) (p : Pool τ α) (w : Nat) :
    (idle.foldl sendStop p).workers.get? w =
      if w ∈ idle then
        (p.workers.get? w).map fun x => { x with inbox := x.inbox ++ [.stop] }
      else p.workers.get? w := by
  induction idle generalizing p with
  | nil => rfl
  | cons v idle ih =>
    obtain ⟨hv, hrest⟩ := List.nodup_cons.mp hidle
    have hsent : (p.sendStop v).workers.get? w =
        if w = v then (p.workers.get? v).map fun x => { x with inbox := x.inbox ++ [.stop] }
        else p.workers.get? w := by
      rw [sendStop]
      cases hfound : p.workers.get? v with
      | none =>
        by_cases hw : w = v
        · rw [if_pos hw, hw, hfound]
          rfl
        · rw [if_neg hw]
      | some x => exact Table.get?_put _ _ _ _
    rw [List.foldl_cons, ih hrest, hsent]
    by_cases hw : w = v
    · subst hw
      rw [if_neg hv, if_pos rfl, if_pos List.mem_cons_self]
    · rw [if_neg hw]
      by_cases hin : w ∈ idle
      · rw [if_pos hin, if_pos (List.mem_cons_of_mem v hin)]
      · rw [if_neg hin, if_neg (fun hmem => hin ((List.mem_cons.mp hmem).resolve_left hw))]

/-- All idle workers are told to stop. -/
theorem stopped (h : Staffed place ws p)
    (hworkers : q.workers = (p.idle.foldl sendStop { p with down := true, idle := [] }).workers)
    (hidle : q.idle = []) (hactive : q.active = p.active) (hnext : q.nextWorker = p.nextWorker)
    (hholding : ∀ t, q.holding? t = p.holding? t) : ∃ place', Staffed place' ws q := by
  refine ⟨fun w => if place w = .idle then .told else place w, ?_⟩
  exact {
    worker w := by
      rw [hworkers, get?_sendStops h.idle_distinct]
      split
      · rename_i hw
        rw [if_pos ((h.idle w).mp hw), h.worker, (h.idle w).mp hw]
        rfl
      · rename_i hw
        rw [if_neg fun heq => hw ((h.idle w).mpr heq)]
        exact h.worker w
    unborn w := by
      rw [hnext, h.unborn]
      split
      · rename_i hw
        rw [hw]
        exact iff_of_false Place.noConfusion Place.noConfusion
      · exact Iff.rfl
    idle w := by
      rw [hidle]
      split
      · exact iff_of_false List.not_mem_nil Place.noConfusion
      · rename_i hw
        exact ⟨fun hin => absurd hin List.not_mem_nil, fun heq => absurd heq hw⟩
    given w t := by
      rw [hholding, h.given]
      split
      · rename_i hw
        rw [hw]
        exact iff_of_false Place.noConfusion Place.noConfusion
      · exact Iff.rfl
    held w := by
      rw [h.held]
      split
      · rename_i hw
        rw [hw]
        exact Iff.rfl
      · exact Iff.rfl
    idle_distinct := hidle ▸ List.nodup_nil
    held_distinct := h.held_distinct
    active := hactive.trans h.active }

/-- Every move leaves each worker in one place, and changes the number of active workers by exactly
the turns in it. -/
theorem move {turns : List Turn} (h : Staffed place ws p) (hm : Move p q turns) :
    (∃ place', Staffed place' (turns.foldl Turn.settle ws) q) ∧
      q.active + turns.countP Turn.isReturned = p.active + turns.countP Turn.isAcquired := by
  have hput {w : Nat} {x : Worker} (hworkers : q.workers = p.workers.put w x) :
      q.workers.get? w = some x ∧ ∀ v, v ≠ w → q.workers.get? v = p.workers.get? v := by
    refine ⟨?_, fun v hv => ?_⟩
    · rw [hworkers, Table.get?_put, if_pos rfl]
    · rw [hworkers, Table.get?_put, if_neg hv]
  cases hm with
  | still crew holding => exact ⟨⟨place, h.congr crew holding⟩, crew.active⟩
  | reuse ticket w rest up free idle crew before holding =>
    have hdistinct := h.idle_distinct
    rw [idle, List.nodup_cons] at hdistinct
    have hw : place w = .idle := (h.idle w).mp (by rw [idle]; exact List.mem_cons_self)
    refine ⟨h.acquired (.inl hw) before ⟨?_, fun v _ => by rw [crew.workers]⟩
      ⟨?_, fun v _ => by rw [crew.nextWorker]⟩ ⟨?_, fun v hv => ?_⟩ holding
      (crew.idle ▸ hdistinct.2) crew.active, crew.active⟩
    · rw [crew.workers, h.worker, hw]
      rfl
    · rw [crew.nextWorker]
      refine Nat.lt_of_not_le fun hle => ?_
      rw [h.unborn, hw] at hle
      cases hle
    · rw [crew.idle]
      exact hdistinct.1
    · rw [crew.idle, idle, List.mem_cons]
      exact ⟨.inr, fun hin => hin.resolve_left hv⟩
  | start ticket up free idle crew before holding =>
    have hw := (h.unborn p.nextWorker).mp (Nat.le_refl _)
    refine ⟨h.acquired (.inr hw) before (hput crew.workers) ⟨?_, fun v hv => ?_⟩
      ⟨?_, fun v _ => by rw [crew.idle]⟩ holding (crew.idle ▸ h.idle_distinct) crew.active,
      crew.active⟩
    · rw [crew.nextWorker]
      exact Nat.lt_succ_self _
    · rw [crew.nextWorker]
      exact ⟨fun hle => Nat.le_of_succ_le hle, fun hle => Nat.lt_of_le_of_ne hle (Ne.symm hv)⟩
    · rw [crew.idle, idle]
      exact List.not_mem_nil
  | miss up free idle crew holding => exact ⟨h.missed crew holding, crew.active⟩
  | handOver ticket w x given found alive crew holding =>
    have hx := h.worker w
    rw [(h.given w ticket).mp given, found] at hx
    cases hx
    exact ⟨h.handedOver given (hput crew.workers) crew.nextWorker crew.idle holding crew.active,
      crew.active⟩
  | lose ticket w given gone crew holding =>
    -- a worker that a submission holds has not ended
    have hx := h.worker w
    rw [(h.given w ticket).mp given] at hx
    cases gone _ hx
  | work w x x' found works crew holding =>
    obtain ⟨y, hy, hheld, hborn, hborn', hbusy, hbusy', hgiven⟩ :=
      Place.works ((h.worker w).symm.trans found) works
    refine ⟨h.shifted ⟨hborn', fun t => (hgiven t).2⟩ ⟨hborn, fun t => (hgiven t).1⟩
      (hy ▸ hput crew.workers) crew.nextWorker holding ⟨?_, fun v _ => by rw [crew.idle]⟩
      ⟨?_, fun v _ => Iff.rfl⟩ (crew.idle ▸ h.idle_distinct) h.held_distinct
      (crew.active.trans h.active), crew.active⟩
    · rw [crew.idle, h.idle]
      exact ⟨fun heq => absurd heq hbusy', fun heq => absurd heq hbusy⟩
    · rw [hheld]
      exact h.held w
  | keep w inbox found up room crew holding =>
    obtain ⟨hw, rfl⟩ := Place.eq_returning ((h.worker w).symm.trans found)
    have hbusy : w ∉ p.idle := by
      rw [h.idle, hw]
      nofun
    refine h.returned (x := .idle) hw (.inl rfl) (hput crew.workers) crew.nextWorker holding
      ⟨?_, fun v hv => ?_⟩ (crew.idle ▸ List.nodup_cons.mpr ⟨hbusy, h.idle_distinct⟩) crew.active
    · rw [crew.idle]
      exact ⟨fun _ => rfl, fun _ => List.mem_cons_self⟩
    · rw [crew.idle, List.mem_cons]
      exact ⟨fun hin => hin.resolve_left hv, .inr⟩
  | dismiss w inbox found crew holding =>
    obtain ⟨hw, -⟩ := Place.eq_returning ((h.worker w).symm.trans found)
    refine h.returned (x := .ended) hw (.inr rfl) (hput crew.workers) crew.nextWorker holding
      ⟨?_, fun v _ => by rw [crew.idle]⟩ (crew.idle ▸ h.idle_distinct) crew.active
    rw [crew.idle, h.idle, hw]
    exact ⟨nofun, nofun⟩
  | shutDown up crew holding =>
    exact ⟨h.stopped crew.workers crew.idle crew.active crew.nextWorker holding, crew.active⟩

end Staffed

/-! ## the books -/

variable {p q : Pool τ α} {turns : List Turn}

/-- Idle and active workers are as few as the settings say. -/
structure Within (p : Pool τ α) : Prop where
  active_le : p.active ≤ p.settings.maxActive
  idle_le : p.idle.length ≤ p.settings.maxIdle
  total_le : p.active + p.idle.length ≤ p.settings.maxActive
  down : p.down = true → p.idle = []

theorem within_empty (settings : PoolSettings) : (empty settings : Pool τ α).Within :=
  ⟨Nat.zero_le _, Nat.zero_le _, Nat.zero_le _, fun _ => rfl⟩

theorem Crew.within {idle : List Nat} {active nextWorker : Nat} {down : Bool}
    {workers : Table Nat Worker} (crew : Crew p q idle active nextWorker down workers)
    (hactive : active ≤ p.settings.maxActive) (hidle : idle.length ≤ p.settings.maxIdle)
    (htotal : active + idle.length ≤ p.settings.maxActive) (hdown : down = true → idle = []) :
    q.Within := by
  obtain ⟨hsettings, rfl, rfl, -, rfl, -⟩ := crew
  rw [← hsettings] at hactive hidle htotal
  exact ⟨hactive, hidle, htotal, hdown⟩

/-- A new worker is started only when none is idle, and a worker becomes idle only when it ceases to
be active. So there are never more of both kinds than may be active. -/
theorem Within.move (h : p.Within) (hm : Move p q turns)
    (hbalance : q.active + turns.countP Turn.isReturned = p.active + turns.countP Turn.isAcquired) :
    q.Within := by
  obtain ⟨hactive, hidle, htotal, hdown⟩ := h
  have hup {P : Prop} (h : p.down = false) (h' : p.down = true) : P := by
    rw [h] at h'
    cases h'
  cases hm with
  | still crew holding => exact crew.within hactive hidle htotal hdown
  | reuse ticket w rest up free idle crew before holding =>
    rw [idle, List.length_cons] at hidle htotal
    exact crew.within free (by omega) (by omega) (hup up)
  | start ticket up free idle crew before holding =>
    refine crew.within free hidle ?_ (hup up)
    rw [idle]
    exact free
  | miss up free idle crew holding => exact crew.within hactive hidle htotal (hup up)
  | handOver ticket w x given found alive crew holding =>
    exact crew.within hactive hidle htotal hdown
  | lose ticket w given gone crew holding =>
    exact crew.within (by omega) hidle (by omega) hdown
  | work w x x' found works crew holding => exact crew.within hactive hidle htotal hdown
  | keep w inbox found up room crew holding =>
    -- the returned worker was among the active ones
    replace hbalance : q.active + 1 = p.active := hbalance
    have hless := crew.active
    refine crew.within (by omega) room ?_ (hup up)
    rw [List.length_cons]
    omega
  | dismiss w inbox found crew holding => exact crew.within (by omega) hidle (by omega) hdown
  | shutDown up crew holding => exact crew.within hactive (Nat.zero_le _) hactive fun _ => rfl

/-- Nobody gets a worker of a pool that is shut down. -/
theorem Move.closed (hm : Move p q turns) (hdown : p.down = true) :
    q.down = true ∧ ∀ w, Turn.acquired w ∉ turns := by
  have hup {P : Prop} (h : p.down = false) : P := by
    rw [h] at hdown
    cases hdown
  cases hm with
  | still crew holding => exact ⟨crew.down.trans hdown, fun w => List.not_mem_nil⟩
  | reuse ticket w rest up free idle crew before holding => exact hup up
  | start ticket up free idle crew before holding => exact hup up
  | miss up free idle crew holding => exact hup up
  | handOver ticket w x given found alive crew holding =>
    exact ⟨crew.down.trans hdown, fun w => List.not_mem_nil⟩
  | lose ticket w given gone crew holding => exact ⟨crew.down.trans hdown, fun w => by simp⟩
  | work w x x' found works crew holding =>
    exact ⟨crew.down.trans hdown, fun w => List.not_mem_nil⟩
  | keep w inbox found up room crew holding => exact hup up
  | dismiss w inbox found crew holding => exact ⟨crew.down.trans hdown, fun w => by simp⟩
  | shutDown up crew holding => exact hup up

/-- Numbers are given out one after the other. -/
theorem Move.numbered (hm : Move p q turns) :
    List.range p.nextWorker ++ numbersIn turns = List.range q.nextWorker := by
  have hsame {turns : List Turn} (hturns : numbersIn turns = [])
      (hnext : q.nextWorker = p.nextWorker) :
      List.range p.nextWorker ++ numbersIn turns = List.range q.nextWorker := by
    rw [hturns, List.append_nil, hnext]
  cases hm with
  | still crew holding => exact hsame rfl crew.nextWorker
  | reuse ticket w rest up free idle crew before holding => exact hsame rfl crew.nextWorker
  | start ticket up free idle crew before holding =>
    rw [crew.nextWorker, List.range_succ]
    rfl
  | miss up free idle crew holding =>
    rw [crew.nextWorker, List.range_succ]
    rfl
  | handOver ticket w x given found alive crew holding => exact hsame rfl crew.nextWorker
  | lose ticket w given gone crew holding => exact hsame rfl crew.nextWorker
  | work w x x' found works crew holding => exact hsame rfl crew.nextWorker
  | keep w inbox found up room crew holding => exact hsame rfl crew.nextWorker
  | dismiss w inbox found crew holding => exact hsame rfl crew.nextWorker
  | shutDown up crew holding => exact hsame rfl crew.nextWorker

theorem Move.settings (hm : Move p q turns) : q.settings = p.settings := by
  cases hm with
  | still crew => exact crew.settings
  | reuse _ _ _ _ _ _ crew => exact crew.settings
  | start _ _ _ _ crew => exact crew.settings
  | miss _ _ _ crew => exact crew.settings
  | handOver _ _ _ _ _ _ crew => exact crew.settings
  | lose _ _ _ _ crew => exact crew.settings
  | work _ _ _ _ _ crew => exact crew.settings
  | keep _ _ _ _ _ crew => exact crew.settings
  | dismiss _ _ _ crew => exact crew.settings
  | shutDown _ crew => exact crew.settings

/-- The state of a pool agrees with the turns so far. -/
structure Booked (turns : List Turn) (p : Pool τ α) : Prop where
  ticketed : p.Ticketed
  staffed : ∃ place, Staffed place (held turns) p
  within : p.Within
  numbered : numbersIn turns = List.range p.nextWorker

theorem booked_empty (settings : PoolSettings) : Booked [] (empty settings : Pool τ α) :=
  ⟨ticketed_empty settings, ⟨_, staffed_empty settings⟩, within_empty settings, rfl⟩

namespace Booked

variable {later : List Turn} {actions : List (Action τ α)}

/-- one step -/
theorem perform (h : Booked turns p) {a : Action τ α} (hq : p.perform a = some q) :
    Booked (turns ++ p.turns q a) q ∧
      q.active + (p.turns q a).countP Turn.isReturned =
        p.active + (p.turns q a).countP Turn.isAcquired := by
  obtain ⟨hmove, hticketed⟩ := move_perform h.ticketed hq
  obtain ⟨place, hstaffed⟩ := h.staffed
  obtain ⟨hstaffed', hbalance⟩ := hstaffed.move hmove
  refine ⟨⟨hticketed, ?_, h.within.move hmove hbalance, ?_⟩, hbalance⟩
  · rw [held, List.foldl_append]
    exact hstaffed'
  · rw [numbersIn_append, h.numbered]
    exact hmove.numbered

/-- and therefore a whole run -/
theorem run (h : Booked turns p) (hrun : p.run actions = some (later, q)) :
    Booked (turns ++ later) q ∧ q.settings = p.settings := by
  induction actions generalizing p turns later with
  | nil =>
    cases hrun
    rw [List.append_nil]
    exact ⟨h, rfl⟩
  | cons a actions ih =>
    obtain ⟨r, rest, hr, hrest, rfl⟩ := run_cons hrun
    obtain ⟨hbooked, hsettings⟩ := ih (h.perform hr).1 hrest
    rw [← List.append_assoc]
    exact ⟨hbooked, hsettings.trans (move_perform h.ticketed hr).1.settings⟩

/-- A pool that is shut down stays so. -/
theorem closed (h : Booked turns p) (hdown : p.down = true)
    (hrun : p.run actions = some (later, q)) :
    q.down = true ∧ ∀ w, Turn.acquired w ∉ later := by
  induction actions generalizing p turns later with
  | nil =>
    cases hrun
    exact ⟨hdown, fun w => List.not_mem_nil⟩
  | cons a actions ih =>
    obtain ⟨r, rest, hr, hrest, rfl⟩ := run_cons hrun
    obtain ⟨hdown', hnone⟩ := (move_perform h.ticketed hr).1.closed hdown
    obtain ⟨hend, hnone'⟩ := ih (h.perform hr).1 hdown' hrest
    refine ⟨hend, fun w hw => ?_⟩
    exact (List.mem_append.mp hw).elim (hnone w) (hnone' w)

end Booked

/-- The numbers of a pool that has made these turns. -/
structure Accounted (settings : PoolSettings) (turns : List Turn) (p : Pool τ α) : Prop where
  /-- the active workers are those acquired and not given back since -/
  active : p.active = (held turns).length
  active_le : p.active ≤ settings.maxActive
  idle_le : p.idle.length ≤ settings.maxIdle
  total_le : p.active + p.idle.length ≤ settings.maxActive
  /-- nobody is held twice, or idle twice, or both -/
  apart : (held turns ++ p.idle).Nodup
  /-- each number is given out once, also those of workers that could not be started -/
  numbered : numbersIn turns = List.range p.nextWorker
  down : p.down = true → p.idle = []

theorem Booked.accounted (h : Booked turns p) : Accounted p.settings turns p := by
  obtain ⟨place, hstaffed⟩ := h.staffed
  exact {
    active := hstaffed.active
    active_le := h.within.active_le
    idle_le := h.within.idle_le
    total_le := h.within.total_le
    apart := hstaffed.apart
    numbered := h.numbered
    down := h.within.down }

/-- Whatever submissions, workers and the user do in whichever order, the numbers are right. In each
further step the number of active workers goes up by those acquired and down by those given back, so
that there always is one to take off; a worker that could not be started does not count. Once the
pool is shut down, it has no idle workers and nobody acquires one any more. -/
theorem accounted_of_run {settings : PoolSettings} {actions : List (Action τ α)}
    (hcreate : create settings = .ok p) (hrun : p.run actions = some (turns, q)) :
    Accounted settings turns q ∧
      (∀ a r, q.perform a = some r →
        r.active + (q.turns r a).countP Turn.isReturned =
          q.active + (q.turns r a).countP Turn.isAcquired) ∧
      (q.down = true → ∀ more later r, q.run more = some (later, r) →
        r.down = true ∧ r.idle = [] ∧ ∀ w, Turn.acquired w ∉ later) := by
  have hempty : p = empty settings := by
    rw [create] at hcreate
    cases hcheck : settings.check with
    | error e =>
      rw [hcheck] at hcreate
      cases hcreate
    | ok u =>
      rw [hcheck] at hcreate
      cases hcreate
      rfl
  subst hempty
  obtain ⟨hbooked, hsettings⟩ := (booked_empty settings).run hrun
  rw [List.nil_append] at hbooked
  replace hsettings : q.settings = settings := hsettings
  refine ⟨hsettings ▸ hbooked.accounted, fun a r hr => (hbooked.perform hr).2, ?_⟩
  intro hdown more later r hmore
  obtain ⟨hdown', hnone⟩ := hbooked.closed hdown hmore
  exact ⟨hdown', (hbooked.run hmore).1.within.down hdown', hnone⟩

/-- Two submissions use the same worker one after the other. A third one waits for it and is turned
away when the pool is shut down, before the worker is given back for the last time. -/
def reuse : List (Action Nat Nat) :=
  [.submit 7 none false none, .handOver 0 none, .take 0, .finish 0 (.value 14), .giveBack 0 none,
    .submit 8 none true none, .submit 9 none true none, .handOver 1 none, .take 0, .shutDown,
    .wake 2 none, .finish 0 (.panicked none), .giveBack 0 none]

theorem accounted_of_run_reuse :
    ∃ q : Pool Nat Nat,
      create ⟨"pool", 1, 1⟩ = .ok (empty ⟨"pool", 1, 1⟩ : Pool Nat Nat) ∧
      run (empty ⟨"pool", 1, 1⟩) reuse =
        some ([.started 0, .acquired 0, .returned 0, .acquired 0, .returned 0], q) ∧
      q.down = true ∧
      Accounted ⟨"pool", 1, 1⟩
        [.started 0, .acquired 0, .returned 0, .acquired 0, .returned 0] q := by
  have hrun : (run (empty ⟨"pool", 1, 1⟩) reuse).map (fun r => (r.1, r.2.down)) =
      some ([.started 0, .acquired 0, .returned 0, .acquired 0, .returned 0], true) := by
    decide +kernel
  obtain ⟨⟨turns, q⟩, hrun, heq⟩ := Option.map_eq_some_iff.mp hrun
  obtain ⟨rfl, hdown⟩ := Prod.mk.inj heq
  exact ⟨q, rfl, hrun, hdown, (accounted_of_run rfl hrun).1⟩

end BundleLink.Pool
