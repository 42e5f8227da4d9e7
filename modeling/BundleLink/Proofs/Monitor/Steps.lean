import BundleLink.Monitor.Basic
import BundleLink.Proofs.Network.Claims
import BundleLink.Proofs.Pool.Fates
import Mathlib.Data.List.Nodup

/-!
# A monitor step by step

The scanner, the workers, those who claim links for themselves and those who use them take their
steps in any order, and starting a new worker may fail at any time. What the scanner knows may be
out of date by the time it acts on it: the link that it claims may have left the roster since, and a
link that is closed may have been open when the pool looked at it.

* `Monitor.offer`, `Monitor.conclude`  a submission with any objection, and the end of a task with
  any outcome;
* `Monitor.Step`, `Monitor.Reachable`  all that can happen;
* `Monitor.links`      the links of all claims;
* `Monitor.Ledger`     the links that are claimed are those of the claims, each of them once;
* `Ledger.grant`, `Ledger.drop`, `Ledger.pass`  what becomes of it.
-/

namespace BundleLink.Monitor

variable {τ : Type}

/-! ## steps -/

/-- The scanner submits the task of receiving on the link that it holds the claim of, and this is
what the task has against the link. -/
def offer (objection hindrance : Option String) (m : Monitor τ) : Option (Monitor τ) :=
  match m.scanner with
  | .holding link =>
    let (ticket, pool) := m.pool.submit ⟨link⟩ objection true hindrance
    some (({ m with pool := pool }.pass link .scanner (.task ticket)).follow ticket link)
  | _ => none

theorem submit_eq_offer {m : Monitor τ} {link : Nat} (h : m.scanner = .holding link)
    (hindrance : Option String) :
    m.submit hindrance = m.offer (m.objection link) hindrance := by
  rw [submit, offer, h]

theorem offer_eq {m : Monitor τ} {link : Nat} (h : m.scanner = .holding link)
    (objection hindrance : Option String) :
    m.offer objection hindrance =
      some (({ m with
          pool := (m.pool.submit (⟨link⟩ : ReceiveTask) objection true hindrance).2 }.pass link
        .scanner (.task m.pool.nextTicket)).follow m.pool.nextTicket link) := by
  rw [offer, h, ← Pool.submit_fst m.pool (⟨link⟩ : ReceiveTask) objection true hindrance]

/-- A running task ends, whether or not it has received anything. -/
def conclude (worker : Nat) (outcome : TaskOutcome Unit) (m : Monitor τ) : Option (Monitor τ) :=
  match m.pool.workerState? worker with
  | some (.running ticket) => do
    let link ← m.linkOf ticket
    let pool ← m.pool.finish worker outcome
    return { m with pool := pool }.drop link (.task ticket)
  | _ => none

inductive Step [Channel τ] (m : Monitor τ) : Monitor τ → Prop
  | claim {link : Nat} {m' : Monitor τ} (done : m.claim link = some m') : Step m m'
  | unclaim {link : Nat} {m' : Monitor τ} (done : m.unclaim link = some m') : Step m m'
  | use {network : Network τ} (used : m.network.Use network) : Step m { m with network := network }
  | scan {m' : Monitor τ} (done : m.scan = some m') : Step m m'
  /-- the scanner claims a link that was on the roster when it looked -/
  | seize {link : Nat} {m' : Monitor τ} (looking : m.scanner = .looking)
      (granted : m.grant link .scanner = some m') : Step m { m' with scanner := .holding link }
  | submit {hindrance : Option String} {m' : Monitor τ} (done : m.submit hindrance = some m') :
      Step m m'
  /-- the link was closed, or not yet closed, when the task was asked -/
  | offer {hindrance : Option String} {m' : Monitor τ} (objection : Option String)
      (done : m.offer objection hindrance = some m') : Step m m'
  | stir {ticket : Nat} {pool : Pool ReceiveTask Unit} (done : m.pool.stir ticket = some pool) :
      Step m { m with pool := pool }
  | wake {hindrance : Option String} {m' : Monitor τ} (done : m.wake hindrance = some m') :
      Step m m'
  | handOver {m' : Monitor τ} (done : m.handOver = some m') : Step m m'
  | take {worker : Nat} {m' : Monitor τ} (done : m.take worker = some m') : Step m m'
  | finish {worker : Nat} {m' : Monitor τ} (done : m.finish worker = some m') : Step m m'
  /-- a running task panics before it receives, or it has received in a step of its own -/
  | conclude {worker : Nat} {m' : Monitor τ} (outcome : TaskOutcome Unit)
      (done : m.conclude worker outcome = some m') : Step m m'
  | giveBack {worker : Nat} {m' : Monitor τ} (done : m.giveBack worker = some m') : Step m m'
  | halt {m' : Monitor τ} (done : m.halt = some m') : Step m m'
  /-- the scanner is told to stop before the pool is shut down -/
  | quit (looking : m.scanner = .looking) : Step m { m with scanner := .stopped }
  | shutDown : Step m m.shutDown

/-- What a monitor can get to that is started on a network in use, before anybody claims a link. -/
inductive Reachable [Channel τ] (settings : MonitorSettings) : Monitor τ → Prop
  | start {network : Network τ} {m : Monitor τ} (reachable : network.Reachable)
      (unclaimed : ∀ id, network.claimed? id ≠ some true)
      (started : start settings network = .ok m) : Reachable settings m
  | step {m m' : Monitor τ} (before : Reachable settings m) (taken : Step m m') :
      Reachable settings m'

/-! ## claims and flags -/

/-- the links of all claims -/
def links (m : Monitor τ) : List Nat := m.claims.map Claim.link

theorem mem_links {m : Monitor τ} {id : Nat} : id ∈ m.links ↔ ∃ h, ⟨id, h⟩ ∈ m.claims := by
  rw [links, List.mem_map]
  constructor
  · rintro ⟨⟨link, h⟩, hmem, rfl⟩
    exact ⟨h, hmem⟩
  · rintro ⟨h, hmem⟩
    exact ⟨⟨id, h⟩, hmem, rfl⟩

/-- A link is claimed exactly if it is one of these, which are all different. -/
structure Ledger (n : Network τ) (ids : List Nat) : Prop where
  enrolled : n.Enrolled
  flags : ∀ id, n.claimed? id = some true ↔ id ∈ ids
  single : ids.Nodup

namespace Ledger

variable {n n' : Network τ} {ids ids' : List Nat} {m m' : Monitor τ} {id : Nat} {holder : Holder}

theorem perm (h : Ledger n ids) (hperm : ids.Perm ids') : Ledger n ids' :=
  ⟨h.enrolled, fun id => (h.flags id).trans hperm.mem_iff, hperm.nodup_iff.mp h.single⟩

theorem use [Channel τ] (h : Ledger n ids) (hu : n.Use n') : Ledger n' ids := by
  refine ⟨h.enrolled.step hu.step, fun id => ?_, h.single⟩
  rw [← h.flags]
  rcases hu.claimed? h.enrolled id with hsame | ⟨hnone, hnew⟩
  · rw [hsame]
  · rw [hnone, hnew]
    exact iff_of_false nofun nofun

/-- Claims are granted for links that are not claimed. -/
theorem grant (h : Ledger m.network m.links) (hgrant : m.grant id holder = some m') :
    ∃ network, m' = { m with network := network, claims := ⟨id, holder⟩ :: m.claims } ∧
      Ledger network (id :: m.links) := by
  rw [Monitor.grant] at hgrant
  cases hs : m.network.stations.get? id with
  | none =>
    rw [Network.alter, hs] at hgrant
    cases hgrant
  | some s =>
    rw [Network.alter_eq hs] at hgrant
    cases hclaimed : s.link.claimed with
    | true =>
      rw [Link.tryClaim, hclaimed] at hgrant
      cases hgrant
    | false =>
      rw [Link.tryClaim, hclaimed] at hgrant
      cases hgrant
      have hid : id ∉ m.links := by
        rw [← h.flags, Network.claimed?_of_get? hs, hclaimed]
        simp
      refine ⟨_, rfl, h.enrolled.put hs _, fun j => ?_, List.nodup_cons.mpr ⟨hid, h.single⟩⟩
      rw [Network.claimed?_put, List.mem_cons, ← h.flags]
      split
      · rename_i hj
        exact ⟨fun _ => .inl hj, fun _ => rfl⟩
      · rename_i hj
        exact ⟨.inr, fun hmem => hmem.resolve_left hj⟩

/-- … and for all of these. -/
theorem exists_grant (hclaimed : m.network.claimed? id = some false) (holder : Holder) :
    ∃ m', m.grant id holder = some m' := by
  obtain ⟨l, hl, hfalse⟩ := Option.map_eq_some_iff.mp hclaimed
  obtain ⟨s, hs, rfl⟩ := Option.map_eq_some_iff.mp hl
  rw [Monitor.grant, Network.alter_eq hs, Link.tryClaim, hfalse]
  exact ⟨_, rfl⟩

theorem links_erase (hmem : ⟨id, holder⟩ ∈ m.claims) :
    m.links.Perm (id :: (m.claims.erase ⟨id, holder⟩).map Claim.link) :=
  (List.perm_cons_erase hmem).map Claim.link

/-- A claim that is given up leaves the link unclaimed. -/
theorem drop (h : Ledger m.network m.links) (hmem : ⟨id, holder⟩ ∈ m.claims) :
    ∃ network, m.drop id holder =
        { m with network := network, claims := m.claims.erase ⟨id, holder⟩ } ∧
      Ledger network ((m.claims.erase ⟨id, holder⟩).map Claim.link) ∧
      network.claimed? id = some false := by
  have hclaimed := (h.flags id).mpr (mem_links.mpr ⟨holder, hmem⟩)
  obtain ⟨l, hl, -⟩ := Option.map_eq_some_iff.mp hclaimed
  obtain ⟨s, hs, rfl⟩ := Option.map_eq_some_iff.mp hl
  have hperm := h.perm (links_erase hmem)
  obtain ⟨hid, hrest⟩ := List.nodup_cons.mp hperm.single
  have hflag := Network.claimed?_put m.network id { s with link := s.link.unclaim }
  rw [Monitor.drop, Network.alter_eq hs]
  refine ⟨_, rfl, ⟨h.enrolled.put hs _, fun j => ?_, hrest⟩, (hflag id).trans (if_pos rfl)⟩
  rw [hflag]
  split
  · rename_i hj
    subst hj
    exact iff_of_false nofun hid
  · rename_i hj
    rw [hperm.flags, List.mem_cons]
    exact ⟨fun hmem => hmem.resolve_left hj, .inr⟩

/-- A claim that is passed on stays the claim of its link. -/
theorem pass (h : Ledger m.network m.links) {target : Holder} (hmem : ⟨id, holder⟩ ∈ m.claims) :
    Ledger (m.pass id holder target).network (m.pass id holder target).links :=
  h.perm (links_erase hmem)

/-- No two claims are for the same link. -/
theorem eq_of_mem (h : Ledger m.network m.links) {other : Holder} (hmem : ⟨id, holder⟩ ∈ m.claims)
    (hmem' : ⟨id, other⟩ ∈ m.claims) : holder = other :=
  (Claim.mk.inj (List.inj_on_of_nodup_map h.single hmem hmem' rfl)).2

theorem mem_erase (h : Ledger m.network m.links) {c c' : Claim} :
    c ∈ m.claims.erase c' ↔ c ≠ c' ∧ c ∈ m.claims :=
  (List.Nodup.of_map Claim.link h.single).mem_erase_iff

end Ledger

end BundleLink.Monitor
