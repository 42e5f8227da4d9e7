import BundleLink.Proofs.Network.Basic

/-!
# Who may receive

Whether a link is claimed is changed by claims and by nothing else: not by writes and receives,
however they end, not by closing the link, and not by whatever happens to other links.

* `Attached.call_claimed`   no operation on the channel changes it;
* `Network.claimed?`        whether a link is claimed;
* `Network.Enrolled`        no link has a number that is still to be given out;
* `Network.Use`             what can happen to a network apart from claims;
* `Network.Use.claimed?`    it changes no link that is there already, and new links are not claimed.
-/

namespace BundleLink

open Pair (Operation)

theorem Link.serve_claimed (l : Link) (op : Operation) : (l.serve op).2.claimed = l.claimed := by
  cases op with
  | read =>
    show l.read.2.claimed = _
    rw [read]
    split <;> rfl
  | readInto buffer =>
    show (l.readInto buffer).2.2.claimed = _
    rw [readInto]
    split
    · rfl
    · split <;> rfl
  | readText =>
    show l.readText.2.claimed = _
    rw [readText]
    split
    · rfl
    · split <;> rfl
  | setFragmentSize size =>
    show (l.setFragmentSize size).2.claimed = _
    rw [setFragmentSize]
    split <;> rfl
  | advanceGeneration =>
    show l.advanceGeneration.2.claimed = _
    rw [advanceGeneration]
    split <;> rfl
  | _ => rfl

theorem Link.serveHalted_claimed (l : Link) (op : Operation) :
    (l.serveHalted op).2.claimed = l.claimed := by
  cases op with
  | read => exact l.serve_claimed .read
  | readInto buffer => exact l.serve_claimed (.readInto buffer)
  | readText => exact l.serve_claimed .readText
  | _ => rfl

namespace Attached

variable {σ : Type} [Channel σ]

theorem handleAll_claimed (now : Moment) (count : Nat) (ps : List Wire.Piece) (a : Attached σ) :
    (handleAll now count ps a).after.link.claimed = a.link.claimed := by
  induction ps generalizing count a with
  | nil => rfl
  | cons p ps ih =>
    cases p with
    | skipped size flaw => exact ih count (a.warn (.dropped size a.link.description flaw))
    | fragment f wire =>
      have hturns := handle_turns f now (a.arrived now)
      rw [handleAll]
      generalize handle f now (a.arrived now) = r at hturns
      cases r with
      | ok _ b =>
        obtain ⟨bundle, hb⟩ := hturns
        have hcore := congrArg Link.claimed hb.core
        exact (ih (count + 1) b).trans hcore
      | error e b =>
        have hb : Broken e (a.arrived now) b := hturns
        have hcore := congrArg Link.claimed hb.core
        exact hcore

theorem receiveBundles_claimed (now : Moment) (a : Attached σ) :
    (receiveBundles now a).after.link.claimed = a.link.claimed := by
  cases hended : a.intake.ended with
  | error e =>
    rw [receiveBundles_failed hended]
    rfl
  | ok ended =>
    have hall := handleAll_claimed now 0 a.pieces a.loaded
    cases hr : handleAll now 0 a.pieces a.loaded with
    | error e b =>
      rw [hr] at hall
      rw [receiveBundles_broken hended hr]
      exact hall
    | ok count b =>
      rw [hr] at hall
      rw [receiveBundles_handled hended hr]
      have hcore := congrArg Link.claimed (conclude_purged now ended count b).core
      exact hcore.trans hall

theorem writeBundle_claimed (buffer : Bytes) (flushNow : Bool) (now : Moment) (a : Attached σ) :
    (writeBundle buffer flushNow now a).after.link.claimed = a.link.claimed := by
  have hmeets := writeBundle_issued buffer flushNow now a
  generalize writeBundle buffer flushNow now a = r at hmeets
  have hissued : Issued a r.after := by
    cases r with
    | ok _ b => exact hmeets.1
    | error e b => exact hmeets.1
  obtain ⟨traffic, next, outbound, progress, hb⟩ := hissued
  rw [hb]

theorem close_claimed (a : Attached σ) : a.close.link.claimed = a.link.claimed := by
  rw [close]
  split <;> rfl

theorem settle_claimed {α : Type} (r : Outcome σ α) :
    (settle r).after.link.claimed = r.after.link.claimed := by
  rcases r with ⟨x, b⟩ | ⟨e | f, b⟩
  · rfl
  · rw [settle]
    split
    · exact close_claimed _
    · rfl
  · rfl

/-- However a call on the channel ends, the link is claimed afterwards if it was so before. -/
theorem call_claimed (op : Operation) (now : Moment) (a : Attached σ) :
    (a.call op now).after.link.claimed = a.link.claimed := by
  have hwrite (buffer : Bytes) (flushNow : Bool) :
      (a.write buffer flushNow now).after.link.claimed = a.link.claimed := by
    rw [write]
    split
    · exact (settle_claimed _).trans (writeBundle_claimed buffer flushNow now a)
    · rfl
  cases op with
  | write buffer flushNow => exact hwrite buffer flushNow
  | writeText text flushNow => exact hwrite (Utf8.encode text) flushNow
  | receive =>
    show (a.receive now).after.link.claimed = _
    rw [receive]
    split
    · exact (settle_claimed _).trans (receiveBundles_claimed now a)
    · rfl
  | close => exact close_claimed a
  | _ => rfl

end Attached

namespace Network

variable {τ : Type} {n n' : Network τ} {id : Nat} {s : Station τ}

/-- whether a link is claimed, if there is one with the number -/
def claimed? (n : Network τ) (id : Nat) : Option Bool := (n.link? id).map Link.claimed

theorem claimed?_of_get? (h : n.stations.get? id = some s) :
    n.claimed? id = some s.link.claimed := by
  rw [claimed?, link?, h]
  rfl

theorem claimed?_of_put {t : Station τ}
    (h : ∀ j, n'.stations.get? j = if j = id then some t else n.stations.get? j) (j : Nat) :
    n'.claimed? j = if j = id then some t.link.claimed else n.claimed? j := by
  rw [claimed?, link?, h]
  split <;> rfl

theorem claimed?_put (n : Network τ) (id : Nat) (t : Station τ) (j : Nat) :
    ({ n with stations := n.stations.put id t } : Network τ).claimed? j =
      if j = id then some t.link.claimed else n.claimed? j :=
  claimed?_of_put (fun j => Table.get?_put n.stations j id t) j

/-- another station with the same number, and as much of a claim -/
theorem claimed?_same {t : Station τ} (hs : n.stations.get? id = some s)
    (h : ∀ j, n'.stations.get? j = if j = id then some t else n.stations.get? j)
    (hclaimed : t.link.claimed = s.link.claimed) (j : Nat) : n'.claimed? j = n.claimed? j := by
  rw [claimed?_of_put h]
  split
  · rename_i heq
    rw [heq, claimed?_of_get? hs, hclaimed]
  · rfl

theorem advance_ok {d : Span} (h : n.advance d = .ok n') : ∃ now, n' = { n with now := now } := by
  rw [advance] at h
  cases hnow : n.now.add d with
  | error f =>
    rw [hnow] at h
    cases h
  | ok now =>
    rw [hnow] at h
    exact ⟨now, (Except.ok.inj h).symm⟩

/-! ## numbers -/

/-- Each link has a number that was given out. -/
def Enrolled (n : Network τ) : Prop := ∀ id, n.roster.nextId ≤ id → n.stations.get? id = none

theorem enrolled_empty : (empty : Network τ).Enrolled := fun _ _ => rfl

namespace Enrolled

theorem lt (h : n.Enrolled) (hs : n.stations.get? id = some s) : id < n.roster.nextId := by
  refine Nat.lt_of_not_le fun hle => ?_
  rw [h id hle] at hs
  cases hs

theorem of_same (h : n.Enrolled) (hstations : n'.stations = n.stations)
    (hroster : n'.roster = n.roster) : n'.Enrolled := by
  intro id hid
  rw [hstations]
  exact h id (hroster ▸ hid)

/-- only the station of a link that has a number changes -/
theorem of_put (h : n.Enrolled) {t : Station τ} (hnext : n.roster.nextId ≤ n'.roster.nextId)
    (hid : id < n'.roster.nextId)
    (hstations : ∀ j, n'.stations.get? j = if j = id then some t else n.stations.get? j) :
    n'.Enrolled := by
  intro j hj
  rw [hstations, if_neg (Nat.ne_of_gt (Nat.lt_of_lt_of_le hid hj))]
  exact h j (Nat.le_trans hnext hj)

theorem leave (h : n.Enrolled) (hs : n.stations.get? id = some s) (halted : Bool)
    (a : Attached (End ⊕ τ)) : (n.leave id s.plug halted a).Enrolled := by
  have hnext : (n.leave id s.plug halted a).roster.nextId = n.roster.nextId := by
    rw [leave_eq]
    dsimp only
    split <;> rfl
  refine h.of_put (Nat.le_of_eq hnext.symm) ?_ (get?_leave n id s.plug halted a)
  rw [hnext]
  exact h.lt hs

theorem put (h : n.Enrolled) (hs : n.stations.get? id = some s) (t : Station τ) :
    Enrolled { n with stations := n.stations.put id t } :=
  h.of_put (Nat.le_refl _) (h.lt hs) fun j => Table.get?_put n.stations j id t

theorem openLink (h : n.Enrolled) (settings : Settings) (generation : UInt64)
    (description : String) (plug : Plug τ) :
    (n.openLink settings generation description plug).2.Enrolled := by
  rw [Network.openLink]
  split
  · exact h
  · exact h.of_put (Nat.le_succ _) (Nat.lt_succ_self _)
      fun j => Table.get?_put n.stations j n.roster.nextId _

theorem alter (h : n.Enrolled) {α : Type} {x : α} {f : Link → α × Link}
    (halter : n.alter id f = some (x, n')) : n'.Enrolled := by
  cases hs : n.stations.get? id with
  | none =>
    rw [Network.alter, hs] at halter
    cases halter
  | some s =>
    rw [alter_eq hs] at halter
    cases halter
    exact h.put hs _

theorem advance (h : n.Enrolled) {d : Span} (hpassed : n.advance d = .ok n') : n'.Enrolled := by
  obtain ⟨now, rfl⟩ := advance_ok hpassed
  exact h.of_same rfl rfl

variable [Channel τ]

theorem perform (h : n.Enrolled) {op : Operation} {response : Response}
    (hperform : n.perform id op = some (response, n')) : n'.Enrolled := by
  obtain ⟨s, hs, hperformed⟩ := performed_of_perform hperform
  cases hperformed with
  | halted before => exact h.put hs _
  | aside running isLocal => exact h.put hs _
  | channel running isCall r called => exact h.leave hs _ _

theorem step (h : n.Enrolled) (hstep : Step n n') : n'.Enrolled := by
  cases hstep with
  | perform performed => exact h.perform performed
  | openLink settings generation description plug offered =>
    exact h.openLink settings generation description plug
  | alter f keeps altered => exact h.alter altered
  | replace new found => exact h.put found _
  | newWire => exact h.of_same rfl rfl
  | setWire i d => exact h.of_same rfl rfl
  | advance passed => exact h.advance passed

end Enrolled

variable [Channel τ]

theorem Reachable.enrolled (h : Reachable n) : n.Enrolled := by
  induction h with
  | empty => exact enrolled_empty
  | step _ taken ih => exact ih.step taken

/-! ## apart from claims -/

/-- Something happens to the network that is no claim and gives none up. -/
inductive Use (n : Network τ) : Network τ → Prop
  | perform {id : Nat} {op : Operation} {response : Response} {n' : Network τ}
      (performed : n.perform id op = some (response, n')) : Use n n'
  | openLink (settings : Settings) (generation : UInt64) (description : String) (plug : Plug τ)
      (offered : n.Offers plug) : Use n (n.openLink settings generation description plug).2
  | adjust {α : Type} {id : Nat} {x : α} {n' : Network τ} (f : Link → α × Link)
      (connected : ∀ l, (f l).2.connected = l.connected)
      (claimed : ∀ l, (f l).2.claimed = l.claimed)
      (adjusted : n.alter id f = some (x, n')) : Use n n'
  | replace {id : Nat} {link : Link} {old : τ} {halted : Bool} (new : τ)
      (found : n.stations.get? id = some ⟨link, .own old, halted⟩) :
      Use n { n with stations := n.stations.put id ⟨link, .own new, halted⟩ }
  | newWire : Use n n.newWire.2
  | setWire (i : Nat) (d : Duplex) : Use n (n.setWire i d)
  | advance {d : Span} {n' : Network τ} (passed : n.advance d = .ok n') : Use n n'

namespace Use

theorem receive {r : Except (Failure LinkError) Unit} (h : n.receive id = some (r, n')) :
    Use n n' := by
  have hperform : n.perform id .receive = some (.ofCall r, n') := by
    rw [Network.perform, h]
    rfl
  exact .perform hperform

theorem close {r : Except (Failure LinkError) Unit} (h : n.close id = some (r, n')) :
    Use n n' := by
  have hperform : n.perform id .close = some (.ofCall r, n') := by
    rw [Network.perform, h]
    rfl
  exact .perform hperform

theorem step (h : Use n n') : Step n n' := by
  cases h with
  | perform performed => exact .perform performed
  | openLink settings generation description plug offered =>
    exact .openLink settings generation description plug offered
  | adjust f connected claimed adjusted => exact .alter f connected adjusted
  | replace new found => exact .replace new found
  | newWire => exact .newWire
  | setWire i d => exact .setWire i d
  | advance passed => exact .advance passed

/-- A link that is there stays as it is with regard to claims, and a new one is not claimed. -/
theorem claimed? (h : Use n n') (hn : n.Enrolled) (id : Nat) :
    n'.claimed? id = n.claimed? id ∨ (n.claimed? id = none ∧ n'.claimed? id = some false) := by
  have halter {α : Type} {i : Nat} {x : α} {f : Link → α × Link}
      (claimed : ∀ l, (f l).2.claimed = l.claimed) (halter : n.alter i f = some (x, n')) :
      n'.claimed? id = n.claimed? id := by
    cases hs : n.stations.get? i with
    | none =>
      rw [alter, hs] at halter
      cases halter
    | some s =>
      rw [alter_eq hs] at halter
      cases halter
      exact claimed?_same hs (fun j => Table.get?_put _ j i _) (claimed s.link) id
  cases h with
  | @perform i op response n' performed =>
    left
    obtain ⟨s, hs, hperformed⟩ := performed_of_perform performed
    cases hperformed with
    | halted before =>
      exact claimed?_same hs (fun j => Table.get?_put n.stations j i _)
        (s.link.serveHalted_claimed op) id
    | aside running isLocal =>
      exact claimed?_same hs (fun j => Table.get?_put n.stations j i (s.served op))
        (s.link.serve_claimed op) id
    | channel running isCall r called =>
      refine claimed?_same hs (get?_leave n i s.plug _ _) ?_ id
      rw [← called]
      exact Attached.call_claimed op n.now _
  | openLink settings generation description plug offered =>
    rw [Network.openLink]
    split
    · exact .inl rfl
    · rw [claimed?_of_put fun j => Table.get?_put n.stations j n.roster.nextId _]
      split
      · rename_i heq
        refine .inr ⟨?_, rfl⟩
        rw [Network.claimed?, link?, hn id (Nat.le_of_eq heq.symm)]
        rfl
      · exact .inl rfl
  | adjust f connected claimed adjusted => exact .inl (halter claimed adjusted)
  | @replace i link _ halted new found =>
    exact .inl (claimed?_same (t := ⟨link, .own new, halted⟩) found
      (fun j => Table.get?_put n.stations j i _) rfl id)
  | newWire => exact .inl rfl
  | setWire i d => exact .inl rfl
  | advance passed =>
    obtain ⟨now, rfl⟩ := advance_ok passed
    exact .inl rfl

/-- without claims no link is claimed -/
theorem unclaimed (h : Use n n') (hn : n.Enrolled) (hnone : ∀ id, n.claimed? id ≠ some true)
    (id : Nat) : n'.claimed? id ≠ some true := by
  rcases h.claimed? hn id with hsame | ⟨-, hnew⟩
  · rw [hsame]
    exact hnone id
  · rw [hnew]
    nofun

end Use

end Network

end BundleLink
