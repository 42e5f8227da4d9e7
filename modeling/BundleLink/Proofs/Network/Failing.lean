import BundleLink.Channel.Script
import BundleLink.Proofs.Network.Basic

/-!
# Calls that fail

A call that fails with an error leaves the whole network as it was, or it ends the link: nothing
lies between the two.

* `Network.Same`       no difference can be observed between two networks;
* `Link.serve_fails`, `Attached.call_fails`  how the operations fail, without and with the channel;
* `Network.readings`   the bundles that reads hand out one after the other;
* `Network.Ended`      what is left of a link that met a fatal error;
* `Network.same_or_ended`  every call that fails does either.
-/

namespace BundleLink

open Pair (Operation)

/-! ## calls that leave the channel alone -/

namespace Link

variable {l : Link} {e : LinkError}

theorem nothingReady_error {α : Type}
    (h : (l.nothingReady : Except LinkError (Option α)) = .error e) : e = .notConnected := by
  rw [nothingReady] at h
  split at h
  · cases h
  · exact (Except.error.inj h).symm

theorem read_fails (h : l.read.1 = .error e) : e.isFatal = false ∧ l.read.2 = l := by
  rw [read] at h ⊢
  split at h
  · rw [nothingReady_error h]
    exact ⟨rfl, rfl⟩
  · cases h

theorem readInto_fails {buffer : Bytes} (h : (l.readInto buffer).1 = .error e) :
    e.isFatal = false ∧ (l.readInto buffer).2 = (buffer, l) := by
  rw [readInto] at h ⊢
  split at h
  · rw [nothingReady_error h]
    exact ⟨rfl, rfl⟩
  · split at h
    · rename_i hshort
      rw [← Except.error.inj h, if_pos hshort]
      exact ⟨rfl, rfl⟩
    · cases h

theorem readText_fails (h : l.readText.1 = .error e) : e.isFatal = false ∧ l.readText.2 = l := by
  rw [readText] at h ⊢
  split at h
  · rw [nothingReady_error h]
    exact ⟨rfl, rfl⟩
  · split at h
    · rw [← Except.error.inj h]
      exact ⟨rfl, rfl⟩
    · cases h

theorem setFragmentSize_fails {size : Nat} (h : (l.setFragmentSize size).1 = .error e) :
    e.isFatal = false ∧ (l.setFragmentSize size).2 = l := by
  rw [setFragmentSize] at h ⊢
  split at h
  · cases h
  · rename_i hinvalid
    rw [← Except.error.inj h, if_neg hinvalid]
    exact ⟨rfl, rfl⟩

/-- Without the channel no error is fatal, and neither the link nor the buffer changes. -/
theorem serve_fails {op : Operation} (h : (l.serve op).1.failure = some (.error e)) :
    e.isFatal = false ∧ (l.serve op).1.buffer = op.lent ∧ (l.serve op).2 = l := by
  cases op with
  | read =>
    obtain ⟨hmild, hlink⟩ := read_fails (Response.failure_ofLink h)
    exact ⟨hmild, rfl, hlink⟩
  | readInto buffer =>
    obtain ⟨hmild, hsame⟩ := readInto_fails (Response.failure_ofLink h)
    exact ⟨hmild, congrArg Prod.fst hsame, congrArg Prod.snd hsame⟩
  | readText =>
    obtain ⟨hmild, hlink⟩ := readText_fails (Response.failure_ofLink h)
    exact ⟨hmild, rfl, hlink⟩
  | setFragmentSize size =>
    have herror := Response.failure_ofCall h
    cases hr : (l.setFragmentSize size).1 with
    | ok _ =>
      rw [hr] at herror
      cases herror
    | error e' =>
      rw [hr] at herror
      cases herror
      obtain ⟨hmild, hlink⟩ := setFragmentSize_fails hr
      exact ⟨hmild, rfl, hlink⟩
  | advanceGeneration =>
    have hfault := Response.failure_ofCall h
    cases hr : l.advanceGeneration.1 with
    | ok _ =>
      rw [hr] at hfault
      cases hfault
    | error f =>
      rw [hr] at hfault
      cases hfault
  | _ => cases h

/-- Nor is any error fatal that a link knows once it has met a fault. -/
theorem serveHalted_fails {op : Operation} (h : (l.serveHalted op).1.failure = some (.error e)) :
    e.isFatal = false ∧ (l.serveHalted op).1.buffer = op.lent ∧ (l.serveHalted op).2 = l ∧
      ∀ flaw, op = .receive → e ≠ .bundle flaw := by
  have hrefused (h : l.refusal = .error e) : e = .notConnected := by
    rw [refusal] at h
    split at h
    · cases h
    · exact (Failure.error.inj h).symm
  have hserved (hop : op.isLocal = true) (h : (l.serve op).1.failure = some (.error e)) :
      e.isFatal = false ∧ (l.serve op).1.buffer = op.lent ∧ (l.serve op).2 = l ∧
        ∀ flaw, op = .receive → e ≠ .bundle flaw := by
    obtain ⟨hmild, hbuffer, hlink⟩ := serve_fails h
    refine ⟨hmild, hbuffer, hlink, fun flaw hreceive => ?_⟩
    rw [hreceive] at hop
    cases hop
  cases op with
  | read => exact hserved rfl h
  | readInto buffer => exact hserved rfl h
  | readText => exact hserved rfl h
  | close =>
    have hfault := Response.failure_ofCall h
    rw [disconnect] at hfault
    split at hfault <;> cases hfault
  | setFragmentSize size => cases h
  | advanceGeneration => cases h
  | _ =>
    obtain rfl := hrefused (Except.error.inj (Response.failure_ofCall h))
    exact ⟨rfl, rfl, rfl, fun _ _ => nofun⟩

end Link

/-! ## calls on the channel -/

namespace Attached

variable {σ : Type} [Channel σ] {a b c : Attached σ} {now : Moment} {op : Operation}
  {e : LinkError}

/-- what an operation of an open link does, up to its failure if it fails -/
def attempt (op : Operation) (now : Moment) (a : Attached σ) : Outcome σ Unit :=
  match op with
  | .write buffer flushNow => writeBundle buffer flushNow now a
  | .writeText text flushNow => writeBundle (Utf8.encode text) flushNow now a
  | .receive => receiveBundles now a
  | _ => .ok () a

theorem call_fails (h : call op now a = .error (.error e) c) :
    (e.isFatal = false → c = a) ∧
      (e.isFatal = true →
        ∃ b, attempt op now a = .error (.error e) b ∧ Continues a b ∧ Ceased b c) := by
  cases op with
  | write buffer flushNow =>
    exact unchanged_or_ceased (writeBundle_continues buffer flushNow now a)
      (writeBundle_spares buffer flushNow now a) h
  | writeText text flushNow =>
    exact unchanged_or_ceased (writeBundle_continues (Utf8.encode text) flushNow now a)
      (writeBundle_spares (Utf8.encode text) flushNow now a) h
  | receive =>
    exact unchanged_or_ceased (receiveBundles_continues now a) (receiveBundles_spares now a) h
  | _ => cases h

/-- bundles that can not be joined are no error of the receive -/
theorem receive_ne_bundle (flaw : BundleError) :
    a.receive now ≠ .error (.error (.bundle flaw)) c := by
  intro h
  rw [receive] at h
  split at h
  · cases hr : receiveBundles now a with
    | ok _ b =>
      rw [hr] at h
      cases h
    | error e b =>
      rw [hr] at h
      rcases e with e | f
      · rw [settle, if_pos (receiveBundles_fatal hr)] at h
        cases h
        cases receiveBundles_fatal hr
      · cases h
  · cases h

end Attached

namespace Network

variable {τ : Type} {n n' : Network τ} {id : Nat} {s : Station τ}

/-! ## networks that do not differ -/

/-- No difference between the two can be observed. -/
structure Same (n n' : Network τ) : Prop where
  now : n'.now = n.now
  roster : n'.roster = n.roster
  wires : n'.wires = n.wires
  stations : ∀ j, n'.stations.get? j = n.stations.get? j

theorem strike_of_not_mem {r : Roster} (h : id ∉ r.ids) : r.strike id = r := by
  have hall : ∀ j ∈ r.ids, decide (j ≠ id) = true := by
    intro j hj
    exact decide_eq_true fun hsame => h (hsame ▸ hj)
  rw [Roster.strike, List.filter_eq_self.mpr hall]

/-- an operation that leaves the link and its channel as they were -/
theorem same_leave (h : Tidy n) (hs : n.stations.get? id = some s) (hrunning : s.halted = false) :
    Same n (n.leave id s.plug false ⟨s.link, n.channelOf s.plug⟩) := by
  rw [leave_eq, n.holding_channelOf, n.rewire_channelOf]
  refine ⟨rfl, ?_, rfl, fun j => ?_⟩
  · dsimp only
    split
    · rfl
    · rename_i hclosed
      exact strike_of_not_mem (h.struck id s hs (Bool.eq_false_iff.mpr hclosed) hrunning)
  · dsimp only
    rw [Table.get?_put, Table.get?_erase]
    split
    · rename_i hsame
      rw [hsame, hs, ← hrunning]
    · rfl

theorem same_put (hs : n.stations.get? id = some s) :
    Same n { n with stations := n.stations.put id s } := by
  refine ⟨rfl, rfl, rfl, fun j => ?_⟩
  dsimp only
  rw [Table.get?_put]
  split
  · rename_i hsame
    rw [hsame, hs]
  · rfl

/-! ## links that have ended -/

variable [Channel τ]

/-- the bundles that this many reads hand out, up to the first read without one -/
def readings (id : Nat) : Nat → Network τ → List Bytes
  | 0, _ => []
  | k + 1, n =>
    match n.perform id .read with
    | some (⟨.ok (.bundle (some bundle)), _⟩, n) => bundle :: readings id k n
    | _ => []

theorem readings_eq (k : Nat) (hs : n.stations.get? id = some s) :
    n.readings id k = s.link.ready.take k := by
  induction k generalizing n s with
  | zero => rfl
  | succ k ih =>
    have hperform : n.perform id .read = some (.ofLink .bundle s.link.read.1 [],
        { n with stations := n.stations.put id { s with link := s.link.read.2 } }) :=
      perform_reading hs rfl
    rw [readings, hperform]
    cases hready : s.link.ready with
    | nil =>
      have hread : s.link.read = (s.link.nothingReady, s.link) := by rw [Link.read, hready]
      rw [hread, Link.nothingReady]
      cases s.link.connected <;> rfl
    | cons bundle rest =>
      rw [Link.read_cons hready]
      have hput : (n.stations.put id { s with link := { s.link with ready := rest } }).get? id =
          some { s with link := { s.link with ready := rest } } := by
        rw [Table.get?_put, if_pos rfl]
      exact congrArg (bundle :: ·) (ih (n := { n with stations := _ }) hput)

/-- After a fatal error that the link met in the state `b`, together with its channel, the link is
closed and off the roster, and the bundles that were ready by then can still be read. -/
structure Ended (b : Attached (End ⊕ τ)) (id : Nat) (n : Network τ) (s : Station τ) : Prop where
  found : n.stations.get? id = some s
  ceased : Attached.Ceased b ⟨s.link, n.channelOf s.plug⟩
  struck : id ∉ n.roster.ids
  readable : ∀ k, n.readings id k = b.link.ready.take k

theorem ended_leave (h : Tidy n) (hs : n.stations.get? id = some s) {b c : Attached (End ⊕ τ)}
    (hcontinues : Attached.Continues ⟨s.link, n.channelOf s.plug⟩ b)
    (hceased : Attached.Ceased b c) :
    Ended b id (n.leave id s.plug false c) ⟨c.link, s.plug.holding c.channel, false⟩ := by
  have hfound : (n.leave id s.plug false c).stations.get? id =
      some ⟨c.link, s.plug.holding c.channel, false⟩ := by
    rw [get?_leave, if_pos rfl]
  have hfits : s.plug.Fits c.channel := by
    rw [hceased.channel]
    exact ((s.plug.fits_channelOf n).leads hcontinues.channel).close
  refine ⟨hfound, ?_, ?_, fun k => ?_⟩
  · rw [channelOf_leave n id false c (h.offered id s hs) hfits]
    exact ⟨hceased.disconnected, hceased.outbound, hceased.inbound, hceased.raw, hceased.ready,
      hceased.channel⟩
  · rw [leave_eq, hceased.disconnected]
    exact fun hmem => (Roster.mem_ids_strike.mp hmem).2 rfl
  · rw [readings_eq k hfound, ← hceased.ready]

/-- In any network that can be reached, with any channels, each call of an application ends with a
response. If this says that the call failed with an error that is not fatal, no difference can be
observed between the network before and after, and the buffer that was lent is as it was. If the
error is fatal, then the link went on from where it was, without losing a bundle that was ready,
to a state `b` in which it met the error, and was closed there: it is disconnected and not on the
roster, its tables and its raw bytes are gone and its channel is closed, and all bundles that were
ready in `b` can be read. An error that the joining of a bundle met is no error of a receive. -/
theorem same_or_ended (h : n.Reachable) (hs : n.stations.get? id = some s) (op : Operation) :
    ∃ response n', n.perform id op = some (response, n') ∧
      ∀ e, response.failure = some (.error e) →
        (e.isFatal = false → Same n n' ∧ response.buffer = op.lent) ∧
          (e.isFatal = true → ∃ b s',
            Attached.attempt op n.now ⟨s.link, n.channelOf s.plug⟩ = .error (.error e) b ∧
              Attached.Continues ⟨s.link, n.channelOf s.plug⟩ b ∧ Ended b id n' s') ∧
          (op = .receive → ∀ flaw, e ≠ .bundle flaw) := by
  have htidy := h.tidy
  obtain ⟨response, n', hperform, hperformed⟩ := exists_performed hs op
  refine ⟨response, n', hperform, fun e he => ?_⟩
  cases hperformed with
  | halted before =>
    obtain ⟨hmild, hbuffer, hlink, hflaw⟩ := Link.serveHalted_fails he
    refine ⟨fun _ => ⟨?_, hbuffer⟩, fun hfatal => ?_, fun hop flaw => hflaw flaw hop⟩
    · rw [hlink]
      exact same_put hs
    · rw [hmild] at hfatal
      cases hfatal
  | aside running isLocal =>
    obtain ⟨hmild, hbuffer, hlink⟩ := Link.serve_fails he
    refine ⟨fun _ => ⟨?_, hbuffer⟩, fun hfatal => ?_, fun hop => ?_⟩
    · have hserved : s.served op = s := by
        rw [Station.served, hlink, Response.isFault_of_error he, ← running]
      rw [hserved]
      exact same_put hs
    · rw [hmild] at hfatal
      cases hfatal
    · rw [hop] at isLocal
      cases isLocal
  | channel running isCall r called =>
    rcases r with ⟨_, c⟩ | ⟨f, c⟩
    · cases he
    · obtain rfl : f = .error e := Except.error.inj (Response.failure_ofCall he)
      obtain ⟨hmild, hfatal⟩ := Attached.call_fails called
      refine ⟨fun hm => ⟨?_, ?_⟩, fun hf => ?_, fun hop flaw hflaw => ?_⟩
      · obtain rfl := hmild hm
        exact same_leave htidy hs running
      · cases op <;> first | rfl | cases isCall
      · obtain ⟨b, hattempt, hcontinues, hceased⟩ := hfatal hf
        exact ⟨b, _, hattempt, hcontinues, ended_leave htidy hs hcontinues hceased⟩
      · subst hop hflaw
        exact Attached.receive_ne_bundle flaw called

/-- a channel that hands out one bundle and then ends -/
def parting : Script :=
  { Script.lone [] with
    readings :=
      [.ok (.data (Fragment.wires .plain [.header 9 1 1 0, ⟨9, 1, 1, 2, 0, some [104, 105]⟩])),
        .ok .endOfStream] }

/-- a network with one link, which has number 0 -/
def solitary : Network Script := (empty.openLink {} 1 "scripted" (.own parting)).2

def solitaire : Station Script := ⟨.opened 0 "scripted" {} 1 .start, .own parting, false⟩

/-- the receive fails, but the bundle is there -/
theorem same_or_ended_solitary :
    ∃ response n', solitary.perform 0 .receive = some (response, n') ∧
      response.failure = some (.error .endOfStream) ∧ 0 ∉ n'.roster.ids ∧
      n'.readings 0 2 = [[104, 105]] := by
  have hreachable : solitary.Reachable := .step .empty (.openLink {} 1 "scripted" _ trivial)
  have hfound : solitary.stations.get? 0 = some solitaire := rfl
  obtain ⟨response, n', hperform, hcases⟩ := same_or_ended hreachable hfound .receive
  have hfailure : (solitary.perform 0 .receive).bind (fun p => p.1.failure) =
      some (.error .endOfStream) := by decide +kernel
  rw [hperform] at hfailure
  obtain ⟨b, s', hattempt, -, hended⟩ := (hcases _ hfailure).2.1 rfl
  have hready : (Attached.attempt .receive solitary.now
      ⟨solitaire.link, solitary.channelOf solitaire.plug⟩).after.link.ready = [[104, 105]] := by
    decide +kernel
  rw [hattempt] at hready
  refine ⟨response, n', hperform, hfailure, hended.struck, ?_⟩
  rw [hended.readable 2]
  exact congrArg (List.take 2) hready

end Network

end BundleLink
