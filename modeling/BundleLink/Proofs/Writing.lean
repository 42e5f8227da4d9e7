import BundleLink.Link.Write
import BundleLink.Proofs.Receiving

/-!
# What a write does

A write of an open link ends in one of four ways, and only the first one puts bytes on the medium:
the fragments of a bundle then stand there in order, and the bundle is outbound.

* `Written`         what the first one changes;
* `WriteResult`     the four ways;
* `write_result`    a write of an open link ends in one of them.
-/

namespace BundleLink

theorem Link.lt_nextMessage_succ {n : UInt64} (h : n ≠ Link.lastMessage) :
    n < n + 1 ∧ n + 1 ≠ 0 := by
  have hlt := n.toNat_lt
  have hne : n.toNat ≠ 18446744073709551615 := fun h0 => h (UInt64.toNat_inj.mp h0)
  have hsucc : (n + 1).toNat = n.toNat + 1 := by
    rw [UInt64.toNat_add]
    show (n.toNat + 1) % 2 ^ 64 = _
    omega
  refine ⟨UInt64.lt_iff_toNat_lt.mpr (by omega), ?_⟩
  intro h0
  have hzero := congrArg UInt64.toNat h0
  rw [hsucc] at hzero
  exact absurd hzero (Nat.succ_ne_zero _)

namespace Attached

variable {σ : Type} [Channel σ] [Medium σ]

/-- the key that the next bundle gets -/
def nextKey (a : Attached σ) : Key := ⟨a.link.generation, a.link.nextMessage⟩

omit [Channel σ] [Medium σ] in
theorem isProper_nextKey {a : Attached σ} (hgeneration : a.link.generation ≠ 0)
    (hnext : a.link.nextMessage ≠ 0) : a.nextKey.isProper = true := by
  show (a.link.generation != 0 && a.link.nextMessage != 0) = true
  simp [hgeneration, hnext]

/-- the state after the next key was given out -/
def numbered (a : Attached σ) : Attached σ :=
  { a with link := { a.link with nextMessage := a.link.nextMessage + 1 } }

/-- Between `a` and `b` the fragments of a bundle were written, which is outbound now. -/
structure Written (buffer : Bytes) (parts : List Fragment) (now : Moment) (a b : Attached σ) :
    Prop where
  split : Bundle.split a.link.layout a.link.fragmentSize a.nextKey buffer = .ok parts
  room : a.link.nextMessage ≠ Link.lastMessage
  terms : b.link.terms = a.numbered.link.terms
  raw : b.link.raw = a.link.raw
  inbound : b.link.inbound = a.link.inbound
  ready : b.link.ready = a.link.ready
  outbound : b.link.outbound = a.link.outbound.put a.nextKey parts
  gaps : b.link.gaps = a.link.gaps
  lastArrival : b.link.lastArrival = a.link.lastArrival
  lastProgress : b.link.lastProgress = now ∨ b.link.lastProgress = a.link.lastProgress
  outgoing : Medium.outgoing b.channel =
    Medium.outgoing a.channel ++ parts.map (Fragment.wire a.link.layout)
  incoming : Medium.incoming b.channel = Medium.incoming a.channel
  description : Medium.description b.channel = Medium.description a.channel

section
variable {buffer : Bytes} {parts : List Fragment} {now : Moment} {a b : Attached σ}

theorem Written.layout (h : Written buffer parts now a b) : b.link.layout = a.link.layout :=
  Link.layout_of_terms (l := a.numbered.link) h.terms

theorem Written.settings (h : Written buffer parts now a b) : b.link.settings = a.link.settings :=
  Link.settings_of_terms (l := a.numbered.link) h.terms

theorem Written.generation (h : Written buffer parts now a b) :
    b.link.generation = a.link.generation :=
  Link.generation_of_terms (l := a.numbered.link) h.terms

theorem Written.nextMessage (h : Written buffer parts now a b) :
    b.link.nextMessage = a.link.nextMessage + 1 :=
  Link.nextMessage_of_terms (l := a.numbered.link) h.terms

/-- the number of the bundle is smaller than the next one -/
theorem Written.lt (h : Written buffer parts now a b) :
    a.link.nextMessage < b.link.nextMessage := by
  rw [h.nextMessage]
  exact (Link.lt_nextMessage_succ h.room).1

theorem Written.ne_zero (h : Written buffer parts now a b) : b.link.nextMessage ≠ 0 := by
  rw [h.nextMessage]
  exact (Link.lt_nextMessage_succ h.room).2

end

/-- How a write of an open link ends. -/
inductive WriteResult (buffer : Bytes) (now : Moment) (a : Attached σ) : Outcome σ Unit → Prop
  /-- the fragments were written -/
  | sent (b : Attached σ) (parts : List Fragment) (written : Written buffer parts now a b) :
      WriteResult buffer now a (.ok () b)
  /-- the buffer can not be cut into fragments -/
  | refused (e : BundleError) : WriteResult buffer now a (.error (.error (.bundle e)) a)
  /-- the numbers have run out -/
  | faulted (e : Fault) (full : a.link.nextMessage = Link.lastMessage) :
      WriteResult buffer now a (.error (.fault e) a)
  /-- the medium is closed, and so is the link -/
  | broken (e : IoError) (b : Attached σ) (isOpen : Medium.isOpen a.channel = false)
      (room : a.link.nextMessage ≠ Link.lastMessage) (shut : Shut a.numbered b) :
      WriteResult buffer now a (.error (.error (.io e)) b)

theorem split_ne_nil {layout : Layout} {size : Nat} {k : Key} {buffer : Bytes}
    {parts : List Fragment} (h : Bundle.split layout size k buffer = .ok parts) : parts ≠ [] := by
  intro h0
  have h2 := (Bundle.Parts.of_split h).two_le
  rw [h0] at h2
  exact absurd h2 (by decide)

theorem write_result {a : Attached σ} (hopen : a.link.connected = true) (buffer : Bytes)
    (flushNow : Bool) (now : Moment) :
    WriteResult buffer now a (write buffer flushNow now a) := by
  rw [write, if_pos hopen, writeBundle]
  dsimp only
  cases hsplit : Bundle.split a.link.layout a.link.fragmentSize a.nextKey buffer with
  | error e =>
    cases e with
    | error e =>
      rw [nextKey] at hsplit
      rw [hsplit]
      exact .refused e
    | fault e => exact absurd hsplit Bundle.split_ne_fault
  | ok parts =>
    have hkey : Bundle.split a.link.layout a.link.fragmentSize
        ⟨a.link.generation, a.link.nextMessage⟩ buffer = .ok parts := hsplit
    rw [hkey]
    dsimp only
    by_cases hlast : a.link.nextMessage = Link.lastMessage
    · rw [if_pos hlast]
      exact .faulted .counterFull hlast
    · rw [if_neg hlast]
      have hnumbered : ({ a with link := { a.link with nextMessage := a.link.nextMessage + 1 } } :
        Attached σ) = a.numbered := rfl
      rw [hnumbered]
      cases hmedium : Medium.isOpen a.channel with
      | true =>
        obtain ⟨b, hb, hwrote⟩ := transmitAll_open parts (a := a.numbered) hmedium
        rw [hb]
        dsimp only
        generalize hd : recordSent ⟨a.link.generation, a.link.nextMessage⟩ parts now b = d
        have hflush : (if flushNow then flush d else .ok () d) = .ok () d := by
          split
          · exact flush_eq _
          · rfl
        rw [hflush, settle_ok]
        subst hd
        have hsent := hwrote.toSent
        have hgaps := congrArg Link.gaps hsent.core
        have harrival := congrArg Link.lastArrival hsent.core
        have hprogress := congrArg Link.lastProgress hsent.core
        refine .sent _ parts ⟨hsplit, hlast, hsent.terms, hsent.raw, hwrote.inbound, hwrote.ready,
          ?_, hgaps, harrival, ?_, hwrote.outgoing, hwrote.incoming, hwrote.description⟩
        · show b.link.outbound.put _ parts = _
          rw [hwrote.outbound]
          rfl
        · rw [recordSent]
          dsimp only
          split
          · exact .inl rfl
          · exact .inr hprogress
      | false =>
        obtain ⟨e, he⟩ := transmitAll_closed (split_ne_nil hsplit) (a := a.numbered) hmedium
        rw [he]
        have hshut := shut_close (a.numbered.warn (.closing a.link.id a.link.description (.io e)))
        exact .broken e _ hmedium hlast ⟨hshut.closed, hshut.ready, hshut.outgoing, hshut.incoming,
          hshut.layout, hshut.nextMessage, hshut.settings, hshut.generation, hshut.description⟩

end Attached

end BundleLink
