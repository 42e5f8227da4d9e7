import BundleLink.Proofs.Pair.Emissions
import BundleLink.Proofs.Pair.Order
import BundleLink.Proofs.Severed

/-!
# What is left when the peer has closed

Closing at one end of a memory channel closes both pipes. The other end can still read all bytes
that were written before, but it can not write the acks any more, and without its ack no bundle
becomes ready. So the receives that follow fail sooner or later, and what was not received before
the close never will be.

* `Pair.Fails`, `Pair.receives`  a receive fails, and several receives in a row;
* `Ebbing`                     what is left of the stream when the peer has closed;
* `Ebbing.next`                a receive that succeeds leaves less of it;
* `delivered_iff_before_close` all buffers are received exactly if they were before the close.
-/

namespace BundleLink

/-- The link reads from a peer that has closed, and the fragments `todo` are still to be handled. -/
structure Ebbing (layout : Layout) (todo : List Fragment) (a : Attached End) : Prop where
  sameLayout : a.link.layout = layout
  valid : a.link.settings.Valid
  closed : Medium.isOpen a.channel = false
  drained : a.channel.isOver = true
  stream : a.stream = Fragment.wires layout todo
  fits : ∀ f ∈ todo, f.Fits layout
  room : ∀ f ∈ todo, f.wireLength layout ≤ a.link.settings.rawLimit

theorem Settings.Valid.rawLimit_pos {settings : Settings} (h : settings.Valid) :
    0 < settings.rawLimit := by
  have hchunk := h.readChunk_pos
  have hlimit := ((Settings.valid_iff settings).mp h).2.2.1
  omega

/-- a receive that succeeds handles at least one fragment -/
theorem Ebbing.next {layout : Layout} {todo : List Fragment} {a b : Attached End}
    (h : Ebbing layout todo a) {now : Moment} (hb : a.receive now = .ok () b) :
    ∃ rest, rest.length < todo.length ∧ Ebbing layout rest b := by
  have hfull (hended : a.intake.ended = .ok false) :
      a.link.settings.rawLimit ≤ a.filled.link.raw.length :=
    Attached.rawLimit_le_filled
      (End.full_of_over h.valid.readChunk_pos _ [] a.channel h.drained hended)
  obtain ⟨done, rest, rfl, hdone, hstream, hterms, hchannel⟩ :=
    Attached.receive_shrinks h.closed h.sameLayout h.stream h.fits h.valid.rawLimit_pos h.room
      hfull hb
  have hsettings := Link.settings_of_terms hterms
  refine ⟨rest, ?_, (Link.layout_of_terms hterms).trans h.sameLayout, ?_, ?_, ?_, hstream,
    fun f hf => h.fits f (List.mem_append_right done hf), ?_⟩
  · have hpos := List.length_pos_iff.mpr hdone
    rw [List.length_append]
    omega
  · rw [hsettings]
    exact h.valid
  · rw [hchannel]
    exact (Attached.intake_carries a).isOpen.trans h.closed
  · rw [hchannel]
    exact (End.isOver_fill _ _ [] a.channel).trans h.drained
  · intro f hf
    rw [hsettings]
    exact h.room f (List.mem_append_right done hf)

namespace Pair

/-- a receive of the side would fail -/
def Fails (p : Pair) (s : Side) : Prop :=
  (p.party s).halted = true ∨ ∃ e a, (p.attached s).receive p.now = .error e a

/-- the side receives several times -/
def receives (p : Pair) (s : Side) (n : Nat) : Pair := p.run (List.replicate n (.act s .receive))

variable {p : Pair} {s : Side}

theorem receives_succ (p : Pair) (s : Side) (n : Nat) :
    p.receives s (n + 1) = (p.act s .receive).receives s n := rfl

/-! ## one receive -/

/-- without a medium that takes acks nothing is received -/
theorem delivered_receives (h : (p.attached s).Severed) (n : Nat) :
    ((p.receives s n).party s).delivered = (p.party s).delivered := by
  induction n generalizing p with
  | zero => rfl
  | succ n ih =>
    rw [receives_succ]
    cases hhalted : (p.party s).halted with
    | true =>
      rw [act_of_halted hhalted]
      exact ih h
    | false =>
      have hwork := act_receive hhalted
      obtain ⟨hfruitless, hsevered⟩ := Attached.receive_severed h p.now
      rw [hwork, ih, delivered_settle hfruitless.ready]
      rw [attached_settle hfruitless.description]
      exact hsevered

theorem fails_of_inactive (h : ¬ (p.party s).Active) : p.Fails s := by
  cases hhalted : (p.party s).halted with
  | true => exact .inl hhalted
  | false =>
    cases hopen : (p.party s).link.connected with
    | true => exact absurd ⟨hopen, hhalted⟩ h
    | false => exact .inr ⟨_, _, Attached.receive_of_closed (a := p.attached s) hopen p.now⟩

theorem fails_of_ebbing {layout : Layout} {todo : List Fragment}
    (h : Ebbing layout todo (p.attached s)) :
    ∃ n, (p.receives s n).Fails s ∧ ∀ m, m < n → ¬ (p.receives s m).Fails s := by
  induction hlen : todo.length using Nat.strongRecOn generalizing p todo with
  | ind len ih =>
    by_cases hfails : p.Fails s
    · exact ⟨0, hfails, fun m hm => absurd hm (Nat.not_lt_zero m)⟩
    · have hhalted : ¬ (p.party s).halted = true := fun hh => hfails (.inl hh)
      cases hr : (p.attached s).receive p.now with
      | error e a => exact absurd (.inr ⟨e, a, hr⟩) hfails
      | ok _ b =>
        obtain ⟨rest, hlt, hrest⟩ := h.next hr
        have hsevered := (Attached.receive_severed (.inr h.closed) p.now).1
        rw [hr] at hsevered
        have hnext : (p.act s .receive).attached s = b := by
          have hwork : p.act s .receive = p.settle s [] (.ok () b) := by
            rw [← hr]
            exact act_receive (Bool.eq_false_iff.mpr hhalted)
          rw [hwork, attached_settle hsevered.description]
          rfl
        obtain ⟨n, hn, hbefore⟩ := ih rest.length (hlen ▸ hlt) (by rw [hnext]; exact hrest) rfl
        refine ⟨n + 1, hn, ?_⟩
        intro m hm
        cases m with
        | zero => exact hfails
        | succ m => exact hbefore m (Nat.lt_of_succ_lt_succ hm)

/-! ## after the close -/

/-- closing at one end closes both pipes -/
theorem act_close (h : (p.party s).Active) :
    p.act s .close =
      p.put s { p.party s with link := (p.attached s).close.link } p.duplex.close := by
  have hwork : p.act s .close = p.work s .close :=
    if_neg (by rw [h.2]; exact Bool.false_ne_true)
  have hclose : (p.attached s).close.channel = ⟨s, p.duplex.close⟩ := by
    have hopen : (p.attached s).link.connected = true := h.1
    rw [Attached.close, if_pos hopen]
    rfl
  rw [hwork, work, hclose]

theorem attached_close (h : (p.party s).Active) :
    (p.act s .close).attached s.opposite =
      ⟨(p.party s.opposite).link, ⟨s.opposite, p.duplex.close⟩⟩ := by
  rw [act_close h, attached, party_put_opposite, duplex_put]

theorem toBytes_close (d : Duplex) (s : Side) :
    (d.close.inbound s.opposite).toBytes = (d.outbound s).toBytes := by cases s <;> rfl

theorem Inv.ebbing {gens : Side → UInt64 → Prop} (h : Inv gens p) (hactive : (p.party s).Active)
    (hother : (p.party s.opposite).Active)
    (hroom : ∀ fs, (∀ f ∈ fs, f.Fits (p.party s).link.layout) →
      (p.attached s.opposite).stream = Fragment.wires (p.party s).link.layout fs →
      ∀ f ∈ fs, f.wireLength (p.party s).link.layout ≤
        (p.party s.opposite).link.settings.rawLimit) :
    ∃ todo, Ebbing (p.party s).link.layout todo ((p.act s .close).attached s.opposite) := by
  obtain ⟨pending, seen, todo, hcourse, hbytes, -⟩ := (h.flow s).hears hother
  have hstream : (p.attached s.opposite).stream =
      Fragment.wires (p.party s).link.layout todo := by
    rw [← hbytes]
    show (p.party s.opposite).link.raw ++ (p.duplex.inbound s.opposite).toBytes = _
    rw [Duplex.inbound, Side.opposite_opposite]
  have hfits : ∀ f ∈ todo, f.Fits (p.party s).link.layout := hcourse.fits
  refine ⟨todo, ?_⟩
  rw [attached_close hactive]
  refine ⟨h.layout s, h.valid s.opposite, ?_, ?_, ?_, hfits, hroom todo hfits hstream⟩
  · cases s <;> rfl
  · cases s <;> rfl
  · show (p.party s.opposite).link.raw ++ (p.duplex.close.inbound s.opposite).toBytes = _
    rw [toBytes_close]
    exact hbytes

/-- When a side closes and its peer then receives until that fails, as it does in the end, the peer
has all buffers that were accepted exactly if it had them before the close. -/
theorem delivered_iff_before_close (now : Moment) (id : Side → Nat) (settings : Side → Settings)
    (generation : Side → UInt64) (es : List Event) (hvalid : ∀ s, (settings s).Valid)
    (hlayout : (settings .first).layout = (settings .second).layout)
    (hapart : Apart generation fun s => advances s es) (s : Side)
    (hp : p = (opened now id settings generation).run es) (hactive : (p.party s).Active)
    (hroom : ∀ fs, (∀ f ∈ fs, f.Fits (p.party s).link.layout) →
      (p.attached s.opposite).stream = Fragment.wires (p.party s).link.layout fs →
      ∀ f ∈ fs, f.wireLength (p.party s).link.layout ≤
        (p.party s.opposite).link.settings.rawLimit) :
    ∃ n, ((p.act s .close).receives s.opposite n).Fails s.opposite ∧
      (∀ m, m < n → ¬ ((p.act s .close).receives s.opposite m).Fails s.opposite) ∧
      ((((p.act s .close).receives s.opposite (n + 1)).party s.opposite).delivered =
          (p.party s).accepted ↔
        (p.party s.opposite).delivered = (p.party s).accepted) := by
  have hstart := inv_opened (fun s => Reached (generation s) (advances s es)) now id generation
    hvalid hlayout
  have hrun := hstart.run hapart.ne_zero hapart.disjoint es fun s i hi => ⟨i, hi, rfl⟩
  rw [← hp] at hrun
  have hattached := attached_close hactive
  have hparty : (p.act s .close).party s.opposite = p.party s.opposite := by
    rw [act_close hactive, party_put_opposite]
  have hsevered : ((p.act s .close).attached s.opposite).Severed := by
    right
    rw [hattached]
    cases s <;> rfl
  have hfails : ∃ n, ((p.act s .close).receives s.opposite n).Fails s.opposite ∧
      ∀ m, m < n → ¬ ((p.act s .close).receives s.opposite m).Fails s.opposite := by
    by_cases hother : (p.party s.opposite).Active
    · obtain ⟨todo, hebbing⟩ := hrun.ebbing hactive hother hroom
      exact fails_of_ebbing hebbing
    · have hinactive : ¬ ((p.act s .close).party s.opposite).Active := by
        rw [hparty]
        exact hother
      exact ⟨0, fails_of_inactive hinactive, fun m hm => absurd hm (Nat.not_lt_zero m)⟩
  obtain ⟨n, hn, hbefore⟩ := hfails
  refine ⟨n, hn, hbefore, ?_⟩
  rw [delivered_receives hsevered, hparty]

/-- the first side writes, and the second one has received nothing yet -/
def unread : Pair :=
  (opened .start (fun _ => 7) (fun _ => {}) spaced).run
    [.act .first (.write [117, 110, 114, 101, 97, 100] true)]

/-- a bundle that was on its way when the peer closed is lost -/
theorem delivered_iff_before_close_unread :
    Apart spaced (fun s => advances s [.act .first (.write [117, 110, 114, 101, 97, 100] true)]) ∧
      (unread.party .first).Active ∧
      (unread.party .first).accepted = [[117, 110, 114, 101, 97, 100]] ∧
      ∃ n, ((unread.act .first .close).receives Side.first.opposite n).Fails
          Side.first.opposite ∧
        (((unread.act .first .close).receives Side.first.opposite (n + 1)).party
          Side.first.opposite).delivered ≠ (unread.party .first).accepted := by
  have hapart : Apart spaced
      (fun s => advances s [.act .first (.write [117, 110, 114, 101, 97, 100] true)]) :=
    .of_lt (by decide) (by decide) (by decide)
  have hactive : (unread.party .first).Active := ⟨by decide +kernel, by decide +kernel⟩
  have haccepted : (unread.party .first).accepted = [[117, 110, 114, 101, 97, 100]] := by
    decide +kernel
  have hdelivered : (unread.party Side.first.opposite).delivered ≠
      (unread.party .first).accepted := by decide +kernel
  have hlength : (unread.attached Side.first.opposite).stream.length ≤
      (unread.party Side.first.opposite).link.settings.rawLimit := by decide +kernel
  have hroom (fs : List Fragment) (_ : ∀ f ∈ fs, f.Fits (unread.party .first).link.layout)
      (hfs : (unread.attached Side.first.opposite).stream =
        Fragment.wires (unread.party .first).link.layout fs) (f : Fragment) (hf : f ∈ fs) :
      f.wireLength (unread.party .first).link.layout ≤
        (unread.party Side.first.opposite).link.settings.rawLimit := by
    rw [hfs] at hlength
    exact Nat.le_trans (Wire.wireLength_le_wires hf) hlength
  obtain ⟨n, hn, -, hiff⟩ := delivered_iff_before_close .start (fun _ => 7) (fun _ => {}) _ _
    (fun _ => Settings.valid_default) rfl hapart .first rfl hactive hroom
  exact ⟨hapart, hactive, haccepted, n, hn, fun hall => hdelivered (hiff.mp hall)⟩

end Pair

end BundleLink
