import BundleLink.Proofs.Keeping
import BundleLink.Proofs.Pair.Exchange
import BundleLink.Proofs.Pair.Invariant

/-!
# One direction of a pair

Of the messages on their way from one party to the other, some fragments may be handled already, and
the others stand in the raw bytes of the receiver and in the pipe.

* `Party.Steady`       a party at work, whose clock has stood still for a while;
* `Trail`              the messages on their way to one side, and what is still to be handled;
* `Lane`               the direction between two parties along a trail;
* `Lane.sent`, `Lane.acked`  more messages behind the others.
-/

namespace BundleLink

open Link (Still)

/-! ## channels and writes -/

/-- only a close closes a pipe -/
theorem End.lasting_unclosed :
    Channel.Lasting fun e : End => ∀ u, (e.duplex.outbound u).closed = false := by
  refine ⟨fun {e} h n u => ?_, fun {e} h bs u => ?_, fun h => h⟩
  · show ((e.duplex.setOutbound e.side.opposite
      ((e.duplex.outbound e.side.opposite).read n).2).outbound u).closed = false
    rw [Duplex.outbound_set]
    split
    · rw [Pipe.closed_read]
      exact h _
    · exact h u
  · show ((e.duplex.setOutbound e.side ((e.duplex.outbound e.side).write bs).2).outbound u).closed =
      false
    rw [Duplex.outbound_set]
    split
    · rw [Pipe.closed_write]
      exact h _
    · exact h u

/-- a write while the clock stands still -/
theorem Attached.Written.still {σ : Type} [Channel σ] [Medium σ] {a b : Attached σ}
    {buffer : Bytes} {parts : List Fragment} {start : Link} {now : Moment} {count : Nat}
    (h : Written buffer parts now a b) (hstill : Still start now count a.link) :
    Still start now count b.link := by
  obtain ⟨n, hn, hgaps⟩ := hstill.gaps
  refine ⟨h.settings.trans hstill.settings, ⟨n, hn, h.gaps.trans hgaps⟩, fun t ht => ?_, ?_⟩
  · exact hstill.arrival t (h.lastArrival.symm.trans ht)
  · rcases h.lastProgress with hnow | hsame
    · exact hnow
    · exact hsame.trans hstill.progress

/-! ## one side -/

namespace Party

/-- The party is at work, and its clock has stood still since its link was `start`. -/
structure Steady (layout : Layout) (now : Moment) (start : Link) (x : Party) : Prop where
  active : x.Active
  sameLayout : x.link.layout = layout
  valid : x.link.settings.Valid
  still : ∃ count, Still start now count x.link
  room : layout.headerLength ≤ x.link.settings.rawLimit

theorem Steady.congr {layout : Layout} {now : Moment} {start : Link} {x y : Party}
    (h : x.Steady layout now start) (hactive : y.Active) (hlayout : y.link.layout = x.link.layout)
    (hsettings : y.link.settings = x.link.settings)
    (hstill : ∃ count, Still start now count y.link) : y.Steady layout now start := by
  refine ⟨hactive, hlayout.trans h.sameLayout, ?_, hstill, ?_⟩
  · rw [hsettings]
    exact h.valid
  · rw [hsettings]
    exact h.room

/-- a read takes a bundle out of the queue and changes nothing else -/
theorem Steady.gets {layout : Layout} {now : Moment} {start : Link} {x : Party}
    {r : Except LinkError (Option Bytes) × Link} (h : x.Steady layout now start)
    (hr : ∃ rest, r.2 = { x.link with ready := rest }) :
    (x.gets r).Steady layout now start ∧
      (x.gets r).link.fragmentSize = x.link.fragmentSize := by
  obtain ⟨rest, hrest⟩ := hr
  obtain ⟨hlink, hhalted⟩ := x.gets_eq r
  rw [hrest] at hlink
  obtain ⟨count, hstill⟩ := h.still
  refine ⟨h.congr ?_ (by rw [hlink]) (by rw [hlink]) ⟨count, ?_⟩, by rw [hlink]⟩
  · rw [Active, hlink, hhalted]
    exact h.active
  · rw [hlink]
    exact ⟨hstill.settings, hstill.gaps, hstill.arrival, hstill.progress⟩

end Party

/-- The messages on their way to one side, of which it has handled the fragments `seen` of the first
one and has still to handle `todo`. -/
structure Trail where
  pending : List Message
  seen : List Fragment
  todo : List Fragment

namespace Trail

/-- with more messages behind -/
def more (t : Trail) (ms : List Message) : Trail where
  pending := t.pending ++ ms
  seen := t.seen
  todo := t.todo ++ ms.flatMap Message.fragments

/-- the trails to a side, and to the other one -/
def both (s : Side) (mine theirs : Trail) : Side → Trail := fun u => if u = s then mine else theirs

@[simp] theorem both_self (s : Side) (mine theirs : Trail) : both s mine theirs s = mine :=
  if_pos rfl

@[simp] theorem both_opposite (s : Side) (mine theirs : Trail) :
    both s mine theirs s.opposite = theirs := if_neg (Side.opposite_ne s)

end Trail

/-- The direction from `x` to `y`, with the bytes in the pipe between them. -/
structure Lane (layout : Layout) (now : Moment) (x y : Party) (bytes : Bytes) (t : Trail) :
    Prop where
  passage : Passage layout x.link.nextMessage x.accepted y.delivered now y.link.inbound t.pending
    t.seen t.todo
  stream : y.link.raw ++ bytes = Fragment.wires layout t.todo
  room : ∀ f ∈ t.todo, f.wireLength layout ≤ y.link.settings.rawLimit

namespace Lane

variable {layout : Layout} {now : Moment} {x x' y y' : Party} {bytes : Bytes} {t : Trail}

/-- both parties changed, but not what is of concern to this direction -/
theorem congr (h : Lane layout now x y bytes t) (hnext : x'.link.nextMessage = x.link.nextMessage)
    (haccepted : x'.accepted = x.accepted) (hdelivered : y'.delivered = y.delivered)
    (hinbound : y'.link.inbound = y.link.inbound) (hraw : y'.link.raw = y.link.raw)
    (hsettings : y'.link.settings = y.link.settings) : Lane layout now x' y' bytes t := by
  refine ⟨?_, by rw [hraw]; exact h.stream, by rw [hsettings]; exact h.room⟩
  rw [hnext, haccepted, hdelivered, hinbound]
  exact h.passage

theorem sent (h : Lane layout now x y bytes t) {ms : List Message} {fs : List Fragment}
    (hfs : ms.flatMap Message.fragments = fs)
    (hpassage : Passage layout x'.link.nextMessage x'.accepted y.delivered now y.link.inbound
      (t.pending ++ ms) t.seen (t.todo ++ fs))
    (hroom : ∀ f ∈ fs, f.wireLength layout ≤ y.link.settings.rawLimit) :
    Lane layout now x' y (bytes ++ Fragment.wires layout fs) (t.more ms) := by
  subst hfs
  refine ⟨hpassage, ?_, ?_⟩
  · rw [← List.append_assoc, h.stream, ← Fragment.wires_append]
    rfl
  · intro f hf
    rcases List.mem_append.mp hf with hf | hf
    · exact h.room f hf
    · exact hroom f hf

theorem acked (h : Lane layout now x y bytes t) (ks : List Key)
    (hnext : x'.link.nextMessage = x.link.nextMessage) (haccepted : x'.accepted = x.accepted)
    (hroom : layout.headerLength ≤ y.link.settings.rawLimit) :
    Lane layout now x' y (bytes ++ Fragment.wires layout (ks.map Fragment.ack))
      (t.more (acks ks)) := by
  refine h.sent (Message.flatMap_fragments_acks ks) ?_ ?_
  · rw [hnext, haccepted]
    exact h.passage.sent_acks ks
  · intro f hf
    obtain ⟨k, -, rfl⟩ := List.mem_map.mp hf
    exact hroom

end Lane

end BundleLink
