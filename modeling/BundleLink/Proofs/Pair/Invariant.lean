import BundleLink.Proofs.Hearing
import BundleLink.Proofs.Pair.Basic
import BundleLink.Proofs.Writing

/-!
# The invariant of two connected links

In each direction the bundles that one party delivered are the first ones of those that the other
one had accepted, and while the receiving link is open, all others are still on their way: the bytes
in its raw buffer and in the pipe are the wire forms of the fragments it has still to handle.

* `Pair.Flow`       one direction;
* `Pair.Inv`        both directions, and what each sender relies on;
* `Inv.same`        operations that the peer does not notice;
* `Inv.write`, `Inv.receive`  the two operations that it consists of.
-/

namespace BundleLink

/-! ## one direction -/

theorem Replies.proper {own : UInt64 → Prop} {n : UInt64} {sent : List Message}
    (h : Replies own n sent) (layout : Layout) : ∀ m ∈ sent, m.Proper layout := by
  intro m hm
  obtain ⟨k, rfl, hk, -⟩ := h m hm
  exact hk

/-- the key of a bundle that was written was given out -/
theorem Attached.Written.sends {buffer : Bytes} {parts : List Fragment} {now : Moment}
    {a b : Attached End} (h : Written buffer parts now a b)
    (hproper : a.nextKey.isProper = true) (hsends : a.link.Sends) :
    b.link.Sends := by
  refine ⟨?_, h.ne_zero⟩
  intro k fs hk
  rw [h.outbound, Table.get?_put] at hk
  split at hk
  · rename_i heq
    rw [heq]
    exact ⟨hproper, h.lt⟩
  · obtain ⟨hk', hlt⟩ := hsends.outbound k fs hk
    exact ⟨hk', UInt64.lt_trans hlt h.lt⟩

/-- what a peer sends behind everything else is heard after everything else -/
theorem Link.Hears.append {own : UInt64 → Prop} {layout : Layout} {n n' : UInt64}
    {accepted accepted' taken : List Bytes} {l : Link} {bytes : Bytes} {sent : List Message}
    (h : l.Hears own layout n accepted taken bytes) (hn : n ≤ n')
    (hproper : ∀ m ∈ sent, m.Proper layout)
    (hnumbered : ∀ m ∈ sent, own m.key.generation → m.key.message < n')
    (howned : ∀ k buffer parts, .bundle k buffer parts ∈ sent → own k.generation ∧ n ≤ k.message)
    (hdistinct : sent.Pairwise fun m m' =>
      ∀ k buffer parts, m' = .bundle k buffer parts → m.key ≠ k)
    (haccepted : accepted' = accepted ++ sent.flatMap Message.buffers) :
    l.Hears own layout n' accepted' taken
      (bytes ++ Fragment.wires layout (sent.flatMap Message.fragments)) := by
  obtain ⟨pending, seen, todo, hc, hstream, hcase⟩ := h
  have hc' := hc.append hn hproper hnumbered howned hdistinct haccepted
  refine ⟨pending ++ sent, seen, todo ++ sent.flatMap Message.fragments, hc', ?_, ?_⟩
  · rw [← List.append_assoc, hstream, Fragment.wires_append]
  · rcases hcase with ⟨hfull, f, hf, hshort⟩ | hassembled
    · left
      refine ⟨hfull, f, ?_, hshort⟩
      rw [List.head?_append, hf]
      rfl
    · exact .inr (hassembled.append hc hc' hn fun k b ps hk => (howned k b ps hk).2)

namespace Party

def Active (x : Party) : Prop := x.link.connected = true ∧ x.halted = false

theorem not_active {x : Party} (h : x.link.connected = false) : ¬ x.Active := by
  rintro ⟨hopen, -⟩
  rw [h] at hopen
  cases hopen

/-- The party became another one, but the peer would not notice before the next bundle. -/
structure Alike (x y : Party) : Prop where
  layout : y.link.layout = x.link.layout
  settings : y.link.settings = x.link.settings
  nextMessage : y.link.nextMessage = x.link.nextMessage
  accepted : y.accepted = x.accepted
  delivered : y.delivered = x.delivered
  active : y.Active → x.Active ∧ y.link.raw = x.link.raw ∧ y.link.inbound = x.link.inbound ∧
    y.link.outbound = x.link.outbound

/-- the peer would not notice at all -/
structure Same (x y : Party) : Prop extends Alike x y where
  generation : y.link.generation = x.link.generation

theorem Same.refl (x : Party) : x.Same x :=
  ⟨⟨rfl, rfl, rfl, rfl, rfl, fun hx => ⟨hx, rfl, rfl, rfl⟩⟩, rfl⟩

end Party

namespace Pair

/-- The direction from `x` to `y`, with the bytes in the pipe between them. -/
structure Flow (own : UInt64 → Prop) (x y : Party) (bytes : Bytes) : Prop where
  isPrefix : y.delivered <+: x.accepted
  hears : y.Active →
    y.link.Hears own x.link.layout x.link.nextMessage x.accepted y.taken bytes

theorem Flow.of_hears {own : UInt64 → Prop} {x y : Party} {bytes : Bytes}
    (h : y.link.Hears own x.link.layout x.link.nextMessage x.accepted y.taken bytes) :
    Flow own x y bytes := by
  obtain ⟨pending, seen, todo, hc, -⟩ := id h
  exact ⟨hc.isPrefix, fun _ => h⟩

theorem Flow.of_inactive {own : UInt64 → Prop} {x y : Party} {bytes : Bytes}
    (h : y.delivered <+: x.accepted) (hy : ¬ y.Active) : Flow own x y bytes :=
  ⟨h, fun hactive => absurd hactive hy⟩

theorem Flow.send {own : UInt64 → Prop} {x x' y : Party} {bytes : Bytes} {sent : List Message}
    (h : Flow own x y bytes) (hlayout : x'.link.layout = x.link.layout)
    (hn : x.link.nextMessage ≤ x'.link.nextMessage)
    (hproper : ∀ m ∈ sent, m.Proper x.link.layout)
    (hnumbered : ∀ m ∈ sent, own m.key.generation → m.key.message < x'.link.nextMessage)
    (howned : ∀ k buffer parts, .bundle k buffer parts ∈ sent →
      own k.generation ∧ x.link.nextMessage ≤ k.message)
    (hdistinct : sent.Pairwise fun m m' =>
      ∀ k buffer parts, m' = .bundle k buffer parts → m.key ≠ k)
    (haccepted : x'.accepted = x.accepted ++ sent.flatMap Message.buffers) :
    Flow own x' y (bytes ++ Fragment.wires x.link.layout (sent.flatMap Message.fragments)) := by
  constructor
  · rw [haccepted]
    exact h.isPrefix.trans (List.prefix_append _ _)
  · intro hy
    rw [hlayout]
    exact (h.hears hy).append hn hproper hnumbered howned hdistinct haccepted

/-- the sender changed, but the receiver can not tell -/
theorem Flow.sender {own : UInt64 → Prop} {x x' y : Party} {bytes : Bytes} (h : Flow own x y bytes)
    (hlayout : x'.link.layout = x.link.layout)
    (hn : x.link.nextMessage ≤ x'.link.nextMessage) (haccepted : x'.accepted = x.accepted) :
    Flow own x' y bytes := by
  have hsend : Flow own x' y (bytes ++
      Fragment.wires x.link.layout (([] : List Message).flatMap Message.fragments)) :=
    h.send hlayout hn (fun _ hm => nomatch hm) (fun _ hm => nomatch hm)
      (fun _ _ _ hm => nomatch hm) .nil (by rw [haccepted]; exact (List.append_nil _).symm)
  rw [List.flatMap_nil, Fragment.wires_nil, List.append_nil] at hsend
  exact hsend

/-- the receiver changed, but not what it received -/
theorem Flow.receiver {own : UInt64 → Prop} {x y y' : Party} {bytes : Bytes}
    (h : Flow own x y bytes) (hsettings : y'.link.settings = y.link.settings)
    (hdelivered : y'.delivered = y.delivered)
    (hactive : y'.Active → y.Active ∧ y'.link.raw = y.link.raw ∧
      y'.link.inbound = y.link.inbound) : Flow own x y' bytes := by
  refine ⟨by rw [hdelivered]; exact h.isPrefix, ?_⟩
  intro hy'
  obtain ⟨hy, hraw, hinbound⟩ := hactive hy'
  obtain ⟨pending, seen, todo, hc, hstream, hcase⟩ := h.hears hy
  have hready : y'.taken ++ y'.link.ready = y.taken ++ y.link.ready := hdelivered
  refine ⟨pending, seen, todo, by rw [hready]; exact hc, by rw [hraw]; exact hstream, ?_⟩
  rw [hinbound, Link.Stuck, hraw, hsettings]
  exact hcase

/-! ## both directions -/

/-- What holds between two operations, if `gens` are the generations of each side. -/
structure Inv (gens : Side → UInt64 → Prop) (p : Pair) : Prop where
  layout : ∀ s, (p.party s.opposite).link.layout = (p.party s).link.layout
  valid : ∀ s, (p.party s).link.settings.Valid
  sends : ∀ s, (p.party s).Active → (p.party s).link.Sends
  flow : ∀ s, Flow (gens s) (p.party s) (p.party s.opposite) (p.duplex.outbound s).toBytes

variable {gens : Side → UInt64 → Prop} {p : Pair} {s : Side} {x : Party} {d : Duplex}

theorem Inv.put (h : Inv gens p) (hlayout : x.link.layout = (p.party s).link.layout)
    (hsettings : x.link.settings = (p.party s).link.settings)
    (hsends : x.Active → x.link.Sends)
    (hout : Flow (gens s) x (p.party s.opposite) (d.outbound s).toBytes)
    (hin : Flow (gens s.opposite) (p.party s.opposite) x (d.outbound s.opposite).toBytes) :
    Inv gens (p.put s x d) := by
  refine ⟨fun t => ?_, fun t => ?_, fun t => ?_, fun t => ?_⟩
  all_goals rcases Side.eq_or_opposite s t with rfl | rfl
  · rw [party_put_opposite, party_put, hlayout]
    exact h.layout t
  · rw [Side.opposite_opposite, party_put, party_put_opposite, hlayout]
    exact (h.layout s).symm
  · rw [party_put, hsettings]
    exact h.valid t
  · rw [party_put_opposite]
    exact h.valid _
  · rw [party_put]
    exact hsends
  · rw [party_put_opposite]
    exact h.sends _
  · rw [party_put_opposite, party_put]
    exact hout
  · rw [Side.opposite_opposite, party_put, party_put_opposite]
    exact hin

/-- The invariant holds after an operation, and the generations are as before. -/
structure Keeps (gens : Side → UInt64 → Prop) (p p' : Pair) : Prop where
  inv : Inv gens p'
  generation : ∀ t, (p'.party t).link.generation = (p.party t).link.generation

theorem Keeps.put (h : Inv gens (p.put s x d))
    (hgeneration : x.link.generation = (p.party s).link.generation) :
    Keeps gens p (p.put s x d) := by
  refine ⟨h, ?_⟩
  intro t
  rcases Side.eq_or_opposite s t with rfl | rfl
  · rw [party_put, hgeneration]
  · rw [party_put_opposite]

/-- operations that the peer does not notice before the next bundle -/
theorem Inv.alike (h : Inv gens p) (hsame : (p.party s).Alike x)
    (hd : ∀ t, (d.outbound t).toBytes = (p.duplex.outbound t).toBytes) :
    Inv gens (p.put s x d) := by
  have hflow := h.flow s.opposite
  rw [Side.opposite_opposite] at hflow
  refine h.put hsame.layout hsame.settings ?_ ?_ ?_
  · intro hx
    obtain ⟨hactive, -, -, hout⟩ := hsame.active hx
    exact (h.sends s hactive).congr hout hsame.nextMessage
  · rw [hd]
    exact (h.flow s).sender hsame.layout (by rw [hsame.nextMessage]; exact UInt64.le_refl _)
      hsame.accepted
  · rw [hd]
    apply hflow.receiver hsame.settings hsame.delivered
    intro hx
    obtain ⟨hactive, hraw, hinbound, -⟩ := hsame.active hx
    exact ⟨hactive, hraw, hinbound⟩

theorem Inv.same (h : Inv gens p) (hsame : (p.party s).Same x)
    (hd : ∀ t, (d.outbound t).toBytes = (p.duplex.outbound t).toBytes) :
    Keeps gens p (p.put s x d) := .put (h.alike hsame.toAlike hd) hsame.generation

/-! ## the channel of one side -/

/-- a channel with the description of a side is the end of that side -/
theorem incoming_eq {b : Attached End}
    (h : Medium.description b.channel = Medium.description (p.attached s).channel) :
    Medium.incoming b.channel = (b.channel.duplex.outbound s.opposite).toBytes ∧
      (Medium.outgoing b.channel).flatten = (b.channel.duplex.outbound s).toBytes := by
  have hside : b.channel.side = s := Side.description_inj h
  constructor
  · show (b.channel.duplex.inbound b.channel.side).toBytes = _
    rw [hside]
    rfl
  · show ((b.channel.duplex.outbound b.channel.side).segments).flatten = _
    rw [hside]
    rfl

theorem flatten_wires (layout : Layout) (fs : List Fragment) :
    (fs.map (Fragment.wire layout)).flatten = Fragment.wires layout fs :=
  (List.flatMap_def).symm

/-- what was written at a side stands in its pipe behind everything else -/
theorem outbound_eq {layout : Layout} {fs : List Fragment} {b : Attached End}
    (hdesc : Medium.description b.channel = Medium.description (p.attached s).channel)
    (hout : Medium.outgoing b.channel =
      Medium.outgoing (p.attached s).channel ++ fs.map (Fragment.wire layout)) :
    (b.channel.duplex.outbound s).toBytes =
      (p.duplex.outbound s).toBytes ++ Fragment.wires layout fs := by
  rw [← (incoming_eq hdesc).2, hout, List.flatten_append, flatten_wires]
  rfl

/-! ## one operation -/

variable {buffer : Bytes} {flushNow : Bool}

theorem Inv.sent (h : Inv gens p) (hnonzero : ∀ s g, gens s g → g ≠ 0)
    (hgen : gens s (p.party s).link.generation) (hactive : (p.party s).Active)
    {b : Attached End} {parts : List Fragment}
    (hwritten : Attached.Written buffer parts p.now (p.attached s) b) :
    Keeps gens p (p.settle s [buffer] (.ok () b)) := by
  have hproper : (p.attached s).nextKey.isProper = true :=
    Attached.isProper_nextKey (hnonzero s _ hgen) (h.sends s hactive).first
  have hflow := h.flow s.opposite
  rw [Side.opposite_opposite] at hflow
  refine .put (h.put hwritten.layout hwritten.settings
    (fun _ => hwritten.sends hproper (h.sends s hactive)) ?_ ?_) hwritten.generation
  · rw [outbound_eq hwritten.description hwritten.outgoing]
    have hmessages : parts = [Message.bundle (p.attached s).nextKey buffer parts].flatMap
        Message.fragments := (List.append_nil _).symm
    rw [hmessages]
    refine (h.flow s).send hwritten.layout (UInt64.le_of_lt hwritten.lt) ?_ ?_ ?_
      (List.pairwise_singleton _ _) rfl
    · intro m hm
      rw [List.mem_singleton.mp hm]
      exact ⟨hproper, .of_split hwritten.split⟩
    · intro m hm _
      rw [List.mem_singleton.mp hm]
      exact hwritten.lt
    · intro k b' ps hk
      cases List.mem_singleton.mp hk
      exact ⟨hgen, UInt64.le_refl _⟩
  · rw [← (incoming_eq hwritten.description).1, hwritten.incoming]
    refine hflow.receiver hwritten.settings ?_ fun _ => ⟨hactive, hwritten.raw, hwritten.inbound⟩
    show (p.party s).taken ++ b.link.ready = (p.party s).taken ++ (p.party s).link.ready
    rw [hwritten.ready]
    rfl

theorem Inv.unchanged (h : Inv gens p) (buffers : List Bytes) (e : Failure LinkError) :
    Keeps gens p (p.settle s buffers (.error e (p.attached s))) := by
  cases e with
  | error e => exact h.same (.refl _) fun _ => rfl
  | fault f =>
    refine h.same ⟨⟨rfl, rfl, rfl, rfl, rfl, ?_⟩, rfl⟩ fun _ => rfl
    intro hx
    exact absurd hx.2 (by simp)

theorem Inv.write (h : Inv gens p) (hnonzero : ∀ s g, gens s g → g ≠ 0)
    (hgen : gens s (p.party s).link.generation) (hhalted : (p.party s).halted = false)
    (buffer : Bytes) (flushNow : Bool) :
    Keeps gens p (p.settle s [buffer] ((p.attached s).write buffer flushNow p.now)) := by
  cases hopen : (p.party s).link.connected with
  | false =>
    rw [Attached.write_of_closed hopen]
    exact h.unchanged _ _
  | true =>
    generalize hr : (p.attached s).write buffer flushNow p.now = r
    have hcases := Attached.write_result (a := p.attached s) hopen buffer flushNow p.now
    rw [hr] at hcases
    cases hcases with
    | sent b parts written => exact h.sent hnonzero hgen ⟨hopen, hhalted⟩ written
    | refused e => exact h.unchanged _ _
    | faulted e => exact h.unchanged _ _
    | broken e b _ room shut =>
      have hinactive : ¬ Party.Active { p.party s with link := b.link } :=
        Party.not_active shut.closed
      have hflow := h.flow s.opposite
      rw [Side.opposite_opposite] at hflow
      have hbytes : (b.channel.duplex.outbound s).toBytes = (p.duplex.outbound s).toBytes := by
        rw [← (incoming_eq shut.description).2, shut.outgoing]
        rfl
      refine .put (h.put shut.layout shut.settings (fun hx => absurd hx hinactive) ?_ ?_)
        shut.generation
      · rw [hbytes]
        refine (h.flow s).sender shut.layout ?_ rfl
        show (p.party s).link.nextMessage ≤ b.link.nextMessage
        rw [shut.nextMessage]
        exact UInt64.le_of_lt (Link.lt_nextMessage_succ room).1
      · refine .of_inactive ?_ hinactive
        show (p.party s).taken ++ b.link.ready <+: _
        rw [shut.ready]
        exact hflow.isPrefix

theorem Flow.answered {own : UInt64 → Prop} {x x' y : Party} {bytes : Bytes} {sent : List Message}
    (h : Flow own x y bytes) (hlayout : x'.link.layout = x.link.layout)
    (hnext : x'.link.nextMessage = x.link.nextMessage) (haccepted : x'.accepted = x.accepted)
    (hsent : Replies own x.link.nextMessage sent) :
    Flow own x' y (bytes ++ Fragment.wires x.link.layout (sent.flatMap Message.fragments)) := by
  have hnone : sent.flatMap Message.buffers = [] := by
    rw [List.flatMap_eq_nil_iff]
    intro m hm
    obtain ⟨k, rfl, -⟩ := hsent m hm
    rfl
  have hnot (k : Key) (b : Bytes) (ps : List Fragment) : .bundle k b ps ∉ sent := by
    intro hm
    obtain ⟨j, heq, -⟩ := hsent _ hm
    cases heq
  refine h.send hlayout (by rw [hnext]; exact UInt64.le_refl _) (hsent.proper _) ?_ ?_ ?_
    (by rw [haccepted, hnone, List.append_nil])
  · intro m hm hown
    obtain ⟨k, rfl, -, hlt⟩ := hsent m hm
    rw [hnext]
    exact hlt hown
  · intro k b ps hm
    exact absurd hm (hnot k b ps)
  · apply List.pairwise_of_forall_mem_list
    intro m _ m' hm' k b ps heq
    exact absurd (heq ▸ hm') (hnot k b ps)

/-- a receive sends acks in the other direction -/
theorem Inv.answered (h : Inv gens p) {b : Attached End} (hlink : x.link = b.link)
    (haccepted : x.accepted = (p.party s).accepted)
    (hanswered : Attached.Answered (gens s) (p.party s.opposite).link.layout (p.attached s) b) :
    Flow (gens s) x (p.party s.opposite) (b.channel.duplex.outbound s).toBytes := by
  obtain ⟨sent, hsent, hout⟩ := hanswered.outgoing
  rw [outbound_eq hanswered.description hout, h.layout s]
  refine (h.flow s).answered ?_ ?_ haccepted hsent
  · rw [hlink]
    exact hanswered.sameLayout
  · rw [hlink]
    exact hanswered.sameNext

/-- a receive that failed, with an error that closed the link or with a fault -/
theorem Inv.ended (h : Inv gens p) {b : Attached End} {e : Failure LinkError}
    (hb : Attached.Ended (gens s) (p.party s.opposite).link.layout (p.party s.opposite).accepted
      (p.party s).taken (p.attached s) e b) (hlink : x.link = b.link)
    (htaken : x.taken = (p.party s).taken) (haccepted : x.accepted = (p.party s).accepted)
    (hinactive : ¬ x.Active) : Keeps gens p (p.put s x b.channel.duplex) := by
  have hprefix : x.delivered <+: (p.party s.opposite).accepted := by
    rw [Party.delivered, htaken, hlink]
    exact hb.isPrefix
  have hanswered := hb.answered
  have hlayout : x.link.layout = (p.party s).link.layout := by
    rw [hlink]
    exact hanswered.sameLayout
  have hsettings : x.link.settings = (p.party s).link.settings := by
    rw [hlink]
    exact hanswered.sameSettings
  have hgeneration : x.link.generation = (p.party s).link.generation := by
    rw [hlink]
    exact hanswered.sameGeneration
  exact .put (h.put hlayout hsettings (fun hx => absurd hx hinactive)
    (h.answered hlink haccepted hanswered) (.of_inactive hprefix hinactive)) hgeneration

theorem Inv.receive (h : Inv gens p) (hapart : ∀ g, gens .first g → ¬ gens .second g)
    (hhalted : (p.party s).halted = false) :
    Keeps gens p (p.settle s [] ((p.attached s).receive p.now)) := by
  cases hopen : (p.party s).link.connected with
  | false =>
    rw [Attached.receive_of_closed hopen]
    exact h.unchanged _ _
  | true =>
    have hactive : (p.party s).Active := ⟨hopen, hhalted⟩
    have hflow := h.flow s.opposite
    rw [Side.opposite_opposite] at hflow
    have hdisjoint : ∀ g, gens s.opposite g → ¬ gens s g := by
      cases s with
      | first => exact fun g h2 h1 => hapart g h1 h2
      | second => exact hapart
    have hreceive := Attached.receive_hears (a := p.attached s) End.prompt
      (h.valid s).readChunk_pos hopen (h.layout s).symm hdisjoint (h.sends s hactive)
      (hflow.hears hactive) p.now
    cases hr : (p.attached s).receive p.now with
    | ok _ b =>
      rw [hr] at hreceive
      have hb : Attached.Continued (gens s) (gens s.opposite) (p.party s.opposite).link.layout
        (p.party s.opposite).link.nextMessage (p.party s.opposite).accepted (p.party s).taken
        (p.attached s) b := hreceive
      have hhears := hb.hears
      rw [(incoming_eq hb.answered.description).1] at hhears
      exact .put (h.put hb.answered.sameLayout hb.answered.sameSettings (fun _ => hb.sends)
        (h.answered rfl (List.append_nil _) hb.answered) (.of_hears hhears))
        hb.answered.sameGeneration
    | error e b =>
      rw [hr] at hreceive
      have hb : Attached.Ended (gens s) (p.party s.opposite).link.layout
        (p.party s.opposite).accepted (p.party s).taken (p.attached s) e b := hreceive
      cases e with
      | error e =>
        have hclosed : b.link.connected = false := by
          rcases hb.stopped with ⟨f, hf⟩ | hclosed
          · cases hf
          · exact hclosed
        exact h.ended hb rfl rfl rfl (Party.not_active hclosed)
      | fault f => exact h.ended hb rfl rfl rfl fun hx => absurd hx.2 (by simp)

end Pair

end BundleLink
