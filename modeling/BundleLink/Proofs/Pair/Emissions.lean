import BundleLink.Proofs.Answering
import BundleLink.Proofs.Pair.Invariant

/-!
# What the sides put into their pipes

A side writes fragment by fragment. During a run it can be watched which buffers each side puts into
its pipe, without any look at what the peer makes of them.

* `Pair.emitted`, `Pair.emissions`  the buffers that a side writes in one event, and in a run;
* `Pair.attached_put`               how a side sees its link after it came to another state;
* `Pair.stream_put_opposite`        what the peer has to take apart then;
* `Pair.emitted_put`                what was emitted, if it is known what stands in the pipe.

The same is said of the outcome of an operation by `attached_settle` and so on.
-/

namespace BundleLink.Pair

/-- what an event makes a side write: what stands at the end of its pipe and did not before -/
def emitted (p : Pair) (s : Side) : Event → List Bytes
  | .act t op =>
    if t = s then
      (Medium.outgoing ((p.act s op).attached s).channel).drop
        (Medium.outgoing (p.attached s).channel).length
    else []
  | _ => []

/-- what a side writes during a run, the oldest buffer first -/
def emissions (p : Pair) (s : Side) : List Event → List Bytes
  | [] => []
  | e :: es => p.emitted s e ++ (p.step e).emissions s es

variable {p : Pair} {s : Side}

/-! ## operations on a channel -/

theorem act_of_halted (h : (p.party s).halted = true) : p.act s .receive = p := if_pos h

theorem act_receive (h : (p.party s).halted = false) :
    p.act s .receive = p.settle s [] ((p.attached s).receive p.now) := by
  show (if (p.party s).halted then p else _) = _
  rw [if_neg (by rw [h]; exact Bool.false_ne_true)]
  rfl

@[simp] theorem party_settle_opposite (bs : List Bytes) (r : Outcome End Unit) :
    (p.settle s bs r).party s.opposite = p.party s.opposite := by
  rcases r with ⟨_, a⟩ | ⟨_ | _, a⟩ <;> exact party_put_opposite p s _ _

@[simp] theorem duplex_settle (bs : List Bytes) (r : Outcome End Unit) :
    (p.settle s bs r).duplex = r.after.channel.duplex := by
  rcases r with ⟨_, a⟩ | ⟨_ | _, a⟩ <;> rfl

@[simp] theorem link_settle (bs : List Bytes) (r : Outcome End Unit) :
    ((p.settle s bs r).party s).link = r.after.link := by
  rcases r with ⟨_, a⟩ | ⟨_ | _, a⟩
  all_goals
    rw [settle, party_put]
    rfl

/-- an outcome puts a party with its link in the place of the side -/
theorem settle_eq_put (bs : List Bytes) (r : Outcome End Unit) :
    ∃ x, p.settle s bs r = p.put s x r.after.channel.duplex ∧ x.link = r.after.link := by
  rcases r with ⟨_, a⟩ | ⟨_ | _, a⟩ <;> exact ⟨_, rfl, rfl⟩

section
variable {x : Party} {b : Attached End} {op : Operation} {layout : Layout} {sent : List Fragment}

theorem attached_put (hx : x.link = b.link)
    (hdesc : Medium.description b.channel = Medium.description (p.attached s).channel) :
    (p.put s x b.channel.duplex).attached s = b := by
  have hside : b.channel.side = s := Side.description_inj hdesc
  rw [attached, party_put, duplex_put, hx, ← hside]

/-- the peer has to take apart what it had to before, and then what was written -/
theorem stream_put_opposite
    (hdesc : Medium.description b.channel = Medium.description (p.attached s).channel)
    (hout : Medium.outgoing b.channel =
      Medium.outgoing (p.attached s).channel ++ sent.map (Fragment.wire layout)) :
    ((p.put s x b.channel.duplex).attached s.opposite).stream =
      (p.attached s.opposite).stream ++ Fragment.wires layout sent := by
  have hbytes := outbound_eq hdesc hout
  show ((p.put s x b.channel.duplex).party s.opposite).link.raw ++
      (b.channel.duplex.outbound s.opposite.opposite).toBytes =
    (p.party s.opposite).link.raw ++ (p.duplex.outbound s.opposite.opposite).toBytes ++ _
  rw [party_put_opposite, Side.opposite_opposite, hbytes, List.append_assoc]

theorem emitted_put (hact : p.act s op = p.put s x b.channel.duplex) (hx : x.link = b.link)
    (hdesc : Medium.description b.channel = Medium.description (p.attached s).channel)
    (hout : Medium.outgoing b.channel =
      Medium.outgoing (p.attached s).channel ++ sent.map (Fragment.wire layout)) :
    p.emitted s (.act s op) = sent.map (Fragment.wire layout) := by
  rw [emitted, if_pos rfl, hact, attached_put hx hdesc, hout, List.drop_left]

end

theorem attached_settle {bs : List Bytes} {r : Outcome End Unit}
    (h : Medium.description r.after.channel = Medium.description (p.attached s).channel) :
    (p.settle s bs r).attached s = r.after := by
  obtain ⟨x, hsettle, hx⟩ := settle_eq_put (p := p) (s := s) bs r
  rw [hsettle, attached_put hx h]

theorem delivered_settle {r : Outcome End Unit}
    (h : r.after.link.ready = (p.attached s).link.ready) :
    ((p.settle s [] r).party s).delivered = (p.party s).delivered := by
  rcases r with ⟨_, a⟩ | ⟨_ | _, a⟩
  all_goals
    rw [settle, party_put]
    exact congrArg ((p.party s).taken ++ ·) h

theorem stream_settle_opposite {bs : List Bytes} {r : Outcome End Unit} {layout : Layout}
    {sent : List Fragment}
    (hdesc : Medium.description r.after.channel = Medium.description (p.attached s).channel)
    (hout : Medium.outgoing r.after.channel =
      Medium.outgoing (p.attached s).channel ++ sent.map (Fragment.wire layout)) :
    ((p.settle s bs r).attached s.opposite).stream =
      (p.attached s.opposite).stream ++ Fragment.wires layout sent := by
  obtain ⟨x, hsettle, -⟩ := settle_eq_put (p := p) (s := s) bs r
  rw [hsettle, stream_put_opposite hdesc hout]

theorem emitted_settle {op : Operation} {bs : List Bytes} {r : Outcome End Unit} {layout : Layout}
    {sent : List Fragment} (hact : p.act s op = p.settle s bs r)
    (hdesc : Medium.description r.after.channel = Medium.description (p.attached s).channel)
    (hout : Medium.outgoing r.after.channel =
      Medium.outgoing (p.attached s).channel ++ sent.map (Fragment.wire layout)) :
    p.emitted s (.act s op) = sent.map (Fragment.wire layout) := by
  obtain ⟨x, hsettle, hx⟩ := settle_eq_put (p := p) (s := s) bs r
  exact emitted_put (hact.trans hsettle) hx hdesc hout

theorem emitted_opposite (op : Operation) : p.emitted s.opposite (.act s op) = [] := by
  cases s <;> rfl

/-- an operation that does not reach the channel -/
theorem emitted_of_duplex {op : Operation} (h : (p.act s op).duplex = p.duplex) :
    p.emitted s (.act s op) = [] := by
  have hsame : ((p.act s op).attached s).channel = (p.attached s).channel := by
    rw [attached, attached, h]
  rw [emitted, if_pos rfl, hsame]
  exact List.drop_length

end BundleLink.Pair
