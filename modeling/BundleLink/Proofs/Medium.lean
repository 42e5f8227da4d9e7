import BundleLink.Channel.Duplex
import BundleLink.Link.Receive

/-!
# Channels that carry bytes in order

A MEDIUM is a channel that hands out the bytes of the peer in order, whenever it hands out anything,
and that accepts every write until it is closed and none afterwards. Closing loses no bytes. When
its reads find nothing, end or fail is left open.

* `Medium`             the bytes still to be read, the buffers written, whether it is open, what it
  is called, and the laws of the calls;
* `Medium.Prompt`      a read that hands out nothing means that there is nothing;
* `fill_carries`       what a series of reads takes from the medium, and when it stops.

Both ends of a memory channel are prompt media.
-/

namespace BundleLink

/-- the bytes that a read hands out -/
def Arrival.taken : Except IoError Arrival → Bytes
  | .ok (.data bs) => bs
  | _ => []

class Medium (σ : Type) [Channel σ] where
  /-- the bytes that the reads are going to hand out -/
  incoming : σ → Bytes
  /-- what was written and not taken away by the peer yet, in order -/
  outgoing : σ → List Bytes
  isOpen : σ → Bool
  description : σ → String
  incoming_read : ∀ (n : Nat) (s : σ),
    incoming s = Arrival.taken (Channel.read n s).1 ++ incoming (Channel.read n s).2
  outgoing_read : ∀ (n : Nat) (s : σ), outgoing (Channel.read n s).2 = outgoing s
  isOpen_read : ∀ (n : Nat) (s : σ), isOpen (Channel.read n s).2 = isOpen s
  description_read : ∀ (n : Nat) (s : σ), description (Channel.read n s).2 = description s
  write_ok : ∀ (bs : Bytes) (s : σ), isOpen s = true → (Channel.write bs s).1 = .ok ()
  outgoing_write : ∀ (bs : Bytes) (s : σ), isOpen s = true →
    outgoing (Channel.write bs s).2 = outgoing s ++ [bs]
  incoming_write : ∀ (bs : Bytes) (s : σ), incoming (Channel.write bs s).2 = incoming s
  isOpen_write : ∀ (bs : Bytes) (s : σ), isOpen (Channel.write bs s).2 = isOpen s
  description_write : ∀ (bs : Bytes) (s : σ), description (Channel.write bs s).2 = description s
  write_closed : ∀ (bs : Bytes) (s : σ), isOpen s = false →
    ∃ e, Channel.write bs s = (.error e, s)
  flush_ok : ∀ s : σ, Channel.flush s = (.ok (), s)
  incoming_close : ∀ s : σ, incoming (Channel.close s).2 = incoming s
  outgoing_close : ∀ s : σ, outgoing (Channel.close s).2 = outgoing s
  description_close : ∀ s : σ, description (Channel.close s).2 = description s

/-- a read of at least one byte that hands out nothing means that nothing is there -/
def Medium.Prompt (σ : Type) [Channel σ] [Medium σ] : Prop :=
  ∀ (n : Nat) (s : σ), 0 < n → Arrival.taken (Channel.read n s).1 = [] → Medium.incoming s = []

/-! ## series of reads -/

section
variable {σ : Type} [Channel σ] [Medium σ]

theorem Medium.read_eq {n : Nat} {s s' : σ} {r : Except IoError Arrival}
    (h : Channel.read n s = (r, s')) :
    incoming s = Arrival.taken r ++ incoming s' ∧ outgoing s' = outgoing s ∧
      isOpen s' = isOpen s ∧ description s' = description s := by
  have h1 := incoming_read n s
  have h2 := outgoing_read n s
  have h3 := isOpen_read n s
  have h4 := description_read n s
  rw [h] at h1 h2 h3 h4
  exact ⟨h1, h2, h3, h4⟩

/-- a series of reads, seen from the medium: the bytes taken are the next ones -/
structure Intake.Carries (acc : List Bytes) (ch : σ) (i : Intake σ) : Prop where
  incoming : acc.reverse.flatten ++ Medium.incoming ch =
    i.chunks.reverse.flatten ++ Medium.incoming i.channel
  outgoing : Medium.outgoing i.channel = Medium.outgoing ch
  isOpen : Medium.isOpen i.channel = Medium.isOpen ch
  description : Medium.description i.channel = Medium.description ch

theorem fill_carries (chunk room : Nat) (acc : List Bytes) (ch : σ) :
    (fill chunk room acc ch).Carries acc ch := by
  fun_induction fill chunk room acc ch with
  | case1 room acc ch hroom e ch' hr | case2 room acc ch hroom ch' hr
  | case3 room acc ch hroom ch' hr =>
    obtain ⟨h1, h2, h3, h4⟩ := Medium.read_eq hr
    exact ⟨by rw [h1]; rfl, h2, h3, h4⟩
  | case4 room acc ch hroom bs ch' hr ih =>
    obtain ⟨h1, h2, h3, h4⟩ := Medium.read_eq hr
    refine ⟨?_, ih.outgoing.trans h2, ih.isOpen.trans h3, ih.description.trans h4⟩
    rw [← ih.incoming, h1]
    simp [Arrival.taken]
  | case5 room acc ch hroom => exact ⟨rfl, rfl, rfl, rfl⟩

/-- Reads that do not fail go on until there is no room left, or nothing more to read. -/
theorem fill_stops (hprompt : Medium.Prompt σ) {chunk : Nat} (hchunk : 0 < chunk) (room : Nat)
    (acc : List Bytes) (ch : σ) {ended : Bool}
    (h : (fill chunk room acc ch).ended = .ok ended) :
    room + acc.flatten.length ≤ (fill chunk room acc ch).chunks.flatten.length ∨
      Medium.incoming (fill chunk room acc ch).channel = [] := by
  fun_induction fill chunk room acc ch with
  | case1 room acc ch hroom e ch' hr => cases h
  | case2 room acc ch hroom ch' hr | case3 room acc ch hroom ch' hr =>
    right
    have hnone := hprompt chunk ch hroom.2 (by rw [hr]; rfl)
    have h1 := (Medium.read_eq hr).1
    rw [hnone, eq_comm] at h1
    exact (List.append_eq_nil_iff.mp h1).2
  | case4 room acc ch hroom bs ch' hr ih =>
    rcases ih h with hfull | hempty
    · left
      rw [List.flatten_cons, List.length_append] at hfull
      omega
    · exact .inr hempty
  | case5 room acc ch hroom =>
    left
    show room + acc.flatten.length ≤ acc.flatten.length
    omega

end

/-! ## memory channels -/

namespace Duplex

@[simp] theorem outbound_setInbound (d : Duplex) (s : Side) (p : Pipe) :
    (d.setInbound s p).outbound s = d.outbound s := outbound_setOutbound_opposite d s p

@[simp] theorem inbound_setInbound (d : Duplex) (s : Side) (p : Pipe) :
    (d.setInbound s p).inbound s = p := outbound_setOutbound d s.opposite p

@[simp] theorem inbound_setOutbound (d : Duplex) (s : Side) (p : Pipe) :
    (d.setOutbound s p).inbound s = d.inbound s := by cases s <;> rfl

@[simp] theorem setOutbound_outbound (d : Duplex) (s : Side) :
    d.setOutbound s (d.outbound s) = d := by cases s <;> rfl

end Duplex

namespace Pipe

/-- the bytes of a pipe as they were written, those in front in one piece -/
def segments (p : Pipe) : List Bytes := p.front :: p.back.reverse

theorem taken_read (p : Pipe) (n : Nat) :
    Arrival.taken (.ok (p.read n).1) = p.toBytes.take n := by
  by_cases hnil : p.toBytes = []
  · rw [read_of_nil hnil, hnil, List.take_nil]
    split <;> rfl
  · rw [read_of_ne_nil hnil]
    rfl

/-- what a read finds is the front of the pipe, and the rest stays -/
theorem read_toBytes (p : Pipe) (n : Nat) :
    p.toBytes = Arrival.taken (.ok (p.read n).1) ++ (p.read n).2.toBytes := by
  rw [taken_read, toBytes_read, List.take_append_drop]

theorem read_ne_endOfStream {p : Pipe} (h : p.closed = false) (n : Nat) :
    (p.read n).1 ≠ .endOfStream := by
  by_cases hnil : p.toBytes = []
  · rw [read_of_nil hnil, h]
    exact nofun
  · rw [read_of_ne_nil hnil]
    exact nofun

theorem read_ne_nothing {p : Pipe} (h : p.closed = true) (n : Nat) : (p.read n).1 ≠ .nothing := by
  by_cases hnil : p.toBytes = []
  · rw [read_of_nil hnil, h]
    exact nofun
  · rw [read_of_ne_nil hnil]
    exact nofun

theorem toBytes_of_read {p : Pipe} {n : Nat} (hn : 0 < n)
    (h : Arrival.taken (.ok (p.read n).1) = []) : p.toBytes = [] := by
  rw [taken_read, List.take_eq_nil_iff] at h
  rcases h with h0 | h0
  · omega
  · exact h0

end Pipe

instance : Medium End where
  incoming e := (e.duplex.inbound e.side).toBytes
  outgoing e := (e.duplex.outbound e.side).segments
  isOpen e := !(e.duplex.outbound e.side).closed
  description e := e.side.description
  description_read n e := rfl
  description_write bs e := rfl
  description_close e := rfl
  incoming_read n e := by
    show (e.duplex.inbound e.side).toBytes = _ ++ ((e.duplex.setInbound _ _).inbound e.side).toBytes
    rw [Duplex.inbound_setInbound]
    exact Pipe.read_toBytes _ n
  outgoing_read n e := by
    show ((e.duplex.setInbound _ _).outbound e.side).segments = _
    rw [Duplex.outbound_setInbound]
  isOpen_read n e := by
    show (!((e.duplex.setInbound _ _).outbound e.side).closed) = _
    rw [Duplex.outbound_setInbound]
  write_ok bs e h := by
    show ((e.duplex.outbound e.side).write bs).1 = _
    rw [Pipe.write_open bs (by simpa using h)]
  outgoing_write bs e h := by
    show ((e.duplex.setOutbound e.side ((e.duplex.outbound e.side).write bs).2).outbound
      e.side).segments = _
    rw [Duplex.outbound_setOutbound, Pipe.write_open bs (by simpa using h)]
    simp [Pipe.segments]
  incoming_write bs e := by
    show ((e.duplex.setOutbound _ _).inbound e.side).toBytes = _
    rw [Duplex.inbound_setOutbound]
  isOpen_write bs e := by
    show (!((e.duplex.setOutbound e.side ((e.duplex.outbound e.side).write bs).2).outbound
      e.side).closed) = _
    rw [Duplex.outbound_setOutbound, Pipe.closed_write]
  write_closed bs e h := by
    have hw := Pipe.write_closed bs (p := e.duplex.outbound e.side) (by simpa using h)
    refine ⟨Pipe.brokenPipe, ?_⟩
    show (((e.duplex.outbound e.side).write bs).1,
      { e with duplex := e.duplex.setOutbound e.side ((e.duplex.outbound e.side).write bs).2 }) = _
    rw [hw, Duplex.setOutbound_outbound]
  flush_ok e := rfl
  incoming_close e := by
    obtain ⟨side, d⟩ := e
    cases side <;> rfl
  outgoing_close e := by
    obtain ⟨side, d⟩ := e
    cases side <;> rfl

theorem End.prompt : Medium.Prompt End := fun _ _ hn h => Pipe.toBytes_of_read hn h

namespace End

/-- the peer can write no more -/
def isOver (e : End) : Bool := (e.duplex.inbound e.side).closed

theorem isOver_read {n : Nat} {e e' : End} {r : Except IoError Arrival}
    (h : Channel.read n e = (r, e')) : e'.isOver = e.isOver := by
  have he : (End.read n e).2 = e' := congrArg Prod.snd h
  rw [← he]
  show ((e.duplex.setInbound e.side ((e.duplex.inbound e.side).read n).2).inbound e.side).closed = _
  rw [Duplex.inbound_setInbound, Pipe.closed_read]
  rfl

theorem read_eq {n : Nat} {e e' : End} {r : Except IoError Arrival}
    (h : Channel.read n e = (r, e')) : r = .ok ((e.duplex.inbound e.side).read n).1 :=
  (congrArg Prod.fst h).symm

theorem ended_of_open (chunk room : Nat) (acc : List Bytes) (e : End) (h : e.isOver = false) :
    (fill chunk room acc e).ended = .ok false := by
  fun_induction fill chunk room acc e with
  | case1 room acc e hroom err e' hr => cases read_eq hr
  | case2 room acc e hroom e' hr => rfl
  | case3 room acc e hroom e' hr =>
    exact absurd (Except.ok.inj (read_eq hr)).symm (Pipe.read_ne_endOfStream h chunk)
  | case4 room acc e hroom bs e' hr ih => exact ih ((isOver_read hr).trans h)
  | case5 room acc e hroom => rfl

/-- when the peer can write no more, reads go on until there is no room left, or the stream ends -/
theorem full_of_over {chunk : Nat} (hchunk : 0 < chunk) (room : Nat) (acc : List Bytes) (e : End)
    (h : e.isOver = true) (hended : (fill chunk room acc e).ended = .ok false) :
    room + acc.flatten.length ≤ (fill chunk room acc e).chunks.flatten.length := by
  fun_induction fill chunk room acc e with
  | case1 room acc e hroom err e' hr => cases hended
  | case2 room acc e hroom e' hr =>
    exact absurd (Except.ok.inj (read_eq hr)).symm (Pipe.read_ne_nothing h chunk)
  | case3 room acc e hroom e' hr => cases hended
  | case4 room acc e hroom bs e' hr ih =>
    have hle := ih ((isOver_read hr).trans h) hended
    rw [List.flatten_cons, List.length_append] at hle
    omega
  | case5 room acc e hroom =>
    show room + acc.flatten.length ≤ acc.flatten.length
    omega

theorem isOver_fill (chunk room : Nat) (acc : List Bytes) (e : End) :
    (fill chunk room acc e).channel.isOver = e.isOver := by
  fun_induction fill chunk room acc e with
  | case1 room acc e hroom err e' hr => exact isOver_read hr
  | case2 room acc e hroom e' hr => exact isOver_read hr
  | case3 room acc e hroom e' hr => exact isOver_read hr
  | case4 room acc e hroom bs e' hr ih => exact ih.trans (isOver_read hr)
  | case5 room acc e hroom => rfl

end End

end BundleLink
