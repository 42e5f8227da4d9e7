import BundleLink.Proofs.Medium
import Mathlib.Algebra.GroupWithZero.Nat
import Mathlib.Logic.Function.Basic

/-!
# Memory channels carry two streams

The two ends of a memory channel are used in any order. What is written at one end and accepted goes
into one of the two pipes and is read at the other end, and nothing else touches that pipe but a
close. So the bytes read at an end, with those that wait there behind them, are those written at the
other end. A close, at whichever end, shuts both pipes: they take nothing more, but what is in them
can still be read, and only then the stream ends.

* `Dialogue`           a memory channel with all that was read and written at its ends;
* `Dialogue.run`       what calls make of it;
* `Dialogue.Conveys`   nothing is lost between the ends, and both pipes are shut after a close;
  `Conveys.step` one call, `Conveys.run` any number of them;
* `received_reads`     what a series of reads hands out;
* `Dialogue.Reliable`  what the calls at one end find, `reliable_run` that it is always so.
-/

namespace BundleLink

/-- a memory channel in use -/
structure Dialogue where
  duplex : Duplex
  /-- all bytes that the reads at a side handed out, the oldest one first -/
  received : Side → Bytes
  /-- the buffers of the writes that succeeded at a side, the oldest one first -/
  sent : Side → List Bytes

namespace Dialogue

def opened : Dialogue := ⟨.empty, fun _ => [], fun _ => []⟩

def endAt (x : Dialogue) (s : Side) : End := ⟨s, x.duplex⟩

/-- the bytes that wait to be read at a side -/
def pending (x : Dialogue) (s : Side) : Bytes := (x.duplex.inbound s).toBytes

/-- after a call at one side -/
def step (x : Dialogue) (s : Side) (use : ChannelUse) : Dialogue :=
  match use with
  | .read n =>
    let reply := Channel.read n (x.endAt s)
    { x with
      duplex := reply.2.duplex
      received := Function.update x.received s (x.received s ++ Arrival.taken reply.1) }
  | .write bs =>
    match Channel.write bs (x.endAt s) with
    | (.ok (), e) =>
      { x with duplex := e.duplex, sent := Function.update x.sent s (x.sent s ++ [bs]) }
    | (.error _, e) => { x with duplex := e.duplex }
  | .flush => { x with duplex := (Channel.flush (x.endAt s)).2.duplex }
  | .close => { x with duplex := (Channel.close (x.endAt s)).2.duplex }

def run (x : Dialogue) : List (Side × ChannelUse) → Dialogue
  | [] => x
  | (s, use) :: calls => (x.step s use).run calls

variable {x : Dialogue} {ended : Prop}

/-! ## single calls -/

theorem read_of_nil {s : Side} (h : x.pending s = []) (n : Nat) :
    (Channel.read n (x.endAt s)).1 =
      .ok (if (x.duplex.inbound s).closed then .endOfStream else .nothing) :=
  congrArg Except.ok (Pipe.read_of_nil h n)

theorem read_of_ne_nil {s : Side} (h : x.pending s ≠ []) (n : Nat) :
    (Channel.read n (x.endAt s)).1 = .ok (.data ((x.pending s).take n)) :=
  congrArg Except.ok (Pipe.read_of_ne_nil h n)

/-- the two ways of a read to find no bytes, for the two states of the pipe -/
theorem read_empty_iff (x : Dialogue) (s : Side) (n : Nat) (c : Bool) :
    (Channel.read n (x.endAt s)).1 = .ok (if c then .endOfStream else .nothing) ↔
      (x.duplex.inbound s).closed = c ∧ x.pending s = [] := by
  by_cases hnil : x.pending s = []
  · rw [read_of_nil hnil]
    cases (x.duplex.inbound s).closed <;> cases c <;> simp [hnil]
  · rw [read_of_ne_nil hnil]
    cases c <;> exact iff_of_false nofun fun hempty => hnil hempty.2

theorem received_read (x : Dialogue) (s t : Side) (n : Nat) :
    (x.step s (.read n)).received t =
      if t = s then x.received s ++ (x.pending s).take n else x.received t := by
  rw [pending, ← Pipe.taken_read]
  exact Function.update_apply ..

theorem inbound_read (x : Dialogue) (s t : Side) (n : Nat) :
    (x.step s (.read n)).duplex.inbound t =
      if t = s then ((x.duplex.inbound s).read n).2 else x.duplex.inbound t :=
  Duplex.inbound_set ..

theorem pending_read (x : Dialogue) (s t : Side) (n : Nat) :
    (x.step s (.read n)).pending t = if t = s then (x.pending s).drop n else x.pending t := by
  rw [pending, inbound_read]
  split
  · exact Pipe.toBytes_read _ n
  · rfl

theorem closed_read (x : Dialogue) (s t : Side) (n : Nat) :
    ((x.step s (.read n)).duplex.inbound t).closed = (x.duplex.inbound t).closed := by
  rw [inbound_read]
  split
  · rename_i h
    rw [h, Pipe.closed_read]
  · rfl

theorem write_closed {s : Side} (h : (x.duplex.outbound s).closed = true) (bs : Bytes) :
    Channel.write bs (x.endAt s) = (.error Pipe.brokenPipe, x.endAt s) := by
  show (((x.duplex.outbound s).write bs).1,
    (⟨s, x.duplex.setOutbound s ((x.duplex.outbound s).write bs).2⟩ : End)) = _
  rw [Pipe.write_closed bs h, Duplex.setOutbound_outbound]
  rfl

theorem write_open {s : Side} (h : (x.duplex.outbound s).closed = false) (bs : Bytes) :
    Channel.write bs (x.endAt s) =
      (.ok (), ⟨s, x.duplex.setOutbound s ((x.duplex.outbound s).write bs).2⟩) := by
  show (((x.duplex.outbound s).write bs).1,
    (⟨s, x.duplex.setOutbound s ((x.duplex.outbound s).write bs).2⟩ : End)) = _
  rw [Pipe.write_open bs h]

theorem step_write_closed {s : Side} (h : (x.duplex.outbound s).closed = true) (bs : Bytes) :
    x.step s (.write bs) = x := by
  rw [step, write_closed h]
  rfl

theorem step_write_open {s : Side} (h : (x.duplex.outbound s).closed = false) (bs : Bytes) :
    x.step s (.write bs) =
      { x with
        duplex := x.duplex.setOutbound s ((x.duplex.outbound s).write bs).2
        sent := Function.update x.sent s (x.sent s ++ [bs]) } := by
  rw [step, write_open h]

theorem received_write (x : Dialogue) (s : Side) (bs : Bytes) :
    (x.step s (.write bs)).received = x.received := by
  rw [step]
  split <;> rfl

theorem sent_write {s : Side} (h : (x.duplex.outbound s).closed = false) (t : Side) (bs : Bytes) :
    (x.step s (.write bs)).sent t = if t = s then x.sent s ++ [bs] else x.sent t := by
  rw [step_write_open h]
  exact Function.update_apply ..

/-- what is written at one side comes into the pipe that the other side reads -/
theorem inbound_write {s : Side} (h : (x.duplex.outbound s).closed = false) (t : Side)
    (bs : Bytes) : (x.step s (.write bs)).duplex.inbound t =
      if t = s.opposite then ((x.duplex.inbound t).write bs).2 else x.duplex.inbound t := by
  rw [step_write_open h]
  show (x.duplex.setOutbound s _).inbound t = _
  rw [← Duplex.setInbound_opposite, Duplex.inbound_set]
  split
  · rename_i ht
    rw [ht, Duplex.inbound_opposite]
  · rfl

theorem pending_write {s : Side} (h : (x.duplex.outbound s).closed = false) (t : Side)
    (bs : Bytes) : (x.step s (.write bs)).pending t =
      if t = s.opposite then x.pending t ++ bs else x.pending t := by
  rw [pending, inbound_write h]
  split
  · rename_i ht
    apply Pipe.toBytes_write
    rwa [ht, Duplex.inbound_opposite]
  · rfl

/-! ## any number of calls -/

/-- What is read at one side and what waits there is what was written at the other side, and the
pipes are shut if the streams ended. -/
structure Conveys (ended : Prop) (x : Dialogue) : Prop where
  carried : ∀ s, x.received s ++ x.pending s = (x.sent s.opposite).flatten
  closed : ∀ s, (x.duplex.inbound s).closed = true ↔ ended

theorem conveys_opened : Conveys False opened := by
  refine ⟨fun s => ?_, fun s => ?_⟩
  · cases s <;> rfl
  · cases s <;> exact ⟨nofun, False.elim⟩

namespace Conveys

theorem read (h : Conveys ended x) (s : Side) (n : Nat) : Conveys ended (x.step s (.read n)) := by
  refine ⟨fun t => ?_, fun t => ?_⟩
  · show _ = (x.sent t.opposite).flatten
    rw [received_read, pending_read, ← h.carried t]
    split
    · rename_i ht
      rw [ht, List.append_assoc, List.take_append_drop]
    · rfl
  · rw [closed_read]
    exact h.closed t

theorem shut (h : Conveys ended x) (hended : ended) (s : Side) :
    (x.duplex.outbound s).closed = true := by
  rw [← Duplex.inbound_opposite]
  exact (h.closed s.opposite).mpr hended

theorem unshut (h : Conveys ended x) (hended : ¬ ended) (s : Side) :
    (x.duplex.outbound s).closed = false := by
  rw [← Duplex.inbound_opposite, ← Bool.not_eq_true, h.closed]
  exact hended

theorem write (h : Conveys ended x) (s : Side) (bs : Bytes) :
    Conveys ended (x.step s (.write bs)) := by
  by_cases hended : ended
  · rw [step_write_closed (h.shut hended s)]
    exact h
  have hopen := h.unshut hended s
  refine ⟨fun t => ?_, fun t => ?_⟩
  · rw [received_write, pending_write hopen, sent_write hopen]
    -- the side that reads what is written here is the opposite one, the other pipe stays
    by_cases ht : t = s.opposite
    · have hs : t.opposite = s := Side.opposite_eq_iff.mpr ht
      rw [if_pos ht, if_pos hs, List.flatten_concat, ← hs, ← h.carried t, List.append_assoc]
    · have hs : t.opposite ≠ s := mt Side.opposite_eq_iff.mp ht
      rw [if_neg ht, if_neg hs]
      exact h.carried t
  · rw [inbound_write hopen]
    split
    · rw [Pipe.closed_write]
      exact h.closed t
    · exact h.closed t

theorem close (h : Conveys ended x) (s : Side) : Conveys True (x.step s .close) := by
  refine ⟨fun t => ?_, fun t => ?_⟩
  · show x.received t ++ (x.duplex.close.inbound t).toBytes = _
    rw [Duplex.inbound_close]
    exact h.carried t
  · show (x.duplex.close.inbound t).closed = true ↔ True
    rw [Duplex.inbound_close]
    exact ⟨fun _ => trivial, fun _ => rfl⟩

theorem congr {ended' : Prop} (h : Conveys ended x) (hended : ended ↔ ended') : Conveys ended' x :=
  ⟨h.carried, fun s => (h.closed s).trans hended⟩

theorem step (h : Conveys ended x) (s : Side) (use : ChannelUse) :
    Conveys (ended ∨ use = .close) (x.step s use) := by
  cases use with
  | read n => exact (h.read s n).congr (or_iff_left nofun).symm
  | write bs => exact (h.write s bs).congr (or_iff_left nofun).symm
  | flush => exact h.congr (or_iff_left nofun).symm
  | close => exact (h.close s).congr (iff_of_true trivial (.inr rfl))

theorem run (h : Conveys ended x) (calls : List (Side × ChannelUse)) :
    Conveys (ended ∨ ∃ s, (s, .close) ∈ calls) (x.run calls) := by
  induction calls generalizing x ended with
  | nil => exact h.congr (or_iff_left fun ⟨_, hmem⟩ => List.not_mem_nil hmem).symm
  | cons c calls ih =>
    apply (ih (h.step c.1 c.2)).congr
    -- a close is this call or a later one
    rw [or_assoc]
    apply or_congr_right
    constructor
    · rintro (hclose | ⟨s, hmem⟩)
      · exact ⟨c.1, hclose ▸ List.mem_cons_self⟩
      · exact ⟨s, List.mem_cons_of_mem c hmem⟩
    · rintro ⟨s, hmem⟩
      rcases List.mem_cons.mp hmem with rfl | hlater
      · exact .inl rfl
      · exact .inr ⟨s, hlater⟩

/-- once the streams ended, no write is accepted any more -/
theorem sent_run (h : Conveys ended x) (hended : ended) (calls : List (Side × ChannelUse)) :
    (x.run calls).sent = x.sent := by
  induction calls generalizing x with
  | nil => rfl
  | cons c calls ih =>
    have hstep : (x.step c.1 c.2).sent = x.sent := by
      obtain ⟨s, use⟩ := c
      cases use with
      | read n | flush | close => rfl
      | write bs => rw [step_write_closed (h.shut hended s)]
    have hlater := (h.step c.1 c.2).congr (or_iff_left_of_imp fun _ => hended)
    exact (ih hlater).trans hstep

end Conveys

/-- A series of reads hands out the bytes that wait, as many as there is room for in all buffers. -/
theorem received_reads (x : Dialogue) (s : Side) (sizes : List Nat) :
    (x.run (sizes.map fun n => (s, .read n))).received s =
      x.received s ++ (x.pending s).take sizes.sum := by
  induction sizes generalizing x with
  | nil => exact (List.append_nil _).symm
  | cons n sizes ih =>
    rw [List.map_cons, run, ih, received_read, pending_read, if_pos rfl, if_pos rfl,
      List.append_assoc, List.sum_cons, List.take_add]

/-! ## one side -/

/-- What the calls at a side find; `ended` tells whether there was a close. -/
structure Reliable (ended : Prop) (s : Side) (x : Dialogue) : Prop where
  /-- what was read and what waits to be read is what was written at the other side -/
  carried : x.received s ++ x.pending s = (x.sent s.opposite).flatten
  read_endOfStream : ∀ n,
    (Channel.read n (x.endAt s)).1 = .ok .endOfStream ↔ ended ∧ x.pending s = []
  read_nothing : ∀ n, (Channel.read n (x.endAt s)).1 = .ok .nothing ↔ ¬ ended ∧ x.pending s = []
  /-- bytes that wait are handed out from the first one on, and the others go on waiting -/
  read_data : x.pending s ≠ [] → ∀ n, ∃ bs, (Channel.read n (x.endAt s)).1 = .ok (.data bs) ∧
    bs.length = min n (x.endAt s).pending ∧ x.pending s = bs ++ (x.step s (.read n)).pending s
  write_before : ¬ ended → ∀ bs, (Channel.write bs (x.endAt s)).1 = .ok ()
  /-- after a close every write fails and changes nothing -/
  write_after : ended → ∀ bs, Channel.write bs (x.endAt s) = (.error Pipe.brokenPipe, x.endAt s)
  flush : Channel.flush (x.endAt s) = (.ok (), x.endAt s)
  close : (Channel.close (x.endAt s)).1 = .ok ()
  /-- all that waits can be read, also after a close -/
  readable : ∀ sizes : List Nat, (x.run (sizes.map fun n => (s, .read n))).received s =
    x.received s ++ (x.pending s).take sizes.sum
  /-- after a close the bytes that wait do not get lost, whatever is called, and none are added -/
  kept : ended → ∀ calls,
    (x.run calls).received s ++ (x.run calls).pending s = x.received s ++ x.pending s

theorem exists_read (x : Dialogue) {s : Side} (hsome : x.pending s ≠ []) (n : Nat) :
    ∃ bs, (Channel.read n (x.endAt s)).1 = .ok (.data bs) ∧
      bs.length = min n (x.endAt s).pending ∧
      x.pending s = bs ++ (x.step s (.read n)).pending s := by
  refine ⟨(x.pending s).take n, read_of_ne_nil hsome n, List.length_take, ?_⟩
  rw [pending_read, if_pos rfl, List.take_append_drop]

theorem Conveys.reliable (h : Conveys ended x) (s : Side) : Reliable ended s x where
  carried := h.carried s
  read_endOfStream n := by
    rw [← h.closed s]
    exact read_empty_iff x s n true
  read_nothing n := by
    rw [← h.closed s, Bool.not_eq_true]
    exact read_empty_iff x s n false
  read_data := exists_read x
  write_before hended bs := by rw [write_open (h.unshut hended s)]
  write_after hended := write_closed (h.shut hended s)
  flush := rfl
  close := rfl
  readable := received_reads x s
  kept hended calls := by rw [h.carried, (h.run calls).carried, h.sent_run hended]

/-- Whatever was called at the two ends of a new memory channel, what is written at one end is read
at the other end, in order and once, until a close at either end lets the streams run out. -/
theorem reliable_run (calls : List (Side × ChannelUse)) (s : Side) :
    Reliable (∃ t, (t, .close) ∈ calls) s (opened.run calls) :=
  ((conveys_opened.run calls).congr (Iff.of_eq (false_or _))).reliable s

/-- the end that closes can still read, and the other one can not write any more -/
example :
    let x := opened.run [(.first, .write [1, 2, 3]), (.second, .read 2), (.second, .close),
      (.first, .write [4]), (.second, .read 2)]
    x.received .second = [1, 2, 3] ∧ x.sent .first = [[1, 2, 3]] := by decide

end Dialogue

end BundleLink
