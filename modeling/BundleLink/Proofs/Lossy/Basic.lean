import BundleLink.Proofs.Pair.Basic
import BundleLink.Proofs.Writing

/-!
# Two links on a network that loses, repeats and reorders

What a link writes goes to a network, which keeps the wire form of every fragment ever written. It
may hand any of them to the peer, at any time and any number of times. Writes succeed; reads may
find nothing, or fail, whenever the network likes.

* `Line`           how a link sees the network;
* `Node`           a link on its line, and the record of what it was given and what it delivered;
* `Attached.gains` the bundles that a receive makes ready, with the keys of the fragments that
  completed them;
* `Lossy`          both nodes and the clock, `Lossy.Event` what can happen, `Lossy.run` a run.
-/

namespace BundleLink

/-! ## lines -/

structure Line where
  /-- the bytes that the network handed over and that were not read yet -/
  incoming : Bytes
  /-- the wire forms of all fragments ever written, the oldest one first -/
  written : List Bytes
  /-- what the next reads find instead of bytes: an error, the end of the stream, or nothing -/
  hitches : List (Except IoError Bool)

namespace Line

def empty : Line := ⟨[], [], []⟩

def read (n : Nat) (l : Line) : Except IoError Arrival × Line :=
  match l.hitches with
  | .error e :: rest => (.error e, { l with hitches := rest })
  | .ok ended :: rest =>
    (.ok (if ended then .endOfStream else .nothing), { l with hitches := rest })
  | [] =>
    if l.incoming.isEmpty then (.ok .nothing, l)
    else (.ok (.data (l.incoming.take n)), { l with incoming := l.incoming.drop n })

def write (bs : Bytes) (l : Line) : Except IoError Unit × Line :=
  (.ok (), { l with written := l.written ++ [bs] })

theorem read_data {n : Nat} {l : Line} {bs : Bytes} (h : (l.read n).1 = .ok (.data bs)) :
    bs = l.incoming.take n ∧ l.incoming ≠ [] := by
  unfold read at h
  split at h
  · cases h
  · split at h <;> cases h
  · split at h
    · cases h
    · rename_i hne
      cases h
      exact ⟨rfl, fun h0 => hne (List.isEmpty_iff.mpr h0)⟩

instance : Channel Line where
  read := read
  write := write
  flush l := (.ok (), l)
  close l := (.ok (), l)
  lull _ := 0
  length_read_le n l bs h := by
    rw [(read_data h).1]
    exact List.length_take_le n _
  lull_read_le _ _ := Nat.le_refl 0
  lull_read_lt n l hn h := by
    obtain ⟨htake, hne⟩ := read_data h
    rcases List.take_eq_nil_iff.mp htake.symm with h0 | h0
    · exact absurd h0 (Nat.ne_of_gt hn)
    · exact absurd h0 hne

instance : Medium Line where
  incoming l := l.incoming
  outgoing l := l.written
  isOpen _ := true
  description _ := "network"
  incoming_read n l := by
    show l.incoming = Arrival.taken (l.read n).1 ++ (l.read n).2.incoming
    unfold read
    split
    · rfl
    · split <;> rfl
    · split
      · rfl
      · exact (List.take_append_drop n l.incoming).symm
  outgoing_read n l := by
    show (l.read n).2.written = l.written
    unfold read
    split
    · rfl
    · rfl
    · split <;> rfl
  isOpen_read _ _ := rfl
  description_read _ _ := rfl
  write_ok _ _ _ := rfl
  outgoing_write _ _ _ := rfl
  incoming_write _ _ := rfl
  isOpen_write _ _ := rfl
  description_write _ _ := rfl
  write_closed _ _ h := absurd h (by simp)
  flush_ok _ := rfl
  incoming_close _ := rfl
  outgoing_close _ := rfl
  description_close _ := rfl

end Line

/-! ## what a receive makes ready -/

namespace Attached

variable {σ : Type} [Channel σ]

/-- the bundles that the handling of a fragment makes ready, with its key -/
def gain (now : Moment) (f : Fragment) (a : Attached σ) : List (Key × Bytes) :=
  ((handle f now (a.arrived now)).after.link.ready.drop a.link.ready.length).map fun b => (f.key, b)

/-- the same for all fragments among pieces, up to the first failure -/
def gainAll (now : Moment) : List Wire.Piece → Attached σ → List (Key × Bytes)
  | [], _ => []
  | .skipped size flaw :: ps, a =>
    gainAll now ps (a.warn (.dropped size a.link.description flaw))
  | .fragment f _ :: ps, a =>
    a.gain now f ++
      match handle f now (a.arrived now) with
      | .ok () b => gainAll now ps b
      | .error _ _ => []

/-- the same for one receive -/
def gains (now : Moment) (a : Attached σ) : List (Key × Bytes) :=
  if a.link.connected then
    match fillRaw a with
    | .ok _ b =>
      let (ps, rest) := Wire.scan b.link.layout b.link.raw
      gainAll now ps { b with link := { b.link with raw := rest } }
    | .error _ _ => []
  else []

end Attached

/-! ## two nodes -/

structure Node where
  attached : Attached Line
  /-- an operation met a fault -/
  halted : Bool
  /-- the writes that succeeded: the key that was given out, and the buffer -/
  assigned : List (Key × Bytes)
  /-- the bundles put into the queue, with the keys of their fragments -/
  delivered : List (Key × Bytes)

/-- what an operation leaves; what it assigned counts if it succeeds -/
def Node.settle (x : Node) (assigned delivered : List (Key × Bytes)) : Outcome Line Unit → Node
  | .ok () a =>
    { x with
      attached := a, assigned := x.assigned ++ assigned, delivered := x.delivered ++ delivered }
  | .error (.error _) a => { x with attached := a, delivered := x.delivered ++ delivered }
  | .error (.fault _) a =>
    { x with attached := a, halted := true, delivered := x.delivered ++ delivered }

/-- the node after a move to the next generation, if there is one -/
def Node.advance (x : Node) : Node :=
  match x.attached.link.advanceGeneration with
  | (.ok _, l) => { x with attached := { x.attached with link := l } }
  | (.error _, l) => { x with attached := { x.attached with link := l }, halted := true }

theorem Node.advance_eq (x : Node) :
    x.advance =
        { x with
          attached :=
            { x.attached with
              link := { x.attached.link with generation := x.attached.link.generation + 1 } } } ∨
      x.advance = { x with halted := true } := by
  rw [advance, Link.advanceGeneration]
  by_cases h : x.attached.link.generation = Link.lastGeneration
  · rw [if_pos h]
    exact .inr rfl
  · rw [if_neg h]
    exact .inl rfl

structure Lossy where
  now : Moment
  node : Side → Node

namespace Lossy

inductive Event where
  | write (s : Side) (buffer : Bytes) (flushNow : Bool)
  | setFragmentSize (s : Side) (size : Nat)
  | advanceGeneration (s : Side)
  /-- the network hands to a side what its peer wrote as number `i` -/
  | hand (s : Side) (i : Nat)
  /-- the network disturbs the next read of a side that nothing disturbs yet -/
  | disturb (s : Side) (hitch : Except IoError Bool)
  | receive (s : Side)
  | pass (d : Span)

/-- two links that were just opened -/
def opened (now : Moment) (id : Side → Nat) (settings : Side → Settings)
    (generation : Side → UInt64) : Lossy where
  now := now
  node s :=
    { attached := ⟨.opened (id s) "network" (settings s) (generation s) now, .empty⟩
      halted := false
      assigned := []
      delivered := [] }

def put (p : Lossy) (s : Side) (x : Node) : Lossy :=
  { p with node := fun t => if t = s then x else p.node t }

def setLink (p : Lossy) (s : Side) (l : Link) : Lossy :=
  p.put s { p.node s with attached := { (p.node s).attached with link := l } }

def setLine (p : Lossy) (s : Side) (l : Line) : Lossy :=
  p.put s { p.node s with attached := { (p.node s).attached with channel := l } }

/-- An event that can not happen changes nothing. -/
def step (p : Lossy) : Event → Lossy
  | .write s buffer flushNow =>
    let x := p.node s
    if x.halted then p
    else
      p.put s (x.settle [(x.attached.nextKey, buffer)] [] (x.attached.write buffer flushNow p.now))
  | .setFragmentSize s size =>
    if (p.node s).halted then p
    else p.setLink s ((p.node s).attached.link.setFragmentSize size).2
  | .advanceGeneration s =>
    if (p.node s).halted then p else p.put s (p.node s).advance
  | .hand s i =>
    let l := (p.node s).attached.channel
    match (p.node s.opposite).attached.channel.written[i]? with
    | some wire => p.setLine s { l with incoming := l.incoming ++ wire }
    | none => p
  | .disturb s hitch =>
    let l := (p.node s).attached.channel
    p.setLine s { l with hitches := l.hitches ++ [hitch] }
  | .receive s =>
    let x := p.node s
    if x.halted then p
    else p.put s (x.settle [] (x.attached.gains p.now) (x.attached.receive p.now))
  | .pass d =>
    match p.now.add d with
    | .ok now => { p with now := now }
    | .error _ => p

def run (p : Lossy) (es : List Event) : Lossy := es.foldl step p

/-- how often a side advances its generation -/
def advances (s : Side) (es : List Event) : Nat :=
  es.countP fun
    | .advanceGeneration t => t = s
    | _ => false

@[simp] theorem node_put (p : Lossy) (s : Side) (x : Node) : (p.put s x).node s = x := if_pos rfl

@[simp] theorem node_put_opposite (p : Lossy) (s : Side) (x : Node) :
    (p.put s x).node s.opposite = p.node s.opposite := by cases s <;> rfl

end Lossy

end BundleLink
