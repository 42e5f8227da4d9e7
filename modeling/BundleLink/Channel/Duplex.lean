import BundleLink.Channel.Pipe

/-!
# Memory channels

Two pipes in opposite directions make a channel with two ends inside one process. What one end
writes the other one reads, and closing at either end closes both pipes.

* `Duplex`   the two pipes, `Side` names the ends;
* `End`      a duplex seen from one of its sides, which is a `Channel`.
-/

namespace BundleLink

inductive Side where
  | first
  | second
  deriving DecidableEq, Repr

def Side.opposite : Side → Side
  | .first => .second
  | .second => .first

@[simp] theorem Side.opposite_opposite (s : Side) : s.opposite.opposite = s := by cases s <;> rfl

theorem Side.opposite_eq_iff {s t : Side} : s.opposite = t ↔ s = t.opposite := by
  cases s <;> cases t <;> decide

def Side.description : Side → String
  | .first => "memory a -> b"
  | .second => "memory b -> a"

structure Duplex where
  /-- from the first end to the second -/
  forth : Pipe
  /-- from the second end to the first -/
  back : Pipe
  deriving DecidableEq, Repr

namespace Duplex

def empty : Duplex := ⟨.empty, .empty⟩

/-- the pipe that a side writes into -/
def outbound (d : Duplex) : Side → Pipe
  | .first => d.forth
  | .second => d.back

/-- the pipe that a side reads from -/
def inbound (d : Duplex) (s : Side) : Pipe := d.outbound s.opposite

def setOutbound (d : Duplex) (s : Side) (p : Pipe) : Duplex :=
  match s with
  | .first => { d with forth := p }
  | .second => { d with back := p }

def setInbound (d : Duplex) (s : Side) (p : Pipe) : Duplex := d.setOutbound s.opposite p

def read (d : Duplex) (s : Side) (n : Nat) : Arrival × Duplex :=
  let (r, p) := (d.inbound s).read n
  (r, d.setInbound s p)

def write (d : Duplex) (s : Side) (bs : Bytes) : Except IoError Unit × Duplex :=
  let (r, p) := (d.outbound s).write bs
  (r, d.setOutbound s p)

/-- either side closes both directions -/
def close (d : Duplex) : Duplex := ⟨d.forth.close, d.back.close⟩

@[simp] theorem outbound_setOutbound (d : Duplex) (s : Side) (p : Pipe) :
    (d.setOutbound s p).outbound s = p := by cases s <;> rfl

@[simp] theorem outbound_setOutbound_opposite (d : Duplex) (s : Side) (p : Pipe) :
    (d.setOutbound s.opposite p).outbound s = d.outbound s := by cases s <;> rfl

theorem outbound_set (d : Duplex) (s u : Side) (q : Pipe) :
    (d.setOutbound s q).outbound u = if u = s then q else d.outbound u := by
  cases s <;> cases u <;> rfl

theorem inbound_set (d : Duplex) (s u : Side) (q : Pipe) :
    (d.setInbound s q).inbound u = if u = s then q else d.inbound u := by
  cases s <;> cases u <;> rfl

theorem inbound_opposite (d : Duplex) (s : Side) : d.inbound s.opposite = d.outbound s := by
  cases s <;> rfl

theorem setInbound_opposite (d : Duplex) (s : Side) (p : Pipe) :
    d.setInbound s.opposite p = d.setOutbound s p := by cases s <;> rfl

theorem inbound_close (d : Duplex) (s : Side) : d.close.inbound s = (d.inbound s).close := by
  cases s <;> rfl

end Duplex

structure End where
  side : Side
  duplex : Duplex
  deriving DecidableEq, Repr

namespace End

def read (n : Nat) (e : End) : Except IoError Arrival × End :=
  let (r, d) := e.duplex.read e.side n
  (.ok r, { e with duplex := d })

def write (bs : Bytes) (e : End) : Except IoError Unit × End :=
  let (r, d) := e.duplex.write e.side bs
  (r, { e with duplex := d })

def close (e : End) : Except IoError Unit × End := (.ok (), { e with duplex := e.duplex.close })

/-- the number of bytes that the peer wrote and that were not read yet -/
def pending (e : End) : Nat := (e.duplex.inbound e.side).toBytes.length

instance : Channel End where
  read := read
  write := write
  flush e := (.ok (), e)
  close := close
  lull _ := 0
  length_read_le _ _ _ h := Pipe.length_read_le (Except.ok.inj h)
  lull_read_le _ _ := Nat.le_refl 0
  lull_read_lt _ _ hn h := absurd (Except.ok.inj h) (Pipe.read_ne_data_nil hn)

end End

end BundleLink
