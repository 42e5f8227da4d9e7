import BundleLink.Channel.Basic

/-!
# Pipes

A pipe carries bytes in one direction, first in, first out. The bytes that are next to be read stand
in one list, and what was written since waits in a list of its own, the last piece first.

* `Pipe.toBytes`   all bytes inside, in order;
* `Pipe.write`, `Pipe.read`, `Pipe.close`.

A closed pipe takes no more bytes, but hands out those that it holds before it ends.
-/

namespace BundleLink

structure Pipe where
  front : Bytes
  /-- the pieces written after `front`, the last one first -/
  back : List Bytes
  closed : Bool
  deriving DecidableEq, Repr

namespace Pipe

def empty : Pipe := ⟨[], [], false⟩

def toBytes (p : Pipe) : Bytes := p.front ++ p.back.reverse.flatten

def brokenPipe : IoError := ⟨"BrokenPipe", "memory channel is closed"⟩

def write (p : Pipe) (bs : Bytes) : Except IoError Unit × Pipe :=
  if p.closed then (.error brokenPipe, p) else (.ok (), { p with back := bs :: p.back })

/-- the same pipe with all its bytes in front -/
def settle (p : Pipe) : Pipe :=
  if p.back.isEmpty then p else { p with front := p.toBytes, back := [] }

def read (p : Pipe) (n : Nat) : Arrival × Pipe :=
  let p := p.settle
  if p.front.isEmpty then (if p.closed then .endOfStream else .nothing, p)
  else (.data (p.front.take n), { p with front := p.front.drop n })

def close (p : Pipe) : Pipe := { p with closed := true }

/-- takes all bytes out -/
def drain (p : Pipe) : Bytes × Pipe := (p.toBytes, { p with front := [], back := [] })

@[simp] theorem toBytes_empty : empty.toBytes = [] := rfl

@[simp] theorem toBytes_settle (p : Pipe) : p.settle.toBytes = p.toBytes := by
  unfold settle
  split <;> simp [toBytes]

@[simp] theorem toBytes_close (p : Pipe) : p.close.toBytes = p.toBytes := rfl

theorem front_settle (p : Pipe) : p.settle.front = p.toBytes := by
  unfold settle
  split
  · rename_i h
    simp [toBytes, List.isEmpty_iff.mp h]
  · rfl

theorem back_settle (p : Pipe) : p.settle.back = [] := by
  unfold settle
  split
  · rename_i h
    exact List.isEmpty_iff.mp h
  · rfl

theorem closed_settle (p : Pipe) : p.settle.closed = p.closed := by
  unfold settle
  split <;> rfl

theorem write_open {p : Pipe} (bs : Bytes) (h : p.closed = false) :
    p.write bs = (.ok (), { p with back := bs :: p.back }) := by
  simp [write, h]

theorem write_closed {p : Pipe} (bs : Bytes) (h : p.closed = true) :
    p.write bs = (.error brokenPipe, p) := by
  simp [write, h]

/-- a write that succeeds puts its bytes behind all others -/
theorem toBytes_write {p : Pipe} (bs : Bytes) (h : p.closed = false) :
    (p.write bs).2.toBytes = p.toBytes ++ bs := by
  simp [write_open bs h, toBytes]

theorem closed_write (p : Pipe) (bs : Bytes) : (p.write bs).2.closed = p.closed := by
  unfold write
  split <;> rfl

/-- a read of an empty pipe tells whether more may come -/
theorem read_of_nil {p : Pipe} (h : p.toBytes = []) (n : Nat) :
    (p.read n).1 = if p.closed then .endOfStream else .nothing := by
  have hempty : p.settle.front.isEmpty = true := by rw [front_settle, h]; rfl
  rw [read, if_pos hempty, closed_settle]

/-- otherwise it hands out the first bytes, also of a closed pipe -/
theorem read_of_ne_nil {p : Pipe} (h : p.toBytes ≠ []) (n : Nat) :
    (p.read n).1 = .data (p.toBytes.take n) := by
  have hsome : ¬ p.settle.front.isEmpty = true := by rwa [front_settle, List.isEmpty_iff]
  rw [read, if_neg hsome, front_settle]

/-- the bytes that a read leaves -/
theorem toBytes_read (p : Pipe) (n : Nat) : (p.read n).2.toBytes = p.toBytes.drop n := by
  unfold read
  dsimp only
  split
  · rename_i hempty
    rw [front_settle, List.isEmpty_iff] at hempty
    rw [toBytes_settle, hempty, List.drop_nil]
  · rw [toBytes, front_settle, back_settle, List.reverse_nil, List.flatten_nil, List.append_nil]

theorem closed_read (p : Pipe) (n : Nat) : (p.read n).2.closed = p.closed := by
  unfold read
  dsimp only
  split <;> exact closed_settle p

/-- a read hands out at most as many bytes as it was asked for -/
theorem length_read_le {p : Pipe} {n : Nat} {bs : Bytes} (h : (p.read n).1 = .data bs) :
    bs.length ≤ n := by
  by_cases hnil : p.toBytes = []
  · rw [read_of_nil hnil] at h
    split at h <;> cases h
  · rw [read_of_ne_nil hnil] at h
    cases h
    exact List.length_take_le n _

/-- a read of at least one byte hands out no empty data -/
theorem read_ne_data_nil {p : Pipe} {n : Nat} (hn : 0 < n) : (p.read n).1 ≠ .data [] := by
  by_cases hnil : p.toBytes = []
  · rw [read_of_nil hnil]
    split <;> exact nofun
  · rw [read_of_ne_nil hnil]
    intro h
    rcases List.take_eq_nil_iff.mp (Arrival.data.inj h) with h0 | h0
    · omega
    · exact hnil h0

end Pipe

end BundleLink
