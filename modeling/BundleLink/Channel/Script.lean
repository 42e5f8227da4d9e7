import BundleLink.Channel.Basic

/-!
# Scripted channels

A scripted channel plays a peer whose behaviour is written down beforehand: what each read finds,
and which write, which flush and which close fail. It counts the calls and keeps what was written.

* `Script`           the script and the counts, `Script.lone` one with a single entry;
* `Script.readFrom`  what a read takes from the entries; bytes are handed out piece by piece.

After the last entry reads find nothing, or, if there is a filler, as many filler bytes as they ask
for.
-/

namespace BundleLink

structure Script where
  readings : List (Except IoError Arrival)
  /-- the byte that fills all reads after the script, if any -/
  filler : Option UInt8
  /-- which write call fails, counted from 1 -/
  failingWrite : Option Nat
  /-- which flush call fails, counted from 1 -/
  failingFlush : Option Nat
  /-- all close calls fail -/
  failingClose : Bool
  writes : Nat
  flushes : Nat
  closes : Nat
  /-- the buffers of successful writes that nobody took yet, the last one first -/
  written : List Bytes
  deriving Repr

namespace Script

/-- hands these bytes out, and nothing after them -/
def lone (bytes : Bytes) : Script where
  readings := [.ok (.data bytes)]
  filler := none
  failingWrite := none
  failingFlush := none
  failingClose := false
  writes := 0
  flushes := 0
  closes := 0
  written := []

def writeFailure : IoError := ⟨"ConnectionReset", "scripted write failure"⟩
def flushFailure : IoError := ⟨"BrokenPipe", "scripted flush failure"⟩
def closeFailure : IoError := ⟨"Other", "scripted close failure"⟩

/-- what a read of `n` bytes takes from the first entry, and the entries after it -/
def readFrom (n : Nat) : List (Except IoError Arrival) →
    Option (Except IoError Arrival × List (Except IoError Arrival))
  | [] => none
  | .ok (.data bs) :: rest =>
    some (.ok (.data (bs.take n)),
      if (bs.drop n).isEmpty then rest else .ok (.data (bs.drop n)) :: rest)
  | r :: rest => some (r, rest)

def read (n : Nat) (s : Script) : Except IoError Arrival × Script :=
  match readFrom n s.readings with
  | some (r, rest) => (r, { s with readings := rest })
  | none =>
    match s.filler with
    | some b => (.ok (.data (List.replicate n b)), s)
    | none => (.ok .nothing, s)

def write (bs : Bytes) (s : Script) : Except IoError Unit × Script :=
  let s := { s with writes := s.writes + 1 }
  if s.failingWrite = some s.writes then (.error writeFailure, s)
  else (.ok (), { s with written := bs :: s.written })

def flush (s : Script) : Except IoError Unit × Script :=
  let s := { s with flushes := s.flushes + 1 }
  if s.failingFlush = some s.flushes then (.error flushFailure, s) else (.ok (), s)

def close (s : Script) : Except IoError Unit × Script :=
  let s := { s with closes := s.closes + 1 }
  if s.failingClose then (.error closeFailure, s) else (.ok (), s)

/-- all bytes written since they were last taken, and the script without them -/
def drain (s : Script) : Bytes × Script := (s.written.reverse.flatten, { s with written := [] })

theorem readFrom_data_le {n : Nat} {rs rest : List (Except IoError Arrival)} {bs : Bytes}
    (h : readFrom n rs = some (.ok (.data bs), rest)) : bs.length ≤ n := by
  unfold readFrom at h
  split at h
  · cases h
  · cases h
    exact List.length_take_le n _
  · rename_i notData
    have hpair := Prod.mk.inj (Option.some.inj h)
    exact (notData _ hpair.1).elim

theorem length_readFrom_le {n : Nat} {rs rest : List (Except IoError Arrival)}
    {r : Except IoError Arrival} (h : readFrom n rs = some (r, rest)) :
    rest.length ≤ rs.length := by
  unfold readFrom at h
  split at h
  · cases h
  · cases h
    split
    · exact Nat.le_succ _
    · exact Nat.le_refl _
  · cases h
    exact Nat.le_succ _

/-- an entry of empty data is used up by the read that finds it -/
theorem length_readFrom_lt {n : Nat} (hn : 0 < n) {rs rest : List (Except IoError Arrival)}
    (h : readFrom n rs = some (.ok (.data []), rest)) : rest.length < rs.length := by
  unfold readFrom at h
  split at h
  · cases h
  · rename_i bs rest'
    have hpair := Prod.mk.inj (Option.some.inj h)
    have htake : bs.take n = [] := Arrival.data.inj (Except.ok.inj hpair.1)
    have hbs : bs = [] := by
      rcases List.take_eq_nil_iff.mp htake with h0 | h0
      · omega
      · exact h0
    subst hbs
    have : rest' = rest := by simpa using hpair.2
    simp [this]
  · cases h
    simp

theorem length_read_le (n : Nat) (s : Script) (bs : Bytes) (h : (s.read n).1 = .ok (.data bs)) :
    bs.length ≤ n := by
  unfold read at h
  split at h
  · rename_i r rest hr
    dsimp only at h
    subst h
    exact readFrom_data_le hr
  · split at h <;> cases h
    simp

theorem readings_read_le (n : Nat) (s : Script) :
    (s.read n).2.readings.length ≤ s.readings.length := by
  unfold read
  split
  · rename_i r rest hr
    exact length_readFrom_le hr
  · split <;> exact Nat.le_refl _

theorem readings_read_lt (n : Nat) (s : Script) (hn : 0 < n) (h : (s.read n).1 = .ok (.data [])) :
    (s.read n).2.readings.length < s.readings.length := by
  unfold read at h ⊢
  split at h
  · rename_i r rest hr
    dsimp only at h
    subst h
    exact length_readFrom_lt hn hr
  · split at h
    · have : List.replicate n _ = [] := Arrival.data.inj (Except.ok.inj h)
      rw [List.replicate_eq_nil_iff] at this
      omega
    · cases h

instance : Channel Script where
  read := read
  write := write
  flush := flush
  close := close
  lull s := s.readings.length
  length_read_le := length_read_le
  lull_read_le := readings_read_le
  lull_read_lt := readings_read_lt

end Script

end BundleLink
