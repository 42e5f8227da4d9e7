import BundleLink.Bundle.Error
import BundleLink.Fault
import BundleLink.Layout
import BundleLink.Width

/-!
# Cutting a buffer into fragments

A buffer is cut into pieces of the fragment size, the last of which may be shorter. Each piece
becomes a data fragment, and a header in front of them says how many there are and carries the sum
of their checksums.

* `pieces size buffer`  the pieces;
* `dataFragments`       the data fragments of pieces, numbered from a given number on;
* `split`               header and data fragments of a buffer.
-/

namespace BundleLink.Bundle

/-- consecutive pieces of `size` bytes, the last one of which may be shorter; none if `size` is 0 -/
def pieces (size : Nat) (buffer : Bytes) : List Bytes :=
  if _h : 0 < size ∧ buffer ≠ [] then
    buffer.take size :: pieces size (buffer.drop size)
  else []
termination_by buffer.length
decreasing_by
  have : 0 < buffer.length := List.length_pos_iff.mpr _h.2
  simp only [List.length_drop]
  omega

/-- the number of pieces: the quotient of the lengths, rounded up -/
def pieceCount (size : Nat) (buffer : Bytes) : Nat := (buffer.length + size - 1) / size

/-- a size that a fragment may have -/
def validSize (size : Nat) : Bool := 0 < size && size ≤ Fragment.maxPayload

/-- one data fragment for each piece, numbered from `number` on -/
def dataFragments (layout : Layout) (k : Key) (number : Nat) :
    List Bytes → Except (Failure BundleError) (List Fragment)
  | [] => .ok []
  | piece :: rest => do
    let n ← faulting (Width.toInt32 number)
    let f ← (Fragment.data k.generation k.message n piece (layout.checksumOf piece)).mapError
      (Failure.error ∘ BundleError.fragment)
    let fs ← dataFragments layout k (number + 1) rest
    return f :: fs

/-- the sum of the checksums that fragments carry -/
def totalChecksum (fs : List Fragment) : UInt64 :=
  fs.foldl (fun sum f => Checksum.add sum f.checksum) 0

def split (layout : Layout) (size : Nat) (k : Key) (buffer : Bytes) :
    Except (Failure BundleError) (List Fragment) := do
  if buffer.isEmpty then throw (.error .emptyBuffer)
  if !validSize size then throw (.error (.invalidFragmentSize size))
  let count := pieceCount size buffer
  if Fragment.maxCount < count then throw (.error (.tooManyFragments buffer.length size))
  let declared ← faulting (Width.toInt16 count)
  let fs ← dataFragments layout k 1 (pieces size buffer)
  return Fragment.header k.generation k.message declared (totalChecksum fs) :: fs

@[simp] theorem pieces_nil (size : Nat) : pieces size [] = [] := by
  rw [pieces]
  simp

theorem pieces_cons {size : Nat} {buffer : Bytes} (hs : 0 < size) (hb : buffer ≠ []) :
    pieces size buffer = buffer.take size :: pieces size (buffer.drop size) := by
  rw [pieces, dif_pos ⟨hs, hb⟩]

/-- nothing is lost or moved by cutting -/
theorem flatten_pieces {size : Nat} (hs : 0 < size) (buffer : Bytes) :
    (pieces size buffer).flatten = buffer := by
  fun_induction pieces size buffer with
  | case1 buffer h ih => rw [List.flatten_cons, ih, List.take_append_drop]
  | case2 buffer h => exact (Decidable.not_not.mp fun hb => h ⟨hs, hb⟩).symm

end BundleLink.Bundle
