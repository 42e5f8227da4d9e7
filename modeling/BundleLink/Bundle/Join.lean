import BundleLink.Bundle.Error
import BundleLink.Fault
import BundleLink.Layout
import BundleLink.Width

/-!
# Putting fragments together

Fragments are sorted by message and number. They form a bundle if a header comes first, all others
belong to the same message and are numbered 1, 2, … up to the count that the header declares, and
the layout finds no fault with the checksums.

* `sorted`   the fragments in order, which is the stable sort of the library;
* `verify`   the layout's own test of a set of fragments in order;
* `join`     the buffer that the fragments were cut from.
-/

namespace BundleLink.Bundle

/-- the fragment goes in front of the first one that does not have to come before it -/
def sortIn (f : Fragment) : List Fragment → List Fragment
  | [] => [f]
  | g :: gs => if f.before g then f :: g :: gs else g :: sortIn f gs

def sorted (fs : List Fragment) : List Fragment := fs.foldr sortIn []

/-- the payloads of fragments, one after the other -/
def payloads (fs : List Fragment) : Bytes := fs.flatMap Fragment.bytes

/-- compares each carried checksum with the one of the payload, summing them up from `sum` on -/
def verifyData (sum : UInt64) : List Fragment → Except BundleError UInt64
  | [] => .ok sum
  | f :: fs =>
    let actual := Checksum.ofBytes f.bytes
    if actual = f.checksum then verifyData (Checksum.add sum actual) fs
    else .error (.checksumMismatch f.number f.checksum actual)

def verify (layout : Layout) (fs : List Fragment) : Except BundleError Unit :=
  match layout, fs with
  | .plain, _ => .ok ()
  | .checksummed, [] => .error .missingHeader
  | .checksummed, header :: data => do
    let sum ← verifyData 0 data
    if sum = header.checksum then return ()
    else throw (.checksumMismatch 0 header.checksum sum)

/-- fragments of one message, numbered from `number` on -/
def checkSequence (message : UInt64) (number : Nat) :
    List Fragment → Except (Failure BundleError) Unit
  | [] => .ok ()
  | f :: fs => do
    if f.message ≠ message then throw (.error (.mismatchedMessage message f.message))
    let n ← faulting (Width.toInt32 number)
    if f.number ≠ n then throw (.error (.nonSequential number f.number))
    checkSequence message (number + 1) fs

/-- fragments in order that say of themselves that they are a whole bundle, before any look at the
checksums -/
def checkShape (fs : List Fragment) : Except (Failure BundleError) Unit :=
  match fs with
  | [] => .error (.error .missingHeader)
  | header :: data =>
    if header.number ≠ 0 ∨ header.payload.isSome ∨ header.length ≤ 0 then
      .error (.error .missingHeader)
    else if Width.payloadLength header.length ≠ data.length then
      .error (.error (.inconsistentCount header.length data.length))
    else checkSequence header.message 0 fs

def join (layout : Layout) (fs : List Fragment) : Except (Failure BundleError) Bytes := do
  let fs := sorted fs
  checkShape fs
  (verify layout fs).mapError Failure.error
  return payloads fs

@[simp] theorem payloads_nil : payloads [] = [] := rfl

@[simp] theorem payloads_cons (f : Fragment) (fs : List Fragment) :
    payloads (f :: fs) = f.bytes ++ payloads fs := rfl

@[simp] theorem payloads_append (fs gs : List Fragment) :
    payloads (fs ++ gs) = payloads fs ++ payloads gs := List.flatMap_append

/-! ## the order -/

theorem before_iff {f g : Fragment} : f.before g = true ↔
    f.message.toNat < g.message.toNat ∨
      f.message.toNat = g.message.toNat ∧ f.number.toInt ≤ g.number.toInt := by
  rw [Fragment.before, Bool.or_eq_true, Bool.and_eq_true, decide_eq_true_iff, decide_eq_true_iff,
    beq_iff_eq, UInt64.lt_iff_toNat_lt, Int32.le_iff_toInt_le, UInt64.toNat_inj]

theorem before_trans (f g h : Fragment) (hfg : f.before g) (hgh : g.before h) : f.before h := by
  rw [before_iff] at *
  omega

theorem before_total (f g : Fragment) : f.before g || g.before f := by
  rw [Bool.or_eq_true, before_iff, before_iff]
  omega

theorem sortIn_append {f : Fragment} {fs gs : List Fragment} (hfs : ∀ g ∈ fs, ¬ f.before g)
    (hgs : ∀ g ∈ gs, f.before g) : sortIn f (fs ++ gs) = fs ++ f :: gs := by
  induction fs with
  | nil =>
    cases gs with
    | nil => rfl
    | cons g gs => exact if_pos (hgs g List.mem_cons_self)
  | cons g fs ih =>
    rw [List.cons_append, sortIn, if_neg (hfs g List.mem_cons_self),
      ih fun h hh => hfs h (List.mem_cons_of_mem g hh)]
    rfl

/-- the first fragment comes before all equal ones, as in every stable sort -/
theorem sorted_eq_mergeSort (fs : List Fragment) : sorted fs = fs.mergeSort Fragment.before := by
  induction fs with
  | nil => exact List.mergeSort_nil.symm
  | cons f fs ih =>
    obtain ⟨front, back, hcons, hrest, hfront⟩ :=
      List.mergeSort_cons before_trans before_total f fs
    have hordered := List.pairwise_mergeSort before_trans before_total (f :: fs)
    rw [hcons, List.pairwise_append, List.pairwise_cons] at hordered
    rw [sorted, List.foldr_cons, ← sorted, ih, hrest, hcons]
    apply sortIn_append
    · intro g hg
      have hnot := hfront g hg
      rw [Bool.not_eq_true'] at hnot
      exact Bool.eq_false_iff.mp hnot
    · exact hordered.2.1.1

end BundleLink.Bundle
