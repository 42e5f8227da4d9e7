import BundleLink.Bytes.Listing
import BundleLink.Wire.Form
import BundleLink.Width

/-!
# The fragment at the start of raw bytes

Raw bytes begin with a whole fragment, with the start of one, or with something else. In the last
case a number of bytes can be dropped after which a fragment may start again: everything up to the
next magic marker, or all but a tail that is too short to hold one.

* `Flaw`        what is wrong with bytes that begin no fragment;
* `Extraction`  the three cases;
* `resync`      the number of bytes to drop in front of the next marker;
* `extract`     the case of given bytes.
-/

namespace BundleLink.Wire

inductive Flaw where
  | badMagic (found : Bytes)
  | shortField (e : Layout.ShortRead)
  | negativeNumber (number : Int32)
  | negativeLength (length : Int16)
  | badFragment (e : FragmentError)
  deriving DecidableEq, Repr

def Flaw.message : Flaw → String
  | .badMagic found =>
    s!"expected magic {magic.hexDigits}, found {found.listing}"
  | .shortField e => e.message
  | .negativeNumber number => s!"negative fragment id {number}"
  | .negativeLength length => s!"negative length {length} for data fragment"
  | .badFragment e => e.message

inductive Extraction where
  /-- a fragment, and the number of bytes that it takes up -/
  | fragment (f : Fragment) (size : Nat)
  /-- the start of a fragment, but not all of it yet -/
  | incomplete
  /-- no fragment: `skip` bytes are to be dropped -/
  | malformed (skip : Nat) (flaw : Flaw)
  deriving DecidableEq, Repr

/-- the position of the first magic marker, if the first byte is at `start` -/
def findMagic (start : Nat) : Bytes → Option Nat
  | [] => none
  | b :: bs => if magic.isPrefixOf (b :: bs) then some start else findMagic (start + 1) bs

/-- the number of bytes in front of the next magic marker, not counting one at the very start; if
there is none, all bytes but the last three, which may be the beginning of a marker -/
def resync (raw : Bytes) : Nat :=
  match findMagic 1 (raw.drop 1) with
  | some n => n
  | none => max (raw.length - 3) 1

/-- the payload that number and length announce: nothing for number 0 -/
def announced (number : Int32) (length : Int16) : Except Flaw Nat :=
  if number < 0 then .error (.negativeNumber number)
  else if number = 0 then .ok 0
  else if length < 0 then .error (.negativeLength length)
  else .ok (Width.payloadLength length)

/-- the fields of a fragment whose header is known to be there -/
def extractFields (layout : Layout) (raw : Bytes) : Extraction :=
  let generation := UInt64.ofNat (BigEndian.value ((raw.drop 4).take 8))
  let message := UInt64.ofNat (BigEndian.value ((raw.drop 12).take 8))
  let number := (UInt32.ofNat (BigEndian.value ((raw.drop 20).take 4))).toInt32
  let length := (UInt16.ofNat (BigEndian.value ((raw.drop 24).take 2))).toInt16
  match layout.getChecksum (raw.drop 26) with
  | .error e => .malformed layout.headerLength (.shortField e)
  | .ok (checksum, rest) =>
    match announced number length with
    | .error flaw => .malformed layout.headerLength flaw
    | .ok size =>
      if rest.holds size then
        let payload := if number = 0 then none else some (rest.take size)
        match Fragment.make generation message number length checksum payload with
        | .ok f => .fragment f (layout.headerLength + size)
        | .error e => .malformed (layout.headerLength + size) (.badFragment e)
      else .incomplete

def extract (layout : Layout) (raw : Bytes) : Extraction :=
  if !raw.holds 4 then .incomplete
  else if raw.take 4 ≠ magic then .malformed (resync raw) (.badMagic (raw.take 4))
  else if !raw.holds layout.headerLength then .incomplete
  else extractFields layout raw

theorem headerLength_pos (layout : Layout) : 0 < layout.headerLength := by
  cases layout <;> decide

theorem findMagic_ge {start n : Nat} {bs : Bytes} (h : findMagic start bs = some n) :
    start ≤ n := by
  induction bs generalizing start with
  | nil => simp [findMagic] at h
  | cons b bs ih =>
    rw [findMagic] at h
    split at h
    · exact Nat.le_of_eq (Option.some.inj h)
    · exact Nat.le_of_succ_le (ih h)

theorem resync_pos (raw : Bytes) : 0 < resync raw := by
  unfold resync
  split
  · rename_i n h
    exact findMagic_ge h
  · exact Nat.lt_of_lt_of_le Nat.zero_lt_one (Nat.le_max_right _ _)

theorem extractFields_pos {layout : Layout} {raw : Bytes} :
    (∀ f n, extractFields layout raw = .fragment f n → 0 < n) ∧
      ∀ n flaw, extractFields layout raw = .malformed n flaw → 0 < n := by
  have := headerLength_pos layout
  unfold extractFields
  constructor <;> intro x y h <;> dsimp only at h <;> repeat' split at h
  all_goals first | cases h; omega | cases h

/-- a fragment takes up at least one byte -/
theorem extract_fragment_pos {layout : Layout} {raw : Bytes} {f : Fragment} {n : Nat}
    (h : extract layout raw = .fragment f n) : 0 < n := by
  unfold extract at h
  repeat' split at h
  all_goals first | exact extractFields_pos.1 f n h | cases h

/-- at least one malformed byte is dropped -/
theorem extract_malformed_pos {layout : Layout} {raw : Bytes} {flaw : Flaw} {n : Nat}
    (h : extract layout raw = .malformed n flaw) : 0 < n := by
  unfold extract at h
  repeat' split at h
  all_goals first | exact extractFields_pos.2 n flaw h | (cases h; exact resync_pos raw) | cases h

end BundleLink.Wire
