import BundleLink.Bytes.Basic
import BundleLink.Checksum

/-!
# Wire layouts

Two layouts of a fragment on the wire exist. Both begin with a magic marker, the key, the number and
the length; the checksummed one adds the fragment's checksum.

* `Layout`          the two layouts, with their tags and names;
* `Layout.checksumOf`     what a layout writes as the checksum of a payload;
* `Layout.putChecksum`, `Layout.getChecksum`  the checksum field, written and read.
-/

namespace BundleLink

inductive Layout where
  | plain
  | checksummed
  deriving DecidableEq, Repr

/-- marks the start of every fragment on the wire: the letters `CNDT` -/
def magic : Bytes := [0x43, 0x4E, 0x44, 0x54]

namespace Layout

/-- magic marker, generation, message, number, length -/
def baseLength : Nat := 4 + 8 + 8 + 4 + 2

/-- the length of the checksum field -/
def checksumLength : Layout → Nat
  | .plain => 0
  | .checksummed => 8

/-- the length of a fragment on the wire without its payload -/
def headerLength (l : Layout) : Nat := baseLength + l.checksumLength

def name : Layout → String
  | .plain => "Plain"
  | .checksummed => "Checksummed"

def tag : Layout → Nat
  | .plain => 0
  | .checksummed => 1

/-- a tag that stands for no layout -/
structure UnknownTag where
  tag : Nat
  deriving DecidableEq, Repr

def UnknownTag.message (u : UnknownTag) : String :=
  s!"No discriminant in enum `CodecKind` matches the value `{u.tag}`"

def ofTag : Nat → Except UnknownTag Layout
  | 0 => .ok .plain
  | 1 => .ok .checksummed
  | n => .error ⟨n⟩

def checksumOf (l : Layout) (payload : Bytes) : UInt64 :=
  match l with
  | .plain => 0
  | .checksummed => Checksum.ofBytes payload

def putChecksum (l : Layout) (checksum : UInt64) : Bytes :=
  match l with
  | .plain => []
  | .checksummed => BigEndian.put 8 checksum.toNat

/-- a field that ends after the bytes do -/
structure ShortRead where
  requested : Nat
  available : Nat
  deriving DecidableEq, Repr

def ShortRead.message (s : ShortRead) : String :=
  "Not enough bytes remaining in buffer to read value "
    ++ s!"(requested {s.requested} but only {s.available} available)"

/-- the checksum field at the start of `raw`, and the bytes after it -/
def getChecksum (l : Layout) (raw : Bytes) : Except ShortRead (UInt64 × Bytes) :=
  match l with
  | .plain => .ok (0, raw)
  | .checksummed =>
    if raw.holds 8 then .ok (UInt64.ofNat (BigEndian.value (raw.take 8)), raw.drop 8)
    else .error ⟨8, raw.length⟩

@[simp] theorem ofTag_tag (l : Layout) : ofTag l.tag = .ok l := by cases l <;> rfl

@[simp] theorem length_putChecksum (l : Layout) (checksum : UInt64) :
    (l.putChecksum checksum).length = l.checksumLength := by
  cases l <;> simp [putChecksum, checksumLength]

end Layout

end BundleLink
