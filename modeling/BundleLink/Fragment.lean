import BundleLink.Bytes.Basic

/-!
# Fragments

A BUNDLE is a buffer that an application hands over as a whole. On the way it is cut into FRAGMENTS,
which carry the key of their bundle (the generation of the sender and the number of the message) and
their own number within it:

* number 0 is the HEADER, whose length is the number of data fragments; it carries no bytes;
* numbers 1, 2, … are the DATA fragments, whose length is the number of bytes they carry.

Number 0 also serves for CONTROL: an ACK has length 0 and a NAK a negative length.

* `Fragment.WellFormed`  the rules that tie number, length and payload together;
* `Fragment.make`        a fragment from its fields, refused if it breaks a rule;
* `Fragment.header`, `Fragment.data`, `Fragment.ack`, `Fragment.nak`  the four kinds.
-/

namespace BundleLink

/-- the key of a bundle -/
structure Key where
  generation : UInt64
  message : UInt64
  deriving DecidableEq, Repr

/-- the key is one that a link gives to the bundles it sends: neither part is zero -/
def Key.isProper (k : Key) : Bool := k.generation != 0 && k.message != 0

structure Fragment where
  generation : UInt64
  message : UInt64
  /-- the position within the bundle, 0 for headers and control -/
  number : Int32
  length : Int16
  /-- zero in layouts without checksums -/
  checksum : UInt64
  payload : Option Bytes
  deriving DecidableEq, Repr

/-- why fields do not make a fragment -/
inductive FragmentError where
  | negativeNumber (number : Int32)
  | unexpectedPayload
  | missingPayload (number : Int32)
  | lengthMismatch (number : Int32) (length : Int16) (actual : Nat)
  | payloadTooLong (actual : Nat)
  deriving DecidableEq, Repr

def FragmentError.message : FragmentError → String
  | .negativeNumber number => s!"fragment id must not be negative, was {number}"
  | .unexpectedPayload => "fragment id 0 (header or control fragment) must not carry a payload"
  | .missingPayload number => s!"data fragment #{number} has no payload"
  | .lengthMismatch number length actual =>
    s!"data fragment #{number} declares length {length} but carries {actual} bytes"
  | .payloadTooLong actual => s!"payload of {actual} bytes does not fit into a single fragment"

namespace Fragment

/-- the greatest number of bytes in a data fragment, and of data fragments in a bundle -/
def maxPayload : Nat := 32767
def maxCount : Nat := 32767

def ackLength : Int16 := 0
def nakLength : Int16 := -1

/-- The number is not negative, number 0 carries no payload, and a data fragment carries as many
bytes as it says. -/
def WellFormed (f : Fragment) : Prop :=
  0 ≤ f.number.toInt ∧
    match f.payload with
    | none => f.number.toInt = 0
    | some bytes => f.number.toInt ≠ 0 ∧ f.length.toInt = bytes.length

instance (f : Fragment) : Decidable f.WellFormed := by
  unfold WellFormed
  cases f.payload <;> infer_instance

def make (generation message : UInt64) (number : Int32) (length : Int16) (checksum : UInt64)
    (payload : Option Bytes) : Except FragmentError Fragment :=
  if number < 0 then .error (.negativeNumber number)
  else if number = 0 then
    match payload with
    | some _ => .error .unexpectedPayload
    | none => .ok ⟨generation, message, number, length, checksum, none⟩
  else
    match payload with
    | none => .error (.missingPayload number)
    | some bytes =>
      if length.toInt = bytes.length then
        .ok ⟨generation, message, number, length, checksum, some bytes⟩
      else .error (.lengthMismatch number length bytes.length)

/-- number 0 with any length -/
def header (generation message : UInt64) (count : Int16) (checksum : UInt64) : Fragment :=
  ⟨generation, message, 0, count, checksum, none⟩

def data (generation message : UInt64) (number : Int32) (bytes : Bytes) (checksum : UInt64) :
    Except FragmentError Fragment :=
  if bytes.length ≤ maxPayload then
    make generation message number (Int16.ofNat bytes.length) checksum (some bytes)
  else .error (.payloadTooLong bytes.length)

def ack (k : Key) : Fragment := header k.generation k.message ackLength 0

def nak (k : Key) : Fragment := header k.generation k.message nakLength 0

/-- the bundle that the fragment belongs to -/
def key (f : Fragment) : Key := ⟨f.generation, f.message⟩

/-- the bytes that the fragment carries -/
def bytes (f : Fragment) : Bytes := f.payload.getD []

/-- the order in which fragments are put together: by message, then by number -/
def before (f g : Fragment) : Bool :=
  f.message < g.message || (f.message == g.message && f.number ≤ g.number)

/-- Acks and naks. Header and control share number 0, and a length that is no count of fragments
tells them apart, provided that the key is one that a link could have sent. -/
def isControl (f : Fragment) : Bool :=
  f.number == 0 && f.key.isProper && f.length ≤ ackLength

@[simp] theorem key_ack (k : Key) : (ack k).key = k := rfl

@[simp] theorem key_nak (k : Key) : (nak k).key = k := rfl

theorem wellFormed_header (generation message : UInt64) (count : Int16) (checksum : UInt64) :
    (header generation message count checksum).WellFormed := by
  simp [WellFormed, header]

end Fragment

end BundleLink
