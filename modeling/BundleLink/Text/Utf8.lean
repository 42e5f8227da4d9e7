import BundleLink.Bytes.Basic

/-!
# Reading UTF-8

A machine reads one octet at a time. Between characters it looks for a lead octet; after one it
owes a number of further octets, each within a range that for the first of them depends on the lead
octet.

* `Pending`     what is owed inside a character;
* `lead`        the pending state that a lead octet opens;
* `decode`      the characters of a byte string, or its first flaw;
* `Flaw`        where the flawed character starts, and how many of its octets are wrong (`none` if
                the string ends inside a character that could still be completed).
-/

namespace BundleLink.Utf8

structure Flaw where
  /-- the position of the first octet that belongs to no complete character -/
  start : Nat
  /-- the number of octets that can not start any character, if more input would not help -/
  length : Option Nat
  deriving DecidableEq, Repr

def Flaw.message (f : Flaw) : String :=
  match f.length with
  | some n => s!"invalid utf-8 sequence of {n} bytes from index {f.start}"
  | none => s!"incomplete utf-8 byte sequence from index {f.start}"

/-- the state inside a character -/
structure Pending where
  /-- the number of octets still to come -/
  owed : Nat
  /-- the bounds of the next octet -/
  low : UInt8
  high : UInt8
  /-- the code point bits read so far -/
  code : Nat
  /-- the number of octets read so far -/
  seen : Nat
  deriving DecidableEq, Repr

/-- the state after the first octet of a character, if the octet can be one -/
def lead (b : UInt8) : Option Pending :=
  if b ≤ 0x7F then some ⟨0, 0x80, 0xBF, b.toNat, 1⟩
  else if b < 0xC2 then none
  else if b ≤ 0xDF then some ⟨1, 0x80, 0xBF, b.toNat % 0x20, 1⟩
  else if b = 0xE0 then some ⟨2, 0xA0, 0xBF, 0, 1⟩
  else if b = 0xED then some ⟨2, 0x80, 0x9F, 0xD, 1⟩
  else if b ≤ 0xEF then some ⟨2, 0x80, 0xBF, b.toNat % 0x10, 1⟩
  else if b = 0xF0 then some ⟨3, 0x90, 0xBF, 0, 1⟩
  else if b ≤ 0xF3 then some ⟨3, 0x80, 0xBF, b.toNat % 0x08, 1⟩
  else if b = 0xF4 then some ⟨3, 0x80, 0x8F, 4, 1⟩
  else none

/-- the state after one more octet, which has to lie within the bounds -/
def Pending.next (p : Pending) (b : UInt8) : Option Pending :=
  if p.low ≤ b ∧ b ≤ p.high then
    some ⟨p.owed - 1, 0x80, 0xBF, p.code * 64 + b.toNat % 64, p.seen + 1⟩
  else none

/-- Continues after `start` octets of complete characters; `acc` holds these characters, the last
one first, and `state` the unfinished character, if any. -/
def decodeFrom (start : Nat) (state : Option Pending) (acc : List Char) :
    Bytes → Except Flaw (List Char)
  | [] =>
    match state with
    | none => .ok acc.reverse
    | some _ => .error ⟨start, none⟩
  | b :: bs =>
    match state with
    | none =>
      match lead b with
      | none => .error ⟨start, some 1⟩
      | some p =>
        if p.owed = 0 then decodeFrom (start + 1) none (Char.ofNat p.code :: acc) bs
        else decodeFrom start (some p) acc bs
    | some p =>
      match p.next b with
      | none => .error ⟨start, some p.seen⟩
      | some q =>
        if q.owed = 0 then decodeFrom (start + q.seen) none (Char.ofNat q.code :: acc) bs
        else decodeFrom start (some q) acc bs

def decode (bs : Bytes) : Except Flaw String := (decodeFrom 0 none [] bs).map String.ofList

end BundleLink.Utf8
