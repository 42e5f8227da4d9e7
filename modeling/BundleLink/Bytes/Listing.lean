import BundleLink.Bytes.Basic

/-!
# Bytes as text

A warning about unexpected bytes lists them as two-digit lower-case hexadecimal numbers between
square brackets, for instance `[43, 4e, 44, 54]`.

* `hexByte`, `hexDigits`  one byte, and a whole string of them without separators;
* `ofHexDigits?`          the bytes that such digits stand for;
* `listing`               the bracketed list.
-/

namespace BundleLink.Bytes

def hexDigit (n : Nat) : Char :=
  if n < 10 then Char.ofNat (48 + n) else Char.ofNat (87 + n)

/-- two digits, the higher one first -/
def hexByte (b : UInt8) : List Char := [hexDigit (b.toNat / 16), hexDigit (b.toNat % 16)]

def hexDigits (bs : Bytes) : String := String.ofList (bs.flatMap hexByte)

/-- the value of a hexadecimal digit -/
def digitValue? (c : Char) : Option Nat :=
  if '0' ≤ c ∧ c ≤ '9' then some (c.toNat - 48)
  else if 'a' ≤ c ∧ c ≤ 'f' then some (c.toNat - 87)
  else if 'A' ≤ c ∧ c ≤ 'F' then some (c.toNat - 55)
  else none

/-- the bytes of pairs of digits, which follow the bytes in `acc`, the last of which comes first -/
def ofHexFrom? (acc : Bytes) : List Char → Option Bytes
  | [] => some acc.reverse
  | [_] => none
  | c :: d :: rest =>
    match digitValue? c, digitValue? d with
    | some x, some y => ofHexFrom? (UInt8.ofNat (x * 16 + y) :: acc) rest
    | _, _ => none

def ofHexDigits? (s : String) : Option Bytes := ofHexFrom? [] s.toList

def listing (bs : Bytes) : String :=
  "[" ++ ", ".intercalate (bs.map fun b => String.ofList (hexByte b)) ++ "]"

@[simp] theorem length_hexByte (b : UInt8) : (hexByte b).length = 2 := rfl

end BundleLink.Bytes
