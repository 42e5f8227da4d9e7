import BundleLink.Fault

/-!
# Integer widths

Lengths and positions are counted without bound inside the library, but the wire has 16 bits for a
length and 32 bits for a position.

* `payloadLength`     a signed length read as a number of bytes, negative ones as zero;
* `toInt16`, `toInt32`  narrowing, which faults on a number that does not fit.
-/

namespace BundleLink.Width

/-- the number of bytes that a signed length stands for: negative lengths stand for none -/
def payloadLength (n : Int16) : Nat := n.toInt.toNat

/-- the greatest 16-bit and 32-bit values -/
def maxInt16 : Nat := 32767
def maxInt32 : Nat := 2147483647

def toInt16 (n : Nat) : Except Fault Int16 :=
  if n ≤ maxInt16 then .ok (Int16.ofNat n) else .error .outOfRange

def toInt32 (n : Nat) : Except Fault Int32 :=
  if n ≤ maxInt32 then .ok (Int32.ofNat n) else .error .outOfRange

theorem toInt16_of_le {n : Nat} (h : n ≤ maxInt16) : toInt16 n = .ok (Int16.ofNat n) := if_pos h

theorem toInt32_of_le {n : Nat} (h : n ≤ maxInt32) : toInt32 n = .ok (Int32.ofNat n) := if_pos h

theorem toInt16_of_lt {n : Nat} (h : maxInt16 < n) : toInt16 n = .error .outOfRange :=
  if_neg (by omega)

theorem toInt32_of_lt {n : Nat} (h : maxInt32 < n) : toInt32 n = .error .outOfRange :=
  if_neg (by omega)

end BundleLink.Width
