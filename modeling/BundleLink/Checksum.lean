import BundleLink.Bytes.Basic

/-!
# Checksums

The checksum of a byte string is the sum of its bytes modulo `2 ^ 63`. Sums of sums are taken with
`Checksum.add`, which looks at the lower 63 bits of both sides only.
-/

namespace BundleLink.Checksum

/-- the lower 63 bits -/
def mask : UInt64 := 0x7FFFFFFFFFFFFFFF

def add (a b : UInt64) : UInt64 := ((a &&& mask) + (b &&& mask)) &&& mask

def ofBytes (bs : Bytes) : UInt64 := bs.foldl (fun sum b => add sum b.toUInt64) 0

theorem toNat_and_mask (a : UInt64) : (a &&& mask).toNat = a.toNat % 0x8000000000000000 := by
  rw [UInt64.toNat_and]
  exact Nat.and_two_pow_sub_one_eq_mod a.toNat 63

/-- sums are taken modulo `2 ^ 63` -/
theorem toNat_add (a b : UInt64) : (add a b).toNat = (a.toNat + b.toNat) % 0x8000000000000000 := by
  rw [add, toNat_and_mask, UInt64.toNat_add, toNat_and_mask, toNat_and_mask]
  omega

@[simp] theorem ofBytes_nil : ofBytes [] = 0 := rfl

theorem ofBytes_concat (bs : Bytes) (b : UInt8) :
    ofBytes (bs ++ [b]) = add (ofBytes bs) b.toUInt64 := by
  simp [ofBytes]

end BundleLink.Checksum
