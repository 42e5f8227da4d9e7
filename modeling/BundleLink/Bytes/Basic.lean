/-!
# Bytes

Byte strings are lists of octets, so that cutting and joining are `take`, `drop` and `++`.

* `Bytes.holds n bs`   at least `n` bytes are there, decided without walking the rest;
* `BigEndian.put k n`  the last `k` base-256 digits of `n`, most significant first;
* `BigEndian.value`    the number that such digits stand for: reading undoes writing (`value_put`)
  and writing undoes reading (`put_value`).
-/

namespace BundleLink

abbrev Bytes := List UInt8

namespace Bytes

/-- at least `n` bytes are there -/
def holds : Nat → Bytes → Bool
  | 0, _ => true
  | _ + 1, [] => false
  | n + 1, _ :: bs => holds n bs

@[simp] theorem holds_zero (bs : Bytes) : holds 0 bs = true := by cases bs <;> rfl

@[simp] theorem holds_succ_nil (n : Nat) : holds (n + 1) [] = false := rfl

@[simp] theorem holds_succ_cons (n : Nat) (b : UInt8) (bs : Bytes) :
    holds (n + 1) (b :: bs) = holds n bs := rfl

theorem holds_iff (n : Nat) (bs : Bytes) : holds n bs = true ↔ n ≤ bs.length := by
  induction bs generalizing n with
  | nil => cases n <;> simp
  | cons b bs ih => cases n <;> simp [ih]

end Bytes

namespace BigEndian

/-- how many numbers `k` octets can hold -/
def weight : Nat → Nat
  | 0 => 1
  | k + 1 => weight k * 256

/-- the last `k` base-256 digits of `n`, most significant first -/
def put : Nat → Nat → Bytes
  | 0, _ => []
  | k + 1, n => UInt8.ofNat (n / weight k) :: put k n

def value (bs : Bytes) : Nat := bs.foldl (fun n b => n * 256 + b.toNat) 0

theorem weight_pos (k : Nat) : 0 < weight k := by
  induction k with
  | zero => exact Nat.one_pos
  | succ k ih => exact Nat.mul_pos ih (by decide)

@[simp] theorem length_put (k n : Nat) : (put k n).length = k := by
  induction k with
  | zero => rfl
  | succ k ih => simp [put, ih]

theorem foldl_eq (bs : Bytes) (a : Nat) :
    bs.foldl (fun n b => n * 256 + b.toNat) a = a * weight bs.length + value bs := by
  induction bs generalizing a with
  | nil => simp [value, weight]
  | cons b bs ih =>
    rw [value, List.foldl_cons, List.foldl_cons, ih, ih, List.length_cons, weight]
    grind

@[simp] theorem value_nil : value [] = 0 := rfl

theorem value_cons (b : UInt8) (bs : Bytes) :
    value (b :: bs) = b.toNat * weight bs.length + value bs := by
  rw [value, List.foldl_cons, foldl_eq, Nat.zero_mul, Nat.zero_add]

theorem value_lt (bs : Bytes) : value bs < weight bs.length := by
  induction bs with
  | nil => decide
  | cons b bs ih =>
    have : (b.toNat + 1) * weight bs.length ≤ 256 * weight bs.length :=
      Nat.mul_le_mul_right _ b.toNat_lt
    rw [value_cons, List.length_cons, weight]
    grind

/-- reading back `k` digits gives the number modulo the weight of `k` octets -/
theorem value_put (k n : Nat) : value (put k n) = n % weight k := by
  induction k with
  | zero => exact (Nat.mod_one n).symm
  | succ k ih =>
    have digits : n % weight (k + 1) = n % weight k + weight k * (n / weight k % 256) :=
      Nat.mod_mul
    have octet : (UInt8.ofNat (n / weight k)).toNat = n / weight k % 256 := UInt8.toNat_ofNat'
    rw [put, value_cons, length_put, ih, octet, digits]
    grind

/-- only the last `k` digits count -/
theorem put_add (k m n : Nat) : put k (m * weight k + n) = put k n := by
  induction k generalizing m with
  | zero => rfl
  | succ k ih =>
    have shift : m * weight (k + 1) + n = m * 256 * weight k + n := by
      rw [weight]
      grind
    have digit : (m * 256 * weight k + n) / weight k = m * 256 + n / weight k := by
      rw [Nat.add_comm, Nat.add_mul_div_right _ _ (weight_pos k), Nat.add_comm]
    have octet : UInt8.ofNat (m * 256 + n / weight k) = UInt8.ofNat (n / weight k) :=
      UInt8.toNat_inj.mp (by simp only [UInt8.toNat_ofNat']; omega)
    rw [put, shift, digit, octet, ih, put]

/-- every byte string is what writing its value gives -/
theorem put_value (bs : Bytes) : put bs.length (value bs) = bs := by
  induction bs with
  | nil => rfl
  | cons b bs ih =>
    have digit : (b.toNat * weight bs.length + value bs) / weight bs.length = b.toNat := by
      rw [Nat.add_comm, Nat.add_mul_div_right _ _ (weight_pos _), Nat.div_eq_of_lt (value_lt bs),
        Nat.zero_add]
    rw [value_cons, List.length_cons, put, digit, put_add, ih, UInt8.ofNat_toNat]

end BigEndian

end BundleLink
