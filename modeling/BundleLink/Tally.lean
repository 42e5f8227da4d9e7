/-!
# Running totals

Traffic is counted in totals of 128 bits, which 64-bit increments do not overflow in practice. A
total that reaches the last value stays there.

* `Tally.add`       the total after an increment;
* `Tally.subtract`  the total after a decrement, refused if it would become negative.
-/

namespace BundleLink

structure Tally where
  total : Nat
  deriving DecidableEq, Repr

namespace Tally

def zero : Tally := ⟨0⟩

def greatest : Nat := UInt64.size * UInt64.size - 1

def add (t : Tally) (n : Nat) : Tally := ⟨min (t.total + n) greatest⟩

/-- a decrement that is greater than the total -/
structure Shortfall where
  total : Nat
  decrement : Nat
  deriving DecidableEq, Repr

def Shortfall.message (s : Shortfall) : String :=
  s!"subtracting {s.decrement} from counter value {s.total} would make it negative"

def subtract (t : Tally) (n : Nat) : Except Shortfall Tally :=
  if n ≤ t.total then .ok ⟨t.total - n⟩ else .error ⟨t.total, n⟩

theorem add_of_le {t : Tally} {n : Nat} (h : t.total + n ≤ greatest) :
    (t.add n).total = t.total + n := Nat.min_eq_left h

theorem subtract_add {t : Tally} {n : Nat} (h : t.total + n ≤ greatest) :
    (t.add n).subtract n = .ok t := by
  have hn : n ≤ t.total + n := Nat.le_add_left n t.total
  simp [subtract, add, Nat.min_eq_left h, hn]

end Tally

end BundleLink
