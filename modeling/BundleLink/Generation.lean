/-!
# Initial generations

The links of one program, and of the program when it is started again, have to use different
generations. So the generation that a link starts with has

* the time in milliseconds in its upper 48 bits: later links start with higher generations;
* random bits, the salt, in its lower 16 bits: they tell links apart that are opened within one
  millisecond.

`Generation.pack` puts the two together, and `Generation.ofClock` refuses a time that does not fit.
-/

namespace BundleLink

/-- why a clock does not give a generation -/
inductive ClockError where
  | inTheFuture
  deriving DecidableEq, Repr

def ClockError.message : ClockError → String
  | .inTheFuture => "system clock is in the future"

namespace Generation

def pack (millis : BitVec 48) (salt : UInt16) : UInt64 := ⟨millis ++ salt.toBitVec⟩

/-- the generation for a time in milliseconds since the start of 1970 -/
def ofClock (millis : Nat) (salt : UInt16) : Except ClockError UInt64 :=
  if millis < 1 <<< 48 then .ok (pack (.ofNat 48 millis) salt) else .error .inTheFuture

theorem toNat_pack (millis : BitVec 48) (salt : UInt16) :
    (pack millis salt).toNat = (millis.toNat <<< 16) + salt.toNat := by
  change (millis ++ salt.toBitVec).toNat = _
  rw [BitVec.toNat_append, UInt16.toNat_toBitVec, Nat.shiftLeft_eq, Nat.mul_comm,
    Nat.two_pow_add_eq_or_of_lt salt.toNat_lt]

/-- later links start with higher generations, whatever the salts are -/
theorem pack_lt_pack {m n : BitVec 48} (h : m < n) (s t : UInt16) : pack m s < pack n t := by
  have := s.toNat_lt
  rw [UInt64.lt_iff_toNat_lt, toNat_pack, toNat_pack]
  have := BitVec.lt_def.mp h
  omega

theorem ofClock_ok {millis : Nat} (h : millis < 1 <<< 48) (salt : UInt16) :
    ofClock millis salt = .ok (pack (.ofNat 48 millis) salt) := if_pos h

end Generation

end BundleLink
