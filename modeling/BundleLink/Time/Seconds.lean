import BundleLink.Time.Span

/-!
# Time spans as seconds in floating point

* `Span.toSeconds`   whole seconds plus the rest as a fraction, each rounded to a double;
* `Span.ofSeconds?`  the whole number of nanoseconds nearest to a double, which is decoded into
  `m * 2 ^ e` and rounded in exact arithmetic.

A tie goes to the even number of nanoseconds. Numbers from `2 ^ 64` on, infinities and NaN are no
spans; a negative zero is the empty one.
-/

namespace BundleLink.Span

def toSeconds (d : Span) : Float :=
  Float.ofNat (d.ns / second) + Float.ofNat (d.ns % second) / Float.ofNat second

/-- the whole number nearest to `num / den`, the even one if two are equally near -/
def roundHalfEven (num den : Nat) : Nat :=
  let q := num / den
  let twice := 2 * (num % den)
  if twice < den then q
  else if den < twice then q + 1
  else q + q % 2

/-- the nanoseconds of a non-negative double, given by its exponent field and its fraction field -/
def nanosOfFields (exponent fraction : Nat) : Except Fault Nat :=
  if 1023 + 64 ≤ exponent then .error .secondsTooBig
  else
    let significand := if exponent = 0 then fraction else (1 <<< 52) + fraction
    let scale := if exponent = 0 then 1 else exponent
    if 1075 ≤ scale then .ok ((significand <<< (scale - 1075)) * second)
    else .ok (roundHalfEven (significand * second) (1 <<< (1075 - scale)))

/-- the span nearest to a non-negative number of seconds; the sign of the number is not looked at -/
def ofSeconds? (x : Float) : Except Fault Span :=
  let bits := x.toBits.toNat
  (nanosOfFields ((bits >>> 52) % (1 <<< 11)) (bits % (1 <<< 52))).map Span.mk

theorem roundHalfEven_exact (q den : Nat) (h : 0 < den) : roundHalfEven (q * den) den = q := by
  have hq : q * den / den = q := Nat.mul_div_cancel q h
  have hr : q * den % den = 0 := Nat.mul_mod_left q den
  simp [roundHalfEven, hq, hr, h]

end BundleLink.Span
