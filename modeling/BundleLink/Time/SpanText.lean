import BundleLink.Time.Span

/-!
# Time spans as text

A span is written in the largest unit of which it holds at least one: seconds, milliseconds,
microseconds or nanoseconds. The rest follows the point without trailing zeros: `11.5s`, `50ms`,
`1.000001ms`, `10µs`, `1ns`.
-/

namespace BundleLink.Span

/-- the decimal digits of `n` below `10 ^ places`, the highest place first -/
def digits : Nat → Nat → List Char
  | 0, _ => []
  | places + 1, n => Char.ofNat (48 + n / Nat.pow 10 places % 10) :: digits places n

/-- all but the zeros at the end -/
def trimZeros (cs : List Char) : List Char := (cs.reverse.dropWhile (· == '0')).reverse

/-- the fraction `n / 10 ^ places` after the point; nothing if it is zero -/
def fraction (places n : Nat) : String :=
  match trimZeros (digits places n) with
  | [] => ""
  | cs => "." ++ String.ofList cs

/-- `n` over the unit of `10 ^ places` nanoseconds -/
def inUnit (places : Nat) (unit : String) (n : Nat) : String :=
  toString (n / Nat.pow 10 places) ++ fraction places (n % Nat.pow 10 places) ++ unit

def text (d : Span) : String :=
  if d.ns ≥ 1000000000 then inUnit 9 "s" d.ns
  else if d.ns ≥ 1000000 then inUnit 6 "ms" d.ns
  else if d.ns ≥ 1000 then inUnit 3 "µs" d.ns
  else inUnit 0 "ns" d.ns

@[simp] theorem length_digits (places n : Nat) : (digits places n).length = places := by
  induction places with
  | zero => rfl
  | succ places ih => simp [digits, ih]

end BundleLink.Span
