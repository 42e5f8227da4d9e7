import BundleLink.Fault

/-!
# Time spans and moments

Both are counted in nanoseconds. A span holds less than `2 ^ 64` seconds, and a clock names moments
of less than `2 ^ 63` seconds after its start; arithmetic beyond these limits faults.

* `Span`, `Span.times`    a length of time and its multiples;
* `Moment`, `Moment.add`, `Moment.since`  a reading of the clock, a later one, and the span between
  two of them (zero if the second one is the later).
-/

namespace BundleLink

structure Span where
  ns : Nat
  deriving DecidableEq, Repr

structure Moment where
  /-- nanoseconds since the clock started -/
  ns : Nat
  deriving DecidableEq, Repr

namespace Span

/-- nanoseconds in a second -/
def second : Nat := 1000000000

def limit : Nat := UInt64.size * second

def zero : Span := ⟨0⟩

def ofMillis (n : Nat) : Span := ⟨n * 1000000⟩

def ofSeconds (n : Nat) : Span := ⟨n * second⟩

def max (a b : Span) : Span := ⟨Nat.max a.ns b.ns⟩

/-- half of a span, rounded down to whole nanoseconds -/
def half (d : Span) : Span := ⟨d.ns / 2⟩

def times (d : Span) (k : Nat) : Except Fault Span :=
  if d.ns * k < limit then .ok ⟨d.ns * k⟩ else .error .spanTooLong

theorem times_of_lt {d : Span} {k : Nat} (h : d.ns * k < limit) : d.times k = .ok ⟨d.ns * k⟩ :=
  if_pos h

end Span

namespace Moment

def limit : Nat := UInt64.size / 2 * Span.second

def start : Moment := ⟨0⟩

def add (m : Moment) (d : Span) : Except Fault Moment :=
  if m.ns + d.ns < limit then .ok ⟨m.ns + d.ns⟩ else .error .momentTooLate

/-- the span from `earlier` to `later`, zero if they are in the other order -/
def since (later earlier : Moment) : Span := ⟨later.ns - earlier.ns⟩

theorem add_of_lt {m : Moment} {d : Span} (h : m.ns + d.ns < limit) :
    m.add d = .ok ⟨m.ns + d.ns⟩ := if_pos h

@[simp] theorem since_self (m : Moment) : m.since m = Span.zero := by
  simp [since, Span.zero]

end Moment

end BundleLink
