/-!
# Faults and failures

An operation of this library ends in one of three ways: it succeeds, it fails with an error that its
caller is expected to handle, or it stops on a FAULT, a condition that a correct caller rules out
(a number that leaves its machine range, an empty averaging window).

* `Fault`      the conditions that stop a run, `Fault.message` their wording;
* `Failure ε`  an error of kind `ε`, or a fault, `Failure.isFault` and `faulted` tell them apart;
* `Failure.mapError`  errors change their kind, faults pass through.

Arithmetic on numbers of fixed width is checked. A counter that is full does not start again from
zero, be it a message number, a generation or a count of timeouts: to count on is a fault.
-/

namespace BundleLink

/-- a condition that a correct caller rules out -/
inductive Fault where
  /-- a count does not fit into the narrower integer chosen for it -/
  | outOfRange
  /-- a window that averages no value at all -/
  | emptyWindow
  /-- a time in seconds that no time span can hold -/
  | secondsTooBig
  /-- a multiple of a time span that no time span can hold -/
  | spanTooLong
  /-- a moment later than the last one the clock can name -/
  | momentTooLate
  /-- a counter of fixed width that is asked to count past its last value -/
  | counterFull
  /-- a state that an earlier fault left half changed, so that it must not be used any more -/
  | halted
  deriving DecidableEq, Repr

def Fault.message : Fault → String
  | .outOfRange =>
    "this is a bug: application logic should have ensured the value range: "
      ++ "TryFromIntError(PosOverflow)"
  | .emptyWindow => "rolling window must hold at least one value"
  | .secondsTooBig => "cannot convert float seconds to Duration: value is either too big or NaN"
  | .spanTooLong => "overflow when multiplying duration by scalar"
  | .momentTooLate => "overflow when adding duration to instant"
  | .counterFull => "attempt to add with overflow"
  | .halted => "called `Result::unwrap()` on an `Err` value: PoisonError \x7b .. \x7d"

/-- how an operation that does not succeed ends -/
inductive Failure (ε : Type) where
  | error (e : ε)
  | fault (f : Fault)
  deriving DecidableEq, Repr

def Failure.isFault {ε : Type} : Failure ε → Bool
  | .error _ => false
  | .fault _ => true

def Failure.mapError {ε δ : Type} (g : ε → δ) : Failure ε → Failure δ
  | .error e => .error (g e)
  | .fault f => .fault f

@[simp] theorem Failure.mapError_error {ε δ : Type} (g : ε → δ) (e : ε) :
    (Failure.error e).mapError g = .error (g e) := rfl

@[simp] theorem Failure.mapError_fault {ε δ : Type} (g : ε → δ) (f : Fault) :
    (Failure.fault f).mapError g = .fault f := rfl

/-- the result is a fault -/
def faulted {ε α : Type} : Except (Failure ε) α → Bool
  | .ok _ => false
  | .error e => e.isFault

/-- a result that knows faults only, seen as one that could also fail with an error -/
def faulting {ε α : Type} : Except Fault α → Except (Failure ε) α
  | .ok a => .ok a
  | .error f => .error (.fault f)

@[simp] theorem faulting_ok {ε α : Type} (a : α) :
    (faulting (.ok a) : Except (Failure ε) α) = .ok a := rfl

@[simp] theorem faulting_error {ε α : Type} (f : Fault) :
    (faulting (.error f) : Except (Failure ε) α) = .error (.fault f) := rfl

theorem faulting_eq_ok {ε α : Type} {r : Except Fault α} {a : α} :
    (faulting r : Except (Failure ε) α) = .ok a ↔ r = .ok a := by
  cases r <;> simp

end BundleLink
