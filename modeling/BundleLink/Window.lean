import BundleLink.Fault

/-!
# The mean of the most recent values

A window keeps the last `capacity` values of a sequence together with their sum, which is updated
with each value and never recomputed. While the window grows, values are appended; once it is full,
each new value takes the slot of the oldest one, which `oldest` points at.

* `Window.single`  the window that holds one value, `Window.add` the window after one more;
* `Window.values`  the values held, the oldest one first;
* `Window.mean`    the cached sum over the number of values.

Values are of any type with `+` and `-`: doubles where lags are measured.
-/

namespace BundleLink

structure Window (α : Type) where
  capacity : Nat
  slots : Array α
  /-- the slot of the oldest value, once the window is full -/
  oldest : Nat
  sum : α
  deriving Repr

namespace Window

variable {α : Type}

/-- the window that holds one value -/
def single (capacity : Nat) (first : α) : Window α := ⟨capacity, #[first], 0, first⟩

/-- the window that holds one value, unless it is to hold none -/
def start (capacity : Nat) (first : α) : Except Fault (Window α) :=
  if capacity = 0 then .error .emptyWindow else .ok (single capacity first)

/-- how many values the window holds -/
def size (w : Window α) : Nat := w.slots.size

/-- the values held, the oldest one first -/
def values (w : Window α) : List α :=
  w.slots.toList.drop w.oldest ++ w.slots.toList.take w.oldest

def add [Add α] [Sub α] (w : Window α) (x : α) : Window α :=
  if w.slots.size < w.capacity then { w with slots := w.slots.push x, sum := w.sum + x }
  else
    match w.slots[w.oldest]? with
    | some evicted =>
      { w with
        slots := w.slots.setIfInBounds w.oldest x
        oldest := (w.oldest + 1) % w.capacity
        sum := w.sum - evicted + x }
    | none => w

/-- the cached sum over the number of values, converted by `count` -/
def meanBy [Div α] (count : Nat → α) (w : Window α) : α := w.sum / count w.size

def mean (w : Window Float) : Float := w.meanBy Float.ofNat

theorem start_of_pos {capacity : Nat} (first : α) (h : capacity ≠ 0) :
    start capacity first = .ok (single capacity first) := if_neg h

@[simp] theorem length_values (w : Window α) (h : w.oldest ≤ w.size) :
    w.values.length = w.size := by
  simp only [values, List.length_append, List.length_drop, List.length_take, Array.length_toList]
  simp only [size] at h ⊢
  omega

end Window

end BundleLink
