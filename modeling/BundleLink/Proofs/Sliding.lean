import BundleLink.Window
import Mathlib.Algebra.BigOperators.Group.List.Basic
import Mathlib.Algebra.Field.Defs
import Mathlib.Algebra.Field.Rat

/-!
# Windows slide

A window that was started with one value and took others holds the last ones of them all. While it
grows, it holds all of them. From the moment when it is full, each new value is put into the slot of
the oldest one, which is the only one that leaves; the slots are then a ring, cut at `oldest`. A
window for a single value is full from the start.

Where sums and differences are exact, the cached sum is the sum of the values held. Doubles are not
exact, but what happens to the values does not depend on what they are.

* `add_growing`, `add_full`  one more value;
* `Window.Holds`     the window holds the last values of a history;
* `Holds.add`        it does after one more;
* `holds_foldl`      and after any number of them;
* `foldl_add_slides` what is held, what leaves, and the sum.
-/

namespace BundleLink.Window

variable {α : Type}

/-! ## one more value -/

/-- A window with room keeps what it has. -/
theorem add_growing [Add α] [Sub α] {w : Window α} (h : w.size < w.capacity)
    (hstart : w.oldest = 0) (x : α) :
    (w.add x).values = w.values ++ [x] ∧ (w.add x).sum = w.sum + x ∧
      (w.add x).size = w.size + 1 ∧ (w.add x).oldest = 0 ∧
      (w.add x).capacity = w.capacity := by
  rw [size] at h
  rw [add, if_pos h]
  refine ⟨?_, rfl, Array.size_push x, hstart, rfl⟩
  simp only [values, hstart, Array.toList_push, List.drop_zero, List.take_zero, List.append_nil]

/-- The place behind the last one is the first. -/
theorem rotate_next {l : List α} {n i : Nat} (hn : l.length = n) (hi : i < n) :
    l.drop ((i + 1) % n) ++ l.take ((i + 1) % n) = l.drop (i + 1) ++ l.take (i + 1) := by
  rcases Nat.lt_or_ge (i + 1) n with hbefore | hlast
  · rw [Nat.mod_eq_of_lt hbefore]
  · have hend : i + 1 = l.length := by omega
    rw [← hn, hend, Nat.mod_self, List.drop_zero, List.take_zero, List.append_nil,
      List.drop_length, List.take_length, List.nil_append]

/-- What is read from behind a place that was written ends with what was written there. -/
theorem rotate_set {l : List α} {i : Nat} (hi : i < l.length) (x : α) :
    (l.set i x).drop (i + 1) ++ (l.set i x).take (i + 1) =
      l.drop (i + 1) ++ l.take i ++ [x] := by
  have hcount : (l.take i ++ [x]).length = i + 1 := by
    rw [List.length_append, List.length_take_of_le (Nat.le_of_lt hi)]
    rfl
  have hset : l.set i x = (l.take i ++ [x]) ++ l.drop (i + 1) := by
    rw [List.set_eq_take_append_cons_drop, if_pos hi, List.append_assoc]
    rfl
  rw [hset, List.drop_left' hcount, List.take_left' hcount, List.append_assoc]

/-- A full window loses its oldest value, and nothing else. -/
theorem add_full [Add α] [Sub α] {w : Window α} (h : w.size = w.capacity)
    (hlt : w.oldest < w.capacity) (x : α) :
    ∃ evicted rest, w.values = evicted :: rest ∧ (w.add x).values = rest ++ [x] ∧
      (w.add x).sum = w.sum - evicted + x ∧ (w.add x).size = w.size ∧
      (w.add x).oldest < w.capacity ∧ (w.add x).capacity = w.capacity := by
  rw [size] at h
  have hslot : w.oldest < w.slots.size := by omega
  have hadd : w.add x =
      { w with
        slots := w.slots.setIfInBounds w.oldest x
        oldest := (w.oldest + 1) % w.capacity
        sum := w.sum - w.slots[w.oldest] + x } := by
    rw [add, if_neg (by omega), Array.getElem?_eq_getElem hslot]
  refine ⟨w.slots[w.oldest], w.slots.toList.drop (w.oldest + 1) ++ w.slots.toList.take w.oldest,
    ?_, ?_, ?_, ?_, ?_, ?_⟩
  · rw [values, List.drop_eq_getElem_cons (show w.oldest < w.slots.toList.length from hslot)]
    rfl
  · have hlength : (w.slots.toList.set w.oldest x).length = w.capacity := by
      rw [List.length_set]
      exact h
    rw [hadd, values, Array.toList_setIfInBounds, rotate_next hlength hlt]
    exact rotate_set hslot x
  · rw [hadd]
  · rw [hadd]
    exact Array.size_setIfInBounds
  · rw [hadd]
    exact Nat.mod_lt _ (by omega)
  · rw [hadd]

/-! ## any number of values -/

/-- The window holds the last values of a history, as many as it has room for. -/
structure Holds (w : Window α) (history : List α) : Prop where
  oldest_lt : w.oldest < w.capacity
  /-- nothing has left a window that is not full -/
  growing : w.size < w.capacity → w.oldest = 0
  size : w.size = min w.capacity history.length
  values : w.values = history.drop (history.length - w.capacity)

/-- the window that holds one value -/
theorem holds_single {capacity : Nat} (h : 0 < capacity) (first : α) :
    Holds (single capacity first) [first] := by
  refine ⟨h, fun _ => rfl, (Nat.min_eq_right h).symm, ?_⟩
  have hzero : [first].length - capacity = 0 := Nat.sub_eq_zero_of_le h
  exact (congrArg (List.drop · [first]) hzero).symm

namespace Holds

variable {w : Window α} {history : List α}

theorem all (h : Holds w history) (hroom : w.size < w.capacity) :
    w.values = history ∧ history.length < w.capacity := by
  have hsize := h.size
  have hlt : history.length < w.capacity := by omega
  refine ⟨?_, hlt⟩
  rw [h.values, Nat.sub_eq_zero_of_le (Nat.le_of_lt hlt), List.drop_zero]

theorem full (h : Holds w history) (hroom : ¬ w.size < w.capacity) :
    w.size = w.capacity ∧ w.capacity ≤ history.length := by
  have hsize := h.size
  omega

theorem length_values (h : Holds w history) : w.values.length = w.size := by
  rw [h.values, h.size, List.length_drop]
  omega

theorem add [Add α] [Sub α] (h : Holds w history) (x : α) : Holds (w.add x) (history ++ [x]) := by
  have hlength : (history ++ [x]).length = history.length + 1 := by
    rw [List.length_append]
    rfl
  by_cases hroom : w.size < w.capacity
  · obtain ⟨hvalues, hlt⟩ := h.all hroom
    obtain ⟨hadd, -, hsize, holdest, hcapacity⟩ := add_growing hroom (h.growing hroom) x
    have hcount := h.size
    refine ⟨by rw [holdest, hcapacity]; omega, fun _ => holdest, ?_, ?_⟩
    · rw [hsize, hcapacity, hlength]
      omega
    · rw [hadd, hvalues, hcapacity, hlength, Nat.sub_eq_zero_of_le hlt, List.drop_zero]
  · obtain ⟨hfull, hle⟩ := h.full hroom
    obtain ⟨evicted, rest, hvalues, hadd, -, hsize, holdest, hcapacity⟩ :=
      add_full hfull h.oldest_lt x
    refine ⟨by rw [hcapacity]; exact holdest, fun hless => ?_, ?_, ?_⟩
    · rw [hsize, hcapacity] at hless
      exact absurd hless hroom
    · rw [hsize, hcapacity, hlength]
      omega
    · -- dropping one value more of the history drops the first one of those held
      have hone := congrArg (List.drop 1) (h.values.symm.trans hvalues)
      rw [List.drop_drop, List.drop_one, List.tail_cons] at hone
      have hdrop : history.length + 1 - w.capacity = history.length - w.capacity + 1 := by omega
      rw [hadd, hcapacity, hlength, hdrop, List.drop_append_of_le_length (by omega), hone]

end Holds

@[simp] theorem capacity_add [Add α] [Sub α] (w : Window α) (x : α) :
    (w.add x).capacity = w.capacity := by
  unfold add
  split
  · rfl
  · split <;> rfl

@[simp] theorem capacity_foldl [Add α] [Sub α] (w : Window α) (xs : List α) :
    (xs.foldl add w).capacity = w.capacity := by
  induction xs generalizing w with
  | nil => rfl
  | cons x xs ih => rw [List.foldl_cons, ih, capacity_add]

theorem Holds.foldl [Add α] [Sub α] {w : Window α} {history : List α} (h : Holds w history)
    (xs : List α) : Holds (xs.foldl Window.add w) (history ++ xs) := by
  induction xs generalizing w history with
  | nil =>
    rw [List.append_nil]
    exact h
  | cons x xs ih =>
    have hlater := ih (h.add x)
    rwa [List.append_assoc] at hlater

theorem holds_foldl [Add α] [Sub α] {capacity : Nat} (h : 0 < capacity) (first : α)
    (xs : List α) : Holds (xs.foldl add (single capacity first)) (first :: xs) :=
  (holds_single h first).foldl xs

/-! ## the sum -/

section

variable [AddCommGroup α] {w : Window α} {history : List α}

theorem sum_add (h : Holds w history) (hsum : w.sum = w.values.sum) (x : α) :
    (w.add x).sum = (w.add x).values.sum := by
  by_cases hroom : w.size < w.capacity
  · obtain ⟨hadd, hnew, -⟩ := add_growing hroom (h.growing hroom) x
    rw [hnew, hadd, hsum, List.sum_append, List.sum_singleton]
  · obtain ⟨evicted, rest, hvalues, hadd, hnew, -⟩ :=
      add_full (h.full hroom).1 h.oldest_lt x
    rw [hnew, hadd, hsum, hvalues, List.sum_cons, List.sum_append, List.sum_singleton,
      add_sub_cancel_left]

theorem sum_foldl (h : Holds w history) (hsum : w.sum = w.values.sum) (xs : List α) :
    (xs.foldl add w).sum = (xs.foldl add w).values.sum := by
  induction xs generalizing w history with
  | nil => exact hsum
  | cons x xs ih => exact ih (h.add x) (sum_add h hsum x)

end

/-- A window for some values that was started with one and took others holds the last ones. Each
value that comes to a full window replaces the oldest one there, in the window and in the sum. In
exact arithmetic the sum and the mean are those of the values held. -/
theorem foldl_add_slides {capacity : Nat} (h : 0 < capacity) :
    (∀ {α : Type} [Add α] [Sub α] (first : α) (xs : List α),
      ∃ opened : Window α, start capacity first = .ok opened ∧
        let w := xs.foldl add opened
        w.values = (first :: xs).drop (xs.length + 1 - capacity) ∧
          w.size = min capacity (xs.length + 1) ∧
          (w.size < capacity → ∀ x, (w.add x).values = w.values ++ [x] ∧
            (w.add x).sum = w.sum + x) ∧
          (w.size = capacity → ∀ x, ∃ oldest rest, w.values = oldest :: rest ∧
            (w.add x).values = rest ++ [x] ∧ (w.add x).sum = w.sum - oldest + x)) ∧
      ∀ {K : Type} [DivisionRing K] (first : K) (xs : List K),
        let w := xs.foldl add (single capacity first)
        w.sum = w.values.sum ∧ w.meanBy Nat.cast = w.values.sum / w.values.length := by
  refine ⟨fun first xs => ⟨_, start_of_pos first (Nat.ne_of_gt h), ?_⟩, fun first xs => ?_⟩
  · have hholds := holds_foldl h first xs
    have hcapacity : (xs.foldl add (single capacity first)).capacity = capacity :=
      capacity_foldl _ xs
    refine ⟨?_, ?_, fun hroom x => ?_, fun hfull x => ?_⟩
    · have hvalues := hholds.values
      rwa [hcapacity] at hvalues
    · have hsize := hholds.size
      rwa [hcapacity] at hsize
    · replace hroom := hroom.trans_eq hcapacity.symm
      obtain ⟨hvalues, hsum, -⟩ := add_growing hroom (hholds.growing hroom) x
      exact ⟨hvalues, hsum⟩
    · obtain ⟨oldest, rest, hvalues, hadd, hsum, -⟩ :=
        add_full (hfull.trans hcapacity.symm) hholds.oldest_lt x
      exact ⟨oldest, rest, hvalues, hadd, hsum⟩
  · have hsum : (single capacity first).sum = (single capacity first).values.sum :=
      List.sum_singleton.symm
    have hheld := sum_foldl (holds_single h first) hsum xs
    refine ⟨hheld, ?_⟩
    rw [meanBy, hheld, (holds_foldl h first xs).length_values]

/-- four values in a window for two, and in one for a single value -/
theorem foldl_add_slides_small :
    let two := ([5, 7, 9] : List Rat).foldl add (single 2 3)
    let one := ([5, 7, 9] : List Rat).foldl add (single 1 3)
    two.values = [7, 9] ∧ two.meanBy Nat.cast = ([7, 9] : List Rat).sum / 2 ∧
      one.values = [9] ∧ one.sum = 9 := by
  intro two one
  obtain ⟨htwo, htwo'⟩ := foldl_add_slides (show 0 < 2 by decide)
  obtain ⟨hone, hone'⟩ := foldl_add_slides (show 0 < 1 by decide)
  obtain ⟨_, hopened, hvalues, -⟩ := htwo (3 : Rat) [5, 7, 9]
  obtain ⟨_, hopened', hvalues', -⟩ := hone (3 : Rat) [5, 7, 9]
  cases hopened
  cases hopened'
  have hmean := (htwo' (3 : Rat) [5, 7, 9]).2
  have hsum := (hone' (3 : Rat) [5, 7, 9]).1
  rw [hvalues] at hmean
  rw [hvalues'] at hsum
  exact ⟨hvalues, hmean, hvalues', hsum.trans List.sum_singleton⟩

end BundleLink.Window
