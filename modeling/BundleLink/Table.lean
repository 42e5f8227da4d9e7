/-!
# Tables

A table holds at most one entry for each key, the one put last in front.

* `Table.get?`, `Table.put`, `Table.erase`  look up, enter (in place of any entry for the same key)
  and remove;
* `Table.keep`, `Table.map`                 the entries that pass a test, and entries changed in
  place.

What each of them does to look-ups is said by `get?_put`, `get?_erase`, `get?_keep` and `get?_map`,
and to the number of entries by `size_put`, `size_erase`, `size_erase_le` and `size_erase_lt`.
-/

namespace BundleLink

structure Table (κ ν : Type) where
  entries : List (κ × ν)
  distinct : (entries.map Prod.fst).Nodup
  deriving Repr

namespace Table

variable {κ ν : Type}

def empty : Table κ ν := ⟨[], List.nodup_nil⟩

def isEmpty (t : Table κ ν) : Bool := t.entries.isEmpty

def size (t : Table κ ν) : Nat := t.entries.length

def keys (t : Table κ ν) : List κ := t.entries.map Prod.fst

theorem distinct_filter (t : Table κ ν) (p : κ × ν → Bool) :
    ((t.entries.filter p).map Prod.fst).Nodup :=
  (List.filter_sublist.map Prod.fst).nodup t.distinct

/-- all entries that pass a test -/
def keep (t : Table κ ν) (p : κ → ν → Bool) : Table κ ν :=
  ⟨t.entries.filter fun e => p e.1 e.2, t.distinct_filter _⟩

/-- the same keys with other values -/
def map {μ : Type} (t : Table κ ν) (f : ν → μ) : Table κ μ :=
  ⟨t.entries.map fun e => (e.1, f e.2), by simpa [Function.comp_def] using t.distinct⟩

variable [DecidableEq κ]

def find (k : κ) : List (κ × ν) → Option ν
  | [] => none
  | (j, v) :: rest => if j = k then some v else find k rest

def get? (t : Table κ ν) (k : κ) : Option ν := find k t.entries

def erase (t : Table κ ν) (k : κ) : Table κ ν :=
  ⟨t.entries.filter fun e => e.1 ≠ k, t.distinct_filter _⟩

def put (t : Table κ ν) (k : κ) (v : ν) : Table κ ν :=
  ⟨(k, v) :: (t.erase k).entries,
    List.nodup_cons.mpr ⟨by simp [erase], (t.erase k).distinct⟩⟩

@[simp] theorem get?_empty (k : κ) : (empty : Table κ ν).get? k = none := rfl

theorem find_filter (j k : κ) (es : List (κ × ν)) :
    find j (es.filter fun e => e.1 ≠ k) = if j = k then none else find j es := by
  induction es with
  | nil => simp [find]
  | cons e es ih =>
    by_cases hk : e.1 = k
    · by_cases hj : j = k
      · simpa [List.filter_cons, hk, hj] using ih
      · simp_all [find, Ne.symm hj]
    · by_cases hj : e.1 = j <;> simp_all [find]

theorem get?_erase (t : Table κ ν) (j k : κ) :
    (t.erase k).get? j = if j = k then none else t.get? j := find_filter j k t.entries

theorem get?_put (t : Table κ ν) (j k : κ) (v : ν) :
    (t.put k v).get? j = if j = k then some v else t.get? j := by
  by_cases h : j = k
  · simp [put, get?, find, h]
  · simpa [put, get?, find, h, Ne.symm h] using get?_erase t j k

theorem find_eq_none {k : κ} {es : List (κ × ν)} (h : k ∉ es.map Prod.fst) : find k es = none := by
  induction es with
  | nil => rfl
  | cons e es ih =>
    rw [List.map_cons, List.mem_cons, not_or] at h
    rw [find, if_neg (Ne.symm h.1), ih h.2]

theorem notMem_of_find {k : κ} {es : List (κ × ν)} (h : find k es = none) :
    k ∉ es.map Prod.fst := by
  induction es with
  | nil => exact List.not_mem_nil
  | cons e es ih =>
    rw [find] at h
    split at h
    · cases h
    · rename_i hk
      rw [List.map_cons, List.mem_cons, not_or]
      exact ⟨Ne.symm hk, ih h⟩

theorem eq_empty {t : Table κ ν} (h : ∀ k, t.get? k = none) : t = .empty := by
  obtain ⟨entries, distinct⟩ := t
  cases entries with
  | nil => rfl
  | cons e es =>
    have hhead := h e.1
    rw [get?, find, if_pos rfl] at hhead
    cases hhead

theorem mem_of_find {k : κ} {v : ν} {es : List (κ × ν)} (h : find k es = some v) : (k, v) ∈ es := by
  induction es with
  | nil => cases h
  | cons e es ih =>
    rw [find] at h
    split at h
    · rename_i hk
      rw [← hk, ← Option.some.inj h]
      exact List.mem_cons_self
    · exact List.mem_cons_of_mem e (ih h)

theorem get?_of_mem {t : Table κ ν} {k : κ} {v : ν} (h : (k, v) ∈ t.entries) :
    t.get? k = some v := by
  obtain ⟨entries, distinct⟩ := t
  induction entries with
  | nil => cases h
  | cons e es ih =>
    rw [List.map_cons, List.nodup_cons] at distinct
    rw [get?, find]
    rcases List.mem_cons.mp h with rfl | hmem
    · exact if_pos rfl
    · rw [if_neg, ← ih distinct.2 hmem]
      · rfl
      · intro hk
        exact distinct.1 (hk ▸ List.mem_map_of_mem hmem)

theorem size_erase_le (t : Table κ ν) (k : κ) : (t.erase k).size ≤ t.size :=
  List.length_filter_le _ _

/-- an entry that is removed counts no more -/
theorem size_erase_lt {t : Table κ ν} {k : κ} {v : ν} (h : t.get? k = some v) :
    (t.erase k).size < t.size :=
  List.length_filter_lt_length_iff_exists.mpr ⟨(k, v), mem_of_find h, by simp⟩

theorem filter_of_notMem {k : κ} {es : List (κ × ν)} (h : k ∉ es.map Prod.fst) :
    (es.filter fun e => e.1 ≠ k) = es := by
  rw [List.filter_eq_self]
  intro e he
  rw [decide_eq_true_eq]
  rintro rfl
  exact h (List.mem_map_of_mem he)

theorem length_filter_find {k : κ} {v : ν} {es : List (κ × ν)} (hes : (es.map Prod.fst).Nodup)
    (h : find k es = some v) : (es.filter fun e => e.1 ≠ k).length + 1 = es.length := by
  induction es with
  | nil => cases h
  | cons e es ih =>
    rw [List.map_cons, List.nodup_cons] at hes
    rw [find] at h
    by_cases hk : e.1 = k
    · subst hk
      rw [List.filter_cons_of_neg (by simp), filter_of_notMem hes.1, List.length_cons]
    · rw [if_neg hk] at h
      rw [List.filter_cons_of_pos (by simpa using hk), List.length_cons, ih hes.2 h,
        List.length_cons]

/-- … and no other entry does -/
theorem size_erase {t : Table κ ν} {k : κ} {v : ν} (h : t.get? k = some v) :
    (t.erase k).size + 1 = t.size := length_filter_find t.distinct h

/-- a new entry counts -/
theorem size_put {t : Table κ ν} {k : κ} (h : t.get? k = none) (v : ν) :
    (t.put k v).size = t.size + 1 :=
  congrArg (·.length + 1) (filter_of_notMem (notMem_of_find h))

theorem find_keep (k : κ) (p : κ → ν → Bool) (es : List (κ × ν)) (h : (es.map Prod.fst).Nodup) :
    find k (es.filter fun e => p e.1 e.2) = (find k es).filter (p k) := by
  induction es with
  | nil => rfl
  | cons e es ih =>
    rw [List.map_cons, List.nodup_cons] at h
    by_cases hk : e.1 = k
    · have gone : find k es = none := find_eq_none (hk ▸ h.1)
      have kept := ih h.2
      rw [gone, Option.filter_none] at kept
      by_cases hp : p k e.2 <;> simp [find, hk, hp, kept, Option.filter_some]
    · by_cases hp : p e.1 e.2 <;> simp_all [find]

theorem get?_keep (t : Table κ ν) (k : κ) (p : κ → ν → Bool) :
    (t.keep p).get? k = (t.get? k).filter (p k) := find_keep k p t.entries t.distinct

theorem get?_map {μ : Type} (t : Table κ ν) (k : κ) (f : ν → μ) :
    (t.map f).get? k = (t.get? k).map f := by
  simp only [get?, map]
  induction t.entries with
  | nil => rfl
  | cons e es ih => by_cases h : e.1 = k <;> simp_all [find]

end Table

end BundleLink
