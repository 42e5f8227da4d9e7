import BundleLink.Proofs.Turns

/-!
# What the slots of an assembly hold

Fragments of any kind are put into the slots of an assembly, in any order, and some are refused. The
slots and the two numbers that an assembly keeps about them never contradict each other.

* `Assembly.Filled`            slots, count and declared number agree;
* `Filled.empty`, `Filled.insert_added`, `Filled.insert_duplicate`  they do so from the start, and
  after each fragment that is not refused (`place_header` and `place_data` for the two kinds);
* `Filled.exists_free`         as long as the bundle is not whole, one of its slots is free;
* `Assembly.Regular`           what holds of an entry, be it finished or not.
-/

namespace BundleLink.Assembly

variable {k : Key} {a b : Assembly} {f : Fragment} {i n : Nat}

/-! ## one slot -/

theorem occupied_extend (slots : Array (Option Fragment)) (i : Nat) :
    (extend slots i).countP Option.isSome = slots.countP Option.isSome := by
  rw [extend]
  split
  · rw [Array.countP_append, Array.countP_replicate]
    rfl
  · rfl

/-- a fragment that is placed takes a slot that was free -/
theorem occupied_place (hfree : a.at? i = none) (h : place a i f = (.added, b)) :
    b.slots.countP Option.isSome = a.slots.countP Option.isSome + 1 := by
  rw [place, hfree] at h
  cases h
  have hi := lt_size_extend a.slots i
  have hslot : (extend a.slots i)[i].isSome = false := by
    have hjoin := (getElem?_extend a.slots i i).trans hfree
    rw [Array.getElem?_eq_getElem hi, Option.join_some] at hjoin
    rw [hjoin]
    rfl
  show Array.countP Option.isSome ((extend a.slots i).setIfInBounds i (some f)) = _
  rw [Array.setIfInBounds_def, dif_pos hi, Array.countP_set, hslot, occupied_extend]
  rfl

/-! ## all slots -/

/-- Slot `i` is taken by the fragment with number `i` if at all, the slots taken are counted, and
the number that is declared is the one in the header, which is in slot 0. -/
structure Filled (k : Key) (a : Assembly) : Prop where
  present : a.present = a.slots.countP Option.isSome
  slot : ∀ i f, a.at? i = some f → f.key = k ∧ f.number.toInt = i
  size_le : a.slots.size ≤ Fragment.maxCount + 1
  header : (∃ f, a.at? 0 = some f) ↔ ∃ n, a.declared = some n
  length : ∀ n f, a.declared = some n → a.at? 0 = some f → f.length.toInt = n
  declared : ∀ n, a.declared = some n → 1 ≤ n ∧ a.slots.size ≤ n + 1

theorem Filled.empty (k : Key) (now deadline : Moment) : Filled k (empty now deadline) := by
  refine ⟨rfl, nofun, Nat.zero_le _, ⟨?_, ?_⟩, nofun, nofun⟩
  · rintro ⟨f, hf⟩
    cases hf
  · rintro ⟨n, hn⟩
    cases hn

/-- neither the moment of the last arrival nor the deadline matters -/
theorem Filled.touch (h : Filled k a) (now deadline : Moment) :
    Filled k { a with lastArrival := now, deadline := deadline } :=
  ⟨h.present, h.slot, h.size_le, h.header, h.length, h.declared⟩

/-- a fragment that is added went into a free slot -/
theorem of_place_added (h : place a i f = (.added, b)) :
    (∀ j, b.at? j = if j = i then some f else a.at? j) ∧ a.at? i = none ∧
      b.slots.size = max a.slots.size (i + 1) ∧ b.present = a.present + 1 ∧
      b.declared = a.declared ∧ b.acked = a.acked ∧
      b.slots.countP Option.isSome = a.slots.countP Option.isSome + 1 := by
  cases hfree : a.at? i with
  | some g =>
    rw [place_taken hfree] at h
    cases h
  | none =>
    have hoccupied := occupied_place hfree h
    have hacked : b.acked = a.acked := by
      rw [place, hfree] at h
      cases h
      rfl
    obtain ⟨c, hplace, hslot, hsize, hpresent, hdeclared, -⟩ := place_free (f := f) hfree
    rw [hplace] at h
    cases h
    exact ⟨hslot, rfl, hsize, hpresent, hdeclared, hacked, hoccupied⟩

/-- the slots after a fragment was put into the slot of its number -/
theorem slot_of_place (hslot : ∀ j g, a.at? j = some g → g.key = k ∧ g.number.toInt = j)
    (hkey : f.key = k) (hnumber : f.number.toInt = i)
    (hb : ∀ j, b.at? j = if j = i then some f else a.at? j) (j : Nat) (g : Fragment)
    (hg : b.at? j = some g) : g.key = k ∧ g.number.toInt = j := by
  rw [hb] at hg
  split at hg
  · rename_i hj
    cases hg
    exact ⟨hkey, hj ▸ hnumber⟩
  · exact hslot j g hg

/-- a header is refused, or it declares as many fragments as the slots allow and as any other header
before it -/
theorem insert_header_cases (hzero : f.number = 0) (a : Assembly) :
    (∃ why, a.insert f = (.invalid why, a)) ∨
      ∃ n : Nat, f.length.toInt = n ∧ 1 ≤ n ∧ a.slots.size ≤ n + 1 ∧
        (∀ m, a.declared = some m → m = n) ∧
        a.insert f = place { a with declared := some n } 0 f := by
  have hneg : ¬ f.number < 0 := by
    rw [hzero]
    decide
  rw [insert, if_neg hneg, if_pos hzero, insertHeader]
  split
  · exact .inl ⟨_, rfl⟩
  · rename_i hlength
    have hpos : 0 < f.length.toInt := Int16.lt_iff_toInt_lt.mp (Int16.not_le.mp hlength)
    have hn : f.length.toInt = Width.payloadLength f.length := by
      rw [Width.payloadLength]
      omega
    dsimp only
    split
    · exact .inl ⟨_, rfl⟩
    · rename_i hsize
      have hlow : 1 ≤ Width.payloadLength f.length := by omega
      have hfits : a.slots.size ≤ Width.payloadLength f.length + 1 := by omega
      split
      · rename_i previous hdeclared
        split
        · exact .inl ⟨_, rfl⟩
        · rename_i heq
          have hsame : previous = Width.payloadLength f.length := Decidable.not_not.mp heq
          refine .inr ⟨_, hn, hlow, hfits, fun m hm => ?_, ?_⟩
          · rw [hdeclared] at hm
            exact (Option.some.inj hm).symm.trans hsame
          · rw [← hsame, ← hdeclared]
      · rename_i hnone
        refine .inr ⟨_, hn, hlow, hfits, fun m hm => ?_, rfl⟩
        rw [hnone] at hm
        cases hm

/-- a data fragment is refused, or it goes to a slot that the bundle has as far as is known -/
theorem insert_data_cases (hdata : f.number ≠ 0) (a : Assembly) :
    (∃ why, a.insert f = (.invalid why, a)) ∨
      ∃ i : Nat, f.number.toInt = i ∧ 1 ≤ i ∧ i ≤ a.declared.getD Fragment.maxCount ∧
        a.insert f = place a i f := by
  rw [insert]
  split
  · exact .inl ⟨_, rfl⟩
  · rename_i hneg
    rw [insertData]
    have hge : 0 ≤ f.number.toInt := Int32.le_iff_toInt_le.mp (Int32.not_lt.mp hneg)
    have hne : f.number.toInt ≠ 0 := fun h => hdata (Int32.toInt_inj.mp h)
    split
    · exact .inl ⟨_, rfl⟩
    · rename_i hlimit
      exact .inr ⟨_, by omega, by omega, Nat.not_lt.mp hlimit, rfl⟩

/-- no header declares more fragments than there can be -/
theorem Filled.declared_le (h : Filled k a) :
    a.declared.getD Fragment.maxCount ≤ Fragment.maxCount := by
  cases hn : a.declared with
  | none => exact Nat.le_refl _
  | some n =>
    obtain ⟨g, hg⟩ := h.header.mpr ⟨n, hn⟩
    have hlt := Int16.toInt_lt g.length
    rw [h.length n g hn hg] at hlt
    show n ≤ 32767
    omega

/-- a header goes to the first slot -/
theorem Filled.place_header (h : Filled k a) (hkey : f.key = k) (hzero : f.number = 0)
    (hn : f.length.toInt = n) (hlow : 1 ≤ n) (hfits : a.slots.size ≤ n + 1)
    (hplace : place { a with declared := some n } 0 f = (.added, b)) : Filled k b := by
  obtain ⟨hslot, -, hsize, hpresent, hdeclared, -, hoccupied⟩ := of_place_added hplace
  have hb0 : b.at? 0 = some f := (hslot 0).trans (if_pos rfl)
  have hnumber : f.number.toInt = (0 : Nat) := by rw [hzero]; rfl
  have hdeclared : b.declared = some n := hdeclared
  have hsize : b.slots.size = max a.slots.size 1 := hsize
  have hold := h.size_le
  refine ⟨?_, slot_of_place h.slot hkey hnumber hslot, ?_, ?_, ?_, ?_⟩
  · rw [hpresent, hoccupied]
    exact congrArg (· + 1) h.present
  · rw [hsize]
    omega
  · exact ⟨fun _ => ⟨n, hdeclared⟩, fun _ => ⟨f, hb0⟩⟩
  · intro m g hm hg
    rw [hdeclared] at hm
    rw [hb0] at hg
    cases hm
    cases hg
    exact hn
  · intro m hm
    rw [hdeclared] at hm
    cases hm
    rw [hsize]
    omega

/-- a data fragment goes to any other slot, as far as the header allows -/
theorem Filled.place_data {i : Nat} (h : Filled k a) (hkey : f.key = k) (hi : f.number.toInt = i)
    (hlow : 1 ≤ i) (hlimit : i ≤ a.declared.getD Fragment.maxCount)
    (hplace : place a i f = (.added, b)) : Filled k b := by
  obtain ⟨hslot, -, hsize, hpresent, hdeclared, -, hoccupied⟩ := of_place_added hplace
  have hb0 : b.at? 0 = a.at? 0 := (hslot 0).trans (if_neg (by omega))
  have hold := h.size_le
  have hmax : i ≤ Fragment.maxCount := Nat.le_trans hlimit h.declared_le
  refine ⟨?_, slot_of_place h.slot hkey hi hslot, ?_, ?_, ?_, ?_⟩
  · rw [hpresent, hoccupied]
    exact congrArg (· + 1) h.present
  · rw [hsize]
    omega
  · rw [hb0, hdeclared]
    exact h.header
  · rw [hb0, hdeclared]
    exact h.length
  · intro n hn
    rw [hdeclared] at hn
    rw [hn] at hlimit
    have hold := h.declared n hn
    have hlimit : i ≤ n := hlimit
    rw [hsize]
    omega

theorem Filled.insert_added (h : Filled k a) (hkey : f.key = k)
    (hinsert : a.insert f = (.added, b)) :
    Filled k b ∧ 1 ≤ b.present ∧ b.acked = a.acked := by
  by_cases hzero : f.number = 0
  · rcases insert_header_cases hzero a with ⟨why, heq⟩ | ⟨n, hn, hlow, hfits, -, heq⟩
    · rw [heq] at hinsert
      cases hinsert
    · rw [heq] at hinsert
      obtain ⟨-, -, -, hpresent, -, hacked, -⟩ := of_place_added hinsert
      exact ⟨h.place_header hkey hzero hn hlow hfits hinsert,
        hpresent ▸ Nat.le_add_left 1 _, hacked⟩
  · rcases insert_data_cases hzero a with ⟨why, heq⟩ | ⟨i, hi, hlow, hlimit, heq⟩
    · rw [heq] at hinsert
      cases hinsert
    · rw [heq] at hinsert
      obtain ⟨-, -, -, hpresent, -, hacked, -⟩ := of_place_added hinsert
      exact ⟨h.place_data hkey hi hlow hlimit hinsert,
        hpresent ▸ Nat.le_add_left 1 _, hacked⟩

/-- a fragment that was there before leaves everything as it is -/
theorem Filled.insert_duplicate (h : Filled k a) (hinsert : a.insert f = (.duplicate, b)) :
    b = a := by
  by_cases hzero : f.number = 0
  · rcases insert_header_cases hzero a with ⟨why, heq⟩ | ⟨n, -, -, -, hsame, heq⟩
    · rw [heq] at hinsert
      cases hinsert
    · rw [heq] at hinsert
      obtain rfl := place_duplicate hinsert
      -- slot 0 is taken, so the number was declared before
      cases hfree : a.at? 0 with
      | none =>
        obtain ⟨c, hplace, -⟩ := place_free (a := { a with declared := some n }) (f := f) hfree
        rw [hplace] at hinsert
        cases hinsert
      | some g =>
        obtain ⟨m, hm⟩ := h.header.mp ⟨g, hfree⟩
        rw [← hsame m hm, ← hm]
  · rcases insert_data_cases hzero a with ⟨why, heq⟩ | ⟨i, -, -, -, heq⟩
    · rw [heq] at hinsert
      cases hinsert
    · rw [heq] at hinsert
      exact place_duplicate hinsert

/-- as long as not all fragments are there, one of the slots that the header asks for is free -/
theorem Filled.exists_free (h : Filled k a) (hn : a.declared = some n)
    (hmissing : a.isCollected = false) : ∃ i, i ≤ n ∧ a.at? i = none := by
  have hfew : a.present < n + 1 := by
    rw [isCollected, missing, hn, Option.map_some, beq_eq_false_iff_ne] at hmissing
    have hne : n + 1 - a.present ≠ 0 := fun heq => hmissing (congrArg some heq)
    omega
  have hsize := (h.declared n hn).2
  by_cases hlast : a.slots.size ≤ n
  · exact ⟨a.slots.size, hlast, by rw [at?, Array.getElem?_eq_none (Nat.le_refl _)]; rfl⟩
  · -- there are as many slots as fragments, and fewer of them are taken
    have hnot : ¬ ∀ o ∈ a.slots, o.isSome = true := fun hall => by
      have hcount := Array.countP_eq_size.mpr hall
      rw [← h.present] at hcount
      omega
    obtain ⟨o, ho⟩ := Classical.not_forall.mp hnot
    obtain ⟨hmem, hnone⟩ := Classical.not_imp.mp ho
    obtain ⟨i, hi, rfl⟩ := Array.mem_iff_getElem.mp hmem
    refine ⟨i, by omega, ?_⟩
    rw [at?, Array.getElem?_eq_getElem hi, Option.join_some]
    exact Option.not_isSome_iff_eq_none.mp hnone

/-! ## entries -/

/-- What holds of an entry with that key. A finished one has no slots any more, and its sender was
told. An unfinished one holds at least one fragment, and misses at least one. -/
structure Regular (k : Key) (a : Assembly) : Prop where
  acked : a.complete = true ↔ a.acked = true
  finished : a.complete = true → a.slots = #[] ∧ a.present = 0
  filled : a.complete = false → Filled k a
  present : a.complete = false → 1 ≤ a.present
  free : a.complete = false → ∀ n, a.declared = some n → ∃ i, i ≤ n ∧ a.at? i = none

end BundleLink.Assembly
