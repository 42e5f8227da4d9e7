import BundleLink.Assembly
import BundleLink.Proofs.Parts

/-!
# Assembling the fragments of one bundle

While fragments of a bundle arrive, in any order and any number of times, its assembly holds each
of those seen so far in the slot of its number, and nothing else.

* `Assembly.Holds parts seen a`   the assembly `a` of a bundle with the fragments `parts` holds
  those that are among `seen`;
* `Assembly.insert_seen`          a fragment that was seen is a duplicate;
* `Assembly.insert_new`           any other one is added;
* `Assembly.isCollected_iff`      no fragment is missing exactly if all were seen;
* `Assembly.fragments_eq`         then the slots hold the fragments of the bundle, in order.
-/

namespace BundleLink

/-! ## fragments and their positions -/

namespace Bundle.Parts

variable {layout : Layout} {k : Key} {buffer : Bytes} {parts : List Fragment}

theorem toInt_number (h : Parts layout k buffer parts) {i : Nat} {f : Fragment}
    (hf : parts[i]? = some f) : f.number.toInt = i := by
  have hi := (List.getElem?_eq_some_iff.mp hf).1
  have hmax : Fragment.maxCount + 1 < 2 ^ 31 := by decide
  have := h.le_max
  rw [h.number i f hf]
  exact Int32.toInt_ofNat_of_lt (by omega)

theorem position_unique (h : Parts layout k buffer parts) {i j : Nat} {f : Fragment}
    (hi : parts[i]? = some f) (hj : parts[j]? = some f) : i = j := by
  have h1 := h.toInt_number hi
  have h2 := h.toInt_number hj
  omega

theorem nodup (h : Parts layout k buffer parts) : parts.Nodup := by
  rw [List.Nodup, List.pairwise_iff_getElem]
  intro i j hi hj hij heq
  have hi' := List.getElem?_eq_getElem hi
  rw [heq] at hi'
  have := h.position_unique hi' (List.getElem?_eq_getElem hj)
  omega

theorem unseen (h : Parts layout k buffer parts) {seen more : List Fragment} {f : Fragment}
    (hparts : parts = seen ++ f :: more) : f ∉ seen := by
  have hnodup := h.nodup
  rw [hparts, List.nodup_append] at hnodup
  exact fun hseen => hnodup.2.2 f hseen f List.mem_cons_self rfl

/-- in the order of the numbers, a fragment is the last one missing if none follows it -/
theorem all_seen_iff (h : Parts layout k buffer parts) {seen more : List Fragment} {f : Fragment}
    (hparts : parts = seen ++ f :: more) : (∀ g ∈ parts, g ∈ f :: seen) ↔ more = [] := by
  have hnodup := h.nodup
  rw [hparts] at hnodup ⊢
  rw [List.nodup_append, List.nodup_cons] at hnodup
  constructor
  · intro hall
    cases more with
    | nil => rfl
    | cons g more =>
      rcases List.mem_cons.mp (hall g (by simp)) with rfl | hseen
      · exact absurd List.mem_cons_self hnodup.2.1.1
      · exact absurd rfl (hnodup.2.2 g hseen g (by simp))
  · rintro rfl g hg
    simpa [or_comm] using hg

theorem number_ne_zero (h : Parts layout k buffer parts) {i : Nat} {f : Fragment}
    (hf : parts[i]? = some f) (hi : i ≠ 0) : f.number ≠ 0 := by
  intro h0
  have h1 := h.toInt_number hf
  rw [h0, Int32.toInt_zero] at h1
  omega

theorem length_pos (h : Parts layout k buffer parts) {f : Fragment} (hf : f ∈ parts)
    (hn : f.number = 0) : ¬ f.length ≤ 0 := by
  obtain ⟨i, hi⟩ := List.mem_iff_getElem?.mp hf
  by_cases h0 : i = 0
  · subst h0
    intro hle
    have h1 := Int16.le_iff_toInt_le.mp hle
    have h2 := h.header f hi
    have h3 := h.two_le
    rw [Int16.toInt_zero] at h1
    omega
  · exact absurd hn (h.number_ne_zero hi h0)

theorem isControl_eq (h : Parts layout k buffer parts) {f : Fragment} (hf : f ∈ parts) :
    f.isControl = false := by
  by_cases hn : f.number = 0
  · have hlen : decide (f.length ≤ Fragment.ackLength) = false :=
      decide_eq_false (h.length_pos hf hn)
    simp [Fragment.isControl, hlen]
  · simp [Fragment.isControl, hn]

end Bundle.Parts

namespace Assembly

/-! ## slots -/

theorem getElem?_extend (slots : Array (Option Fragment)) (i j : Nat) :
    (extend slots i)[j]?.join = slots[j]?.join := by
  unfold extend
  split
  · rw [Array.getElem?_append]
    split
    · rfl
    · rename_i hj
      rw [Array.getElem?_eq_none (Nat.le_of_not_lt hj), Array.getElem?_replicate]
      split <;> rfl
  · rfl

theorem lt_size_extend (slots : Array (Option Fragment)) (i : Nat) : i < (extend slots i).size := by
  unfold extend
  split
  · rw [Array.size_append, Array.size_replicate]
    omega
  · omega

theorem size_extend (slots : Array (Option Fragment)) (i : Nat) :
    (extend slots i).size = max slots.size (i + 1) := by
  unfold extend
  split
  · rw [Array.size_append, Array.size_replicate]
    omega
  · omega

/-- a free slot takes the fragment, and the others stay as they are -/
theorem place_free {a : Assembly} {i : Nat} {f : Fragment} (h : a.at? i = none) :
    ∃ b, place a i f = (.added, b) ∧ (∀ j, b.at? j = if j = i then some f else a.at? j) ∧
      b.slots.size = max a.slots.size (i + 1) ∧ b.present = a.present + 1 ∧
      b.declared = a.declared ∧ b.complete = a.complete := by
  unfold place
  rw [h]
  refine ⟨_, rfl, ?_, ?_, rfl, rfl, rfl⟩
  · intro j
    show ((extend a.slots i).setIfInBounds i (some f))[j]?.join = _
    rw [Array.getElem?_setIfInBounds]
    by_cases hij : i = j
    · rw [if_pos hij, if_pos hij.symm, if_pos (lt_size_extend a.slots i)]
      rfl
    · rw [if_neg hij, if_neg (Ne.symm hij), getElem?_extend]
      rfl
  · rw [Array.size_setIfInBounds, size_extend]

theorem place_taken {a : Assembly} {i : Nat} {f g : Fragment} (h : a.at? i = some g) :
    place a i f = (.duplicate, a) := by
  unfold place
  rw [h]

/-! ## the fragments seen so far -/

variable {layout : Layout} {k : Key} {buffer : Bytes} {parts seen : List Fragment} {a : Assembly}

/-- The assembly of an unfinished bundle with the fragments `parts` holds those that are among
`seen`, and knows the count that the header declares if the header is. -/
structure Holds (parts seen : List Fragment) (a : Assembly) : Prop where
  slot : ∀ i, a.at? i = parts[i]?.filter (· ∈ seen)
  size_le : a.slots.size ≤ parts.length
  present : a.present = parts.countP (· ∈ seen)
  declared : a.declared = (parts[0]?.filter (· ∈ seen)).map fun _ => parts.length - 1
  unfinished : a.complete = false

theorem Holds.empty (now deadline : Moment) (h : ∀ f ∈ parts, f ∉ seen) :
    Holds parts seen (empty now deadline) := by
  have hnone (i : Nat) : parts[i]?.filter (· ∈ seen) = none := by
    rw [Option.filter_eq_none_iff]
    intro f hf
    simpa using h f (List.mem_of_getElem? hf)
  refine ⟨?_, Nat.zero_le _, ?_, ?_, rfl⟩
  · intro i
    rw [hnone]
    rfl
  · rw [eq_comm]
    show List.countP _ _ = 0
    rw [List.countP_eq_zero]
    intro f hf
    simpa using h f hf
  · rw [hnone]
    rfl

theorem Holds.congr {seen' : List Fragment} (h : Holds parts seen a)
    (hseen : ∀ f ∈ parts, f ∈ seen ↔ f ∈ seen') : Holds parts seen' a := by
  have hfilter (i : Nat) : parts[i]?.filter (· ∈ seen) = parts[i]?.filter (· ∈ seen') := by
    cases hi : parts[i]? with
    | none => rfl
    | some f =>
      have := hseen f (List.mem_of_getElem? hi)
      simp [Option.filter, this]
  refine ⟨fun i => by rw [h.slot, hfilter], h.size_le, ?_, by rw [h.declared, hfilter],
    h.unfinished⟩
  rw [h.present]
  apply List.countP_congr
  intro f hf
  simpa using hseen f hf

theorem Holds.header_unseen (h : Holds parts seen a) {f : Fragment} (hf : parts[0]? = some f)
    (hseen : f ∉ seen) : a.declared = none := by
  rw [h.declared, hf]
  simp [Option.filter, hseen]

theorem Holds.header_seen (h : Holds parts seen a) {f : Fragment} (hf : parts[0]? = some f)
    (hseen : f ∈ seen) : a.declared = some (parts.length - 1) := by
  rw [h.declared, hf]
  simp [Option.filter, hseen]

theorem Holds.slot_unseen (h : Holds parts seen a) {i : Nat} {f : Fragment}
    (hf : parts[i]? = some f) (hseen : f ∉ seen) : a.at? i = none := by
  rw [h.slot, hf]
  simp [Option.filter, hseen]

theorem Holds.slot_seen (h : Holds parts seen a) {i : Nat} {f : Fragment}
    (hf : parts[i]? = some f) (hseen : f ∈ seen) : a.at? i = some f := by
  rw [h.slot, hf]
  simp [Option.filter, hseen]

/-- where a fragment of the bundle goes: into the slot of its number, unless it is the header, whose
count is noted first -/
theorem insert_eq (hp : Bundle.Parts layout k buffer parts) (h : Holds parts seen a) {i : Nat}
    {f : Fragment} (hf : parts[i]? = some f) :
    a.insert f =
      place (if i = 0 then { a with declared := some (parts.length - 1) } else a) i f := by
  have hmem := List.mem_of_getElem? hf
  have hi := (List.getElem?_eq_some_iff.mp hf).1
  have hneg := Wire.number_not_neg f (hp.fits f hmem).1
  have hnumber := hp.toInt_number hf
  have hlow := hp.two_le
  have hhigh := hp.le_max
  unfold insert
  rw [if_neg hneg]
  by_cases h0 : i = 0
  · subst h0
    have hzero : f.number = 0 := Int32.toInt_inj.mp (hnumber.trans Int32.toInt_zero.symm)
    have hcount := hp.header f hf
    have hlength : Width.payloadLength f.length = parts.length - 1 := by
      rw [Width.payloadLength]
      omega
    have hfew : ¬ parts.length - 1 + 1 < a.slots.size := by
      have := h.size_le
      omega
    rw [if_pos hzero, if_pos rfl, insertHeader, if_neg (hp.length_pos hmem hzero), hlength]
    dsimp only
    rw [if_neg hfew]
    by_cases hs : f ∈ seen
    · have hdecl := h.header_seen hf hs
      rw [hdecl]
      dsimp only
      rw [if_neg (not_not_intro rfl)]
      congr 1
      cases a
      simp_all
    · rw [h.header_unseen hf hs]
  · have hlimit : ¬ a.declared.getD Fragment.maxCount < i := by
      cases hd : a.declared with
      | none =>
        show ¬ Fragment.maxCount < i
        omega
      | some n =>
        have hsome := h.declared
        rw [hd, eq_comm, Option.map_eq_some_iff] at hsome
        obtain ⟨_, _, rfl⟩ := hsome
        show ¬ parts.length - 1 < i
        omega
    rw [if_neg (hp.number_ne_zero hf h0), if_neg h0, insertData, hnumber, Int.toNat_natCast,
      if_neg hlimit]

theorem insert_seen (hp : Bundle.Parts layout k buffer parts) (h : Holds parts seen a)
    {f : Fragment} (hf : f ∈ parts) (hseen : f ∈ seen) : a.insert f = (.duplicate, a) := by
  obtain ⟨i, hi⟩ := List.mem_iff_getElem?.mp hf
  have hslot := h.slot_seen hi hseen
  rw [insert_eq hp h hi]
  by_cases h0 : i = 0
  · subst h0
    have hdecl := h.header_seen hi hseen
    have hsame : { a with declared := some (parts.length - 1) } = a := by
      rw [← hdecl]
    rw [if_pos rfl, hsame]
    exact place_taken hslot
  · rw [if_neg h0]
    exact place_taken hslot

theorem countP_mem_cons {f : Fragment} (hnd : parts.Nodup) (hf : f ∈ parts) (hseen : f ∉ seen) :
    parts.countP (· ∈ f :: seen) = parts.countP (· ∈ seen) + 1 := by
  induction parts with
  | nil => cases hf
  | cons g gs ih =>
    obtain ⟨hg, hgs⟩ := List.nodup_cons.mp hnd
    rw [List.countP_cons, List.countP_cons]
    by_cases hfg : f = g
    · subst hfg
      have hrest : gs.countP (· ∈ f :: seen) = gs.countP (· ∈ seen) := by
        apply List.countP_congr
        intro x hx
        have hne : x ≠ f := fun e => hg (e ▸ hx)
        simp [hne]
      rw [hrest]
      simp [hseen]
    · have hmem : f ∈ gs := (List.mem_cons.mp hf).resolve_left hfg
      rw [ih hgs hmem]
      have hne : g ≠ f := Ne.symm hfg
      simp only [List.mem_cons, hne, false_or]
      omega

theorem insert_new (hp : Bundle.Parts layout k buffer parts) (h : Holds parts seen a)
    {f : Fragment} (hf : f ∈ parts) (hseen : f ∉ seen) :
    ∃ b, a.insert f = (.added, b) ∧ Holds parts (f :: seen) b := by
  obtain ⟨i, hi⟩ := List.mem_iff_getElem?.mp hf
  have hilt := (List.getElem?_eq_some_iff.mp hi).1
  rw [insert_eq hp h hi]
  generalize ha' : (if i = 0 then { a with declared := some (parts.length - 1) } else a) = a'
  have hslots : a'.slots = a.slots ∧ a'.present = a.present ∧ a'.complete = a.complete := by
    subst ha'
    split <;> exact ⟨rfl, rfl, rfl⟩
  have hat (j : Nat) : a'.at? j = a.at? j := by rw [at?, at?, hslots.1]
  obtain ⟨b, hplace, hslot, hsize, hpresent, hdeclared, hcomplete⟩ :=
    place_free (f := f) ((hat i).trans (h.slot_unseen hi hseen))
  refine ⟨b, hplace, ?_, ?_, ?_, ?_, ?_⟩
  · intro j
    rw [hslot, hat]
    by_cases hji : j = i
    · subst hji
      rw [if_pos rfl, hi]
      simp [Option.filter]
    · rw [if_neg hji, h.slot]
      cases hj : parts[j]? with
      | none => rfl
      | some g =>
        have hne : g ≠ f := by
          rintro rfl
          exact hji (hp.position_unique hj hi)
        simp [Option.filter, hne]
  · have := h.size_le
    rw [hsize, hslots.1]
    omega
  · rw [hpresent, hslots.2.1, h.present, countP_mem_cons hp.nodup hf hseen]
  · rw [hdeclared, ← ha']
    by_cases h0 : i = 0
    · subst h0
      rw [if_pos rfl, hi]
      simp [Option.filter]
    · rw [if_neg h0, h.declared]
      cases hj : parts[0]? with
      | none => rfl
      | some g =>
        have hne : g ≠ f := by
          rintro rfl
          exact h0 (hp.position_unique hi hj)
        simp [Option.filter, hne]
  · rw [hcomplete, hslots.2.2, h.unfinished]

/-! ## the whole bundle -/

/-- no fragment is missing exactly if all were seen: without the header the count is not known -/
theorem isCollected_iff (hp : Bundle.Parts layout k buffer parts) (h : Holds parts seen a) :
    a.isCollected = true ↔ ∀ f ∈ parts, f ∈ seen := by
  have hlow := hp.two_le
  have hheader : parts[0]? = some parts[0] := List.getElem?_eq_getElem (by omega)
  have hcount : parts.countP (· ∈ seen) ≤ parts.length := List.countP_le_length
  have hall : parts.countP (· ∈ seen) = parts.length ↔ ∀ f ∈ parts, f ∈ seen := by
    rw [List.countP_eq_length]
    simp
  by_cases hs : parts[0] ∈ seen
  · have hmissing : a.missing = some (parts.length - parts.countP (· ∈ seen)) := by
      rw [missing, h.header_seen hheader hs, h.present]
      show some (parts.length - 1 + 1 - _) = _
      rw [Nat.sub_add_cancel (by omega)]
    rw [isCollected, hmissing, ← hall, beq_iff_eq, Option.some.injEq]
    omega
  · have hmissing : a.missing = none := by
      rw [missing, h.header_unseen hheader hs]
      rfl
    rw [isCollected, hmissing]
    constructor
    · intro hfalse
      cases hfalse
    · intro hevery
      exact absurd (hevery _ (List.getElem_mem (by omega))) hs

theorem missing_le (hp : Bundle.Parts layout k buffer parts) (h : Holds parts seen a) :
    a.missing.getD 0 ≤ Fragment.maxCount + 1 := by
  have hhigh := hp.le_max
  cases hd : a.declared with
  | none =>
    rw [missing, hd]
    exact Nat.zero_le _
  | some n =>
    have hsome := h.declared
    rw [hd, eq_comm, Option.map_eq_some_iff] at hsome
    obtain ⟨_, _, rfl⟩ := hsome
    rw [missing, hd]
    show parts.length - 1 + 1 - a.present ≤ _
    have := hp.two_le
    omega

theorem fragments_eq (hp : Bundle.Parts layout k buffer parts) (h : Holds parts seen a)
    (hall : ∀ f ∈ parts, f ∈ seen) : a.fragments = parts := by
  have hlow := hp.two_le
  have hslot (i : Nat) : a.at? i = parts[i]? := by
    rw [h.slot]
    cases hi : parts[i]? with
    | none => rfl
    | some f => simp [Option.filter, hall f (List.mem_of_getElem? hi)]
  have hsize : a.slots.size = parts.length := by
    have hle := h.size_le
    -- the last slot is taken, so there are enough of them
    have hlast := hslot (parts.length - 1)
    rw [List.getElem?_eq_getElem (by omega), at?] at hlast
    have hlt : parts.length - 1 < a.slots.size := by
      rcases Nat.lt_or_ge (parts.length - 1) a.slots.size with hlt | hge
      · exact hlt
      · rw [Array.getElem?_eq_none hge] at hlast
        cases hlast
    omega
  have hlist : a.slots.toList = parts.map some := by
    apply List.ext_getElem?
    intro i
    have hi := hslot i
    rw [at?] at hi
    rw [Array.getElem?_toList, List.getElem?_map]
    rcases Nat.lt_or_ge i parts.length with hlt | hge
    · rw [Array.getElem?_eq_getElem (by omega)] at hi ⊢
      rw [← hi]
      cases hv : a.slots[i] with
      | none =>
        rw [hv, List.getElem?_eq_getElem hlt] at hi
        cases hi
      | some f => rfl
    · rw [Array.getElem?_eq_none (by omega), List.getElem?_eq_none hge]
      rfl
  rw [fragments, hlist, List.filterMap_map]
  exact List.filterMap_some

end Assembly

end BundleLink
