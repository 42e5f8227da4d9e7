import BundleLink.Proofs.Acceptance
import BundleLink.Proofs.Filling

/-!
# What is collected can be joined

Fragments of one bundle are inserted into a new assembly until one of them is refused or nothing is
missing any more. The assembly counts the slots that are taken and compares with what the header
declares; joining sorts the fragments and looks at their numbers. Both ask for the same: a header,
and a data fragment with each of the numbers up to the one that it declares. So of what is collected
nothing is refused later but for checksums.

* `takeIn`          the fragments that are taken in, and the assembly after them;
* `Comprises`       these fragments are a whole bundle, some perhaps more than once;
* `Gathered`        each slot holds the first fragment with its number;
* `Gathered.insert` one more fragment, and `gathered_takeIn` any number of them;
* `collected_iff`   nothing is missing exactly if all slots are taken;
* `takeIn_exact`    what is collected, what it is released as, and how joining it ends.
-/

namespace BundleLink

namespace Assembly

/-- Inserts fragments until one is refused, or until all are there. The fragments that were taken
in, be they new or not, and the assembly after them. -/
def takeIn (a : Assembly) : List Fragment → List Fragment × Assembly
  | [] => ([], a)
  | f :: fs =>
    if a.isCollected then ([], a)
    else
      match a.insert f with
      | (.invalid _, b) => ([], b)
      | (.added, b) | (.duplicate, b) => (f :: (takeIn b fs).1, (takeIn b fs).2)

/-- a header that declares `n` fragments, data fragments with all the numbers up to `n`, and no
others -/
structure Comprises (n : Nat) (fs : List Fragment) : Prop where
  header : ∃ f ∈ fs, f.number = 0 ∧ f.length.toInt = n
  data : ∀ i : Nat, 1 ≤ i → i ≤ n → ∃ f ∈ fs, f.number.toInt = i
  within : ∀ f ∈ fs, 0 ≤ f.number.toInt ∧ f.number.toInt ≤ n

/-- the first of some fragments with a number -/
def firstWith (i : Nat) (fs : List Fragment) : Option Fragment :=
  fs.find? fun f => f.number.toInt == i

variable {k : Key} {a b : Assembly} {f : Fragment} {fs gs : List Fragment} {n : Nat}

theorem firstWith_isSome {i : Nat} :
    (∃ f, firstWith i fs = some f) ↔ ∃ f ∈ fs, f.number.toInt = i := by
  rw [← Option.isSome_iff_exists, firstWith, List.find?_isSome]
  simp only [beq_iff_eq]

/-- one fragment more matters to its own number only, and only if there was none with it -/
theorem firstWith_concat (i : Nat) (fs : List Fragment) (f : Fragment) :
    firstWith i (fs ++ [f]) =
      (firstWith i fs).or (if f.number.toInt = i then some f else none) := by
  rw [firstWith, List.find?_append, firstWith, List.find?_singleton]
  simp only [beq_iff_eq]

/-! ## fragment by fragment -/

/-- The assembly after fragments with that key were taken in. -/
structure Gathered (k : Key) (gs : List Fragment) (a : Assembly) : Prop where
  filled : Filled k a
  slot : ∀ i, a.at? i = firstWith i gs
  nonneg : ∀ f ∈ gs, 0 ≤ f.number.toInt
  /-- all headers declare the same -/
  headers : ∀ f ∈ gs, f.number = 0 → ∃ n, a.declared = some n ∧ f.length.toInt = n

theorem Gathered.empty (k : Key) (now deadline : Moment) : Gathered k [] (empty now deadline) :=
  ⟨Filled.empty k now deadline, fun _ => rfl, nofun, nofun⟩

theorem declared_place {i : Nat} {r : Insertion} (h : place a i f = (r, b)) :
    b.declared = a.declared := by
  rw [place] at h
  split at h <;> cases h <;> rfl

/-- What is known about the count after a fragment that was not refused. -/
theorem declared_insert {r : Insertion} (hr : r = .added ∨ r = .duplicate)
    (hinsert : a.insert f = (r, b)) :
    0 ≤ f.number.toInt ∧ (∀ n, a.declared = some n → b.declared = some n) ∧
      (f.number = 0 → ∃ n, b.declared = some n ∧ f.length.toInt = n) := by
  by_cases hzero : f.number = 0
  · rcases insert_header_cases hzero a with ⟨why, heq⟩ | ⟨n, hn, -, -, hsame, heq⟩
    · rw [heq] at hinsert
      rcases hr with rfl | rfl <;> cases hinsert
    · have hdeclared : b.declared = some n := declared_place (heq ▸ hinsert)
      refine ⟨by rw [hzero]; decide, fun m hm => ?_, fun _ => ⟨n, hdeclared, hn⟩⟩
      rw [hsame m hm, hdeclared]
  · rcases insert_data_cases hzero a with ⟨why, heq⟩ | ⟨i, hi, -, -, heq⟩
    · rw [heq] at hinsert
      rcases hr with rfl | rfl <;> cases hinsert
    · have hdeclared : b.declared = a.declared := declared_place (heq ▸ hinsert)
      exact ⟨by omega, fun m hm => hdeclared.trans hm, fun h0 => absurd h0 hzero⟩

/-- One more fragment that is not refused. -/
theorem Gathered.insert (h : Gathered k gs a) (hkey : f.key = k) {r : Insertion}
    (hr : r = .added ∨ r = .duplicate) (hinsert : a.insert f = (r, b)) :
    Gathered k (gs ++ [f]) b := by
  obtain ⟨hsign, hkeeps, hheader⟩ := declared_insert hr hinsert
  have hnumber (i : Nat) : f.number.toInt = i ↔ i = f.slot := by
    have hslot : (f.slot : Int) = f.number.toInt := Int.toNat_of_nonneg hsign
    omega
  have hnonneg : ∀ g ∈ gs ++ [f], 0 ≤ g.number.toInt := by
    intro g hg
    rcases List.mem_append.mp hg with hg | hg
    · exact h.nonneg g hg
    · rwa [List.mem_singleton.mp hg]
  have hheaders : ∀ g ∈ gs ++ [f], g.number = 0 → ∃ n, b.declared = some n ∧
      g.length.toInt = n := by
    intro g hg hzero
    rcases List.mem_append.mp hg with hg | hg
    · obtain ⟨n, hn, hlength⟩ := h.headers g hg hzero
      exact ⟨n, hkeeps n hn, hlength⟩
    · obtain rfl := List.mem_singleton.mp hg
      exact hheader hzero
  rcases hr with rfl | rfl
  · obtain ⟨hfree, hat, -⟩ := insert_added hinsert
    refine ⟨(h.filled.insert_added hkey hinsert).1, fun i => ?_, hnonneg, hheaders⟩
    rw [hat, firstWith_concat, ← h.slot]
    by_cases hi : i = f.slot
    · rw [if_pos hi, if_pos ((hnumber i).mpr hi), hi, hfree]
      rfl
    · rw [if_neg hi, if_neg (mt (hnumber i).mp hi), Option.or_none]
  · obtain ⟨⟨g, hg⟩, -⟩ := insert_duplicate hinsert
    obtain rfl := h.filled.insert_duplicate hinsert
    refine ⟨h.filled, fun i => ?_, hnonneg, hheaders⟩
    rw [firstWith_concat, ← h.slot]
    by_cases hi : i = f.slot
    · rw [hi, hg]
      rfl
    · rw [if_neg (mt (hnumber i).mp hi), Option.or_none]

/-- What is refused, or there already, changes nothing. -/
theorem Filled.insert_unchanged (h : Filled k a) {r : Insertion} (hinsert : a.insert f = (r, b))
    (hr : r ≠ .added) : b = a := by
  cases r with
  | added => exact absurd rfl hr
  | duplicate => exact h.insert_duplicate hinsert
  | invalid why =>
    rcases insert_cases a f with ⟨_, heq⟩ | ⟨declared, heq⟩
    · rw [heq] at hinsert
      exact (congrArg Prod.snd hinsert).symm
    · rcases place_cases { a with declared := declared } f.slot f with
        ⟨c, hplace, -⟩ | ⟨g, hplace, -⟩
      all_goals
        rw [heq, hplace] at hinsert
        cases hinsert

/-- Why no more of the fragments `fs` than `gs` were taken in: there are no more, or the bundle is
whole, or the next one is refused. -/
def Ends (fs gs : List Fragment) (a : Assembly) : Prop :=
  gs = fs ∨ a.isCollected = true ∨
    ∃ f rest why, fs = gs ++ f :: rest ∧ a.insert f = (.invalid why, a)

theorem Ends.cons (h : Ends fs gs a) (f : Fragment) : Ends (f :: fs) (f :: gs) a := by
  rcases h with rfl | hcollected | ⟨g, rest, why, rfl, hrefused⟩
  · exact .inl rfl
  · exact .inr (.inl hcollected)
  · exact .inr (.inr ⟨g, rest, why, rfl, hrefused⟩)

theorem gathered_takeIn (h : Gathered k gs a) (hkeys : ∀ f ∈ fs, f.key = k) :
    Gathered k (gs ++ (takeIn a fs).1) (takeIn a fs).2 ∧ (takeIn a fs).1 <+: fs ∧
      Ends fs (takeIn a fs).1 (takeIn a fs).2 := by
  induction fs generalizing a gs with
  | nil =>
    rw [takeIn, List.append_nil]
    exact ⟨h, List.nil_prefix, .inl rfl⟩
  | cons f fs ih =>
    have hkey := hkeys f List.mem_cons_self
    have hmore {r : Insertion} {b : Assembly} (hr : r = .added ∨ r = .duplicate)
        (hinsert : a.insert f = (r, b)) :
        Gathered k (gs ++ f :: (takeIn b fs).1) (takeIn b fs).2 ∧
          f :: (takeIn b fs).1 <+: f :: fs ∧
          Ends (f :: fs) (f :: (takeIn b fs).1) (takeIn b fs).2 := by
      obtain ⟨hlater, hpre, hends⟩ := ih (h.insert hkey hr hinsert)
        fun g hg => hkeys g (List.mem_cons_of_mem f hg)
      rw [List.append_assoc] at hlater
      exact ⟨hlater, List.cons_prefix_cons.mpr ⟨rfl, hpre⟩, hends.cons f⟩
    rw [takeIn]
    split
    · rename_i hcollected
      rw [List.append_nil]
      exact ⟨h, List.nil_prefix, .inr (.inl hcollected)⟩
    · split
      · rename_i why b hinsert
        obtain rfl := h.filled.insert_unchanged hinsert (by rintro ⟨⟩)
        rw [List.append_nil]
        exact ⟨h, List.nil_prefix, .inr (.inr ⟨f, fs, why, rfl, hinsert⟩)⟩
      · rename_i b hinsert
        exact hmore (.inl rfl) hinsert
      · rename_i b hinsert
        exact hmore (.inr rfl) hinsert

/-! ## nothing is missing -/

/-- as many slots are taken as the header asks for, and so all of them -/
theorem Filled.full (h : Filled k a) (hn : a.declared = some n)
    (hcollected : a.isCollected = true) :
    a.slots.size = n + 1 ∧ ∀ o ∈ a.slots, o.isSome = true := by
  have hmany : n + 1 ≤ a.present := by
    rw [isCollected, missing, hn, Option.map_some, beq_iff_eq, Option.some.injEq] at hcollected
    omega
  have hsize := (h.declared n hn).2
  have hpresent := h.present
  have hcount : a.slots.countP Option.isSome ≤ a.slots.size := Array.countP_le_size
  exact ⟨by omega, Array.countP_eq_size.mp (by omega)⟩

/-- Nothing is missing exactly if there is a header and all slots that it asks for are taken. -/
theorem collected_iff (h : Filled k a) : a.isCollected = true ↔
    ∃ n, a.declared = some n ∧ ∀ i, i ≤ n → ∃ f, a.at? i = some f := by
  constructor
  · intro hcollected
    cases hn : a.declared with
    | none =>
      rw [isCollected, missing, hn] at hcollected
      cases hcollected
    | some n =>
      obtain ⟨hsize, hall⟩ := h.full hn hcollected
      refine ⟨n, rfl, fun i hi => ?_⟩
      have hlt : i < a.slots.size := by omega
      rw [at?, Array.getElem?_eq_getElem hlt, Option.join_some]
      exact Option.isSome_iff_exists.mp (hall _ (Array.getElem_mem hlt))
  · rintro ⟨n, hn, htaken⟩
    rw [← Bool.not_eq_false]
    intro hmissing
    obtain ⟨i, hi, hfree⟩ := h.exists_free hn hmissing
    obtain ⟨f, hf⟩ := htaken i hi
    rw [hfree] at hf
    cases hf

theorem Gathered.comprises_iff (h : Gathered k gs a) :
    Comprises n gs ↔ a.declared = some n ∧ a.isCollected = true := by
  constructor
  · intro hgs
    obtain ⟨f, hf, hzero, hlength⟩ := hgs.header
    obtain ⟨m, hm, hlength'⟩ := h.headers f hf hzero
    obtain rfl : m = n := Int.ofNat.inj (hlength'.symm.trans hlength)
    refine ⟨hm, (collected_iff h.filled).mpr ⟨m, hm, fun i hi => ?_⟩⟩
    rw [h.slot, firstWith_isSome]
    rcases Nat.eq_zero_or_pos i with rfl | hpos
    · exact ⟨f, hf, by rw [hzero]; rfl⟩
    · exact hgs.data i hpos hi
  · rintro ⟨hn, hcollected⟩
    obtain ⟨m, hm, htaken⟩ := (collected_iff h.filled).mp hcollected
    obtain rfl := Option.some.inj (hn.symm.trans hm)
    have htaken (i : Nat) (hi : i ≤ n) : ∃ f ∈ gs, f.number.toInt = i := by
      have hslot := htaken i hi
      rwa [h.slot, firstWith_isSome] at hslot
    refine ⟨?_, fun i _ hi => htaken i hi, fun f hf => ⟨h.nonneg f hf, ?_⟩⟩
    · obtain ⟨f, hf, hnumber⟩ := htaken 0 (Nat.zero_le n)
      have hzero : f.number = 0 := Int32.toInt_inj.mp (hnumber.trans Int32.toInt_zero.symm)
      obtain ⟨m, hm, hlength⟩ := h.headers f hf hzero
      obtain rfl := Option.some.inj (hn.symm.trans hm)
      exact ⟨f, hf, hzero, hlength⟩
    · -- its number is that of a slot
      have hslot := Int.toNat_of_nonneg (h.nonneg f hf)
      obtain ⟨g, hg⟩ := firstWith_isSome.mpr ⟨f, hf, hslot.symm⟩
      rw [← h.slot, at?] at hg
      have hsize := (h.filled.declared n hn).2
      rcases Nat.lt_or_ge f.number.toInt.toNat a.slots.size with hlt | hge
      · omega
      · rw [Array.getElem?_eq_none hge] at hg
        cases hg

theorem map_some_filterMap {α : Type} {os : List (Option α)} (h : ∀ o ∈ os, o.isSome = true) :
    (os.filterMap id).map some = os := by
  induction os with
  | nil => rfl
  | cons o os ih =>
    obtain ⟨x, rfl⟩ := Option.isSome_iff_exists.mp (h o List.mem_cons_self)
    exact congrArg (some x :: ·) (ih fun p hp => h p (List.mem_cons_of_mem _ hp))

/-- the fragments of a bundle that is whole, one for each number -/
theorem Gathered.released (h : Gathered k gs a) (hn : a.declared = some n)
    (hcollected : a.isCollected = true) :
    a.release.1.map some = (List.range (n + 1)).map fun i => firstWith i gs := by
  obtain ⟨hsize, hall⟩ := h.filled.full hn hcollected
  rw [fragments_release, fragments,
    map_some_filterMap fun o ho => hall o (Array.mem_toList_iff.mp ho)]
  apply List.ext_getElem?
  intro i
  rw [List.getElem?_map, ← Array.getElem?_toList.symm]
  rcases Nat.lt_or_ge i (n + 1) with hlt | hge
  · have hslot := h.slot i
    rw [at?, Array.getElem?_eq_getElem (by omega), Option.join_some] at hslot
    rw [Array.getElem?_eq_getElem (by omega), List.getElem?_range hlt, Option.map_some, hslot]
  · rw [Array.getElem?_eq_none (by omega), List.getElem?_eq_none (by rw [List.length_range]; omega)]
    rfl

/-! ## joining what was released -/

/-- Released fragments are header and data of a bundle, if checksums are not looked at. -/
theorem Gathered.sound (h : Gathered k gs a) (hwell : ∀ f ∈ gs, f.WellFormed)
    (hcollected : a.isCollected = true) :
    ∃ header data, a.release.1 = header :: data ∧ Bundle.Sound .plain header data := by
  obtain ⟨n, hn, -⟩ := (collected_iff h.filled).mp hcollected
  have hreleased := h.released hn hcollected
  have hlength := congrArg List.length hreleased
  rw [List.length_map, List.length_map, List.length_range] at hlength
  have hat (i : Nat) (f : Fragment) (hf : a.release.1[i]? = some f) : firstWith i gs = some f := by
    have hi := (List.getElem?_eq_some_iff.mp hf).1
    have hget := congrArg (·[i]?) hreleased
    rw [List.getElem?_map, List.getElem?_map, List.getElem?_range (by omega), hf] at hget
    exact (Option.some.inj hget).symm
  cases hlist : a.release.1 with
  | nil =>
    rw [hlist] at hlength
    cases hlength
  | cons header data =>
    rw [hlist] at hat hlength
    have hcount : data.length = n := Nat.succ.inj hlength
    have hkey (i : Nat) (f : Fragment) (hf : (header :: data)[i]? = some f) :
        f.key = k ∧ f.number.toInt = i :=
      h.filled.slot i f ((h.slot i).trans (hat i f hf))
    have hmem := List.mem_of_find?_eq_some (hat 0 header rfl)
    have hzero : header.number = 0 :=
      Int32.toInt_inj.mp ((hkey 0 header rfl).2.trans Int32.toInt_zero.symm)
    obtain ⟨m, hm, hdeclares⟩ := h.headers header hmem hzero
    obtain rfl := Option.some.inj (hn.symm.trans hm)
    refine ⟨header, data, rfl, hzero, (Wire.bytes_of_zero header (hwell header hmem) hzero).1, ?_,
      ?_, fun i f hf => ?_, fun f hf => ?_, nofun, nofun⟩
    · rw [hdeclares, hcount]
    · have hlow := (h.filled.declared n hn).1
      exact List.length_pos_iff.mp (by omega)
    · exact (hkey (i + 1) f hf).2
    · obtain ⟨i, hi⟩ := List.mem_iff_getElem?.mp hf
      exact congrArg Key.message ((hkey (i + 1) f hi).1.trans (hkey 0 header rfl).1.symm)

end Assembly

namespace Bundle

variable {fs data : List Fragment} {header : Fragment}

theorem verifyData_mismatch {sum : UInt64} {v : BundleError} (h : verifyData sum fs = .error v) :
    ∃ number carried actual, v = .checksumMismatch number carried actual := by
  induction fs generalizing sum with
  | nil => cases h
  | cons f fs ih =>
    rw [verifyData] at h
    split at h
    · exact ih h
    · cases h
      exact ⟨_, _, _, rfl⟩

/-- Only the checksums can keep fragments of a bundle from being joined. -/
theorem Sound.join_or_mismatch (h : Sound .plain header data) :
    Bundle.join .checksummed (header :: data) = .ok (payloads (header :: data)) ∨
      ∃ number carried actual, Bundle.join .checksummed (header :: data) =
        .error (.error (.checksumMismatch number carried actual)) := by
  rw [join_eq, h.sorted_eq (List.Perm.refl _), h.checkShape, verify_checksummed]
  cases hdata : verifyData 0 data with
  | error v =>
    obtain ⟨number, carried, actual, rfl⟩ := verifyData_mismatch hdata
    exact .inr ⟨number, carried, actual, rfl⟩
  | ok sum =>
    dsimp only
    by_cases hsum : sum = header.checksum
    · rw [if_pos hsum]
      exact .inl rfl
    · rw [if_neg hsum]
      exact .inr ⟨_, _, _, rfl⟩

theorem Sound.join_plain (h : Sound .plain header data) :
    Bundle.join .plain (header :: data) = .ok (payloads (header :: data)) := by
  rw [join_eq, h.sorted_eq (List.Perm.refl _), h.checkShape]
  rfl

end Bundle

namespace Assembly

/-- Fragments are taken in until one is refused or all are there, which is the case exactly if those
that were taken in are a whole bundle. The assembly then releases the first one with each number, in
the order of the numbers, and these are joined unless a checksum is wrong. A fragment that is not
added changes nothing. -/
theorem takeIn_exact {k : Key} (now deadline : Moment) {fs : List Fragment}
    (hfs : ∀ f ∈ fs, f.key = k ∧ f.WellFormed) :
    let r := takeIn (empty now deadline) fs
    r.1 <+: fs ∧ Ends fs r.1 r.2 ∧
      (r.2.isCollected = true ↔ ∃ n, Comprises n r.1) ∧
      (∀ n, Comprises n r.1 →
        r.2.release.1.map some = (List.range (n + 1)).map fun i => firstWith i r.1) ∧
      (r.2.isCollected = true →
        Bundle.join .plain r.2.release.1 = .ok (Bundle.payloads r.2.release.1) ∧
        (Bundle.join .checksummed r.2.release.1 = .ok (Bundle.payloads r.2.release.1) ∨
          ∃ number carried actual, Bundle.join .checksummed r.2.release.1 =
            .error (.error (.checksumMismatch number carried actual)))) ∧
      ∀ f why b, r.2.insert f = (why, b) → why ≠ .added → b = r.2 := by
  intro r
  obtain ⟨hgathered, hpre, hends⟩ :=
    gathered_takeIn (Gathered.empty k now deadline) fun f hf => (hfs f hf).1
  rw [List.nil_append] at hgathered
  have hwell : ∀ f ∈ r.1, f.WellFormed := fun f hf => (hfs f (hpre.subset hf)).2
  refine ⟨hpre, hends, ⟨fun hcollected => ?_, ?_⟩, fun n hn => ?_, fun hcollected => ?_, ?_⟩
  · obtain ⟨n, hn, -⟩ := (collected_iff hgathered.filled).mp hcollected
    exact ⟨n, hgathered.comprises_iff.mpr ⟨hn, hcollected⟩⟩
  · rintro ⟨n, hn⟩
    exact (hgathered.comprises_iff.mp hn).2
  · obtain ⟨hdeclared, hcollected⟩ := hgathered.comprises_iff.mp hn
    exact hgathered.released hdeclared hcollected
  · obtain ⟨header, data, hreleased, hsound⟩ := hgathered.sound hwell hcollected
    rw [hreleased]
    exact ⟨hsound.join_plain, hsound.join_or_mismatch⟩
  · intro f why b hinsert hadded
    exact hgathered.filled.insert_unchanged hinsert hadded

/-- The header comes late and again, and the second part twice with different bytes. -/
theorem takeIn_exact_late :
    let part (i : Int32) (b : UInt8) : Fragment := ⟨1, 2, i, 1, 0, some [b]⟩
    let header : Fragment := ⟨1, 2, 0, 2, 0, none⟩
    let fs := [part 2 5, header, part 2 6, header, part 1 7, part 1 8]
    let r := takeIn (empty ⟨0⟩ ⟨0⟩) fs
    r.1 = [part 2 5, header, part 2 6, header, part 1 7] ∧ (∃ n, Comprises n r.1) ∧
      r.2.release.1 = [header, part 1 7, part 2 5] ∧
      Bundle.join .plain r.2.release.1 = .ok [7, 5] := by
  intro part header fs r
  have hfs : ∀ f ∈ fs, f.key = ⟨1, 2⟩ ∧ f.WellFormed := by decide
  obtain ⟨-, -, hiff, -, hjoin, -⟩ := takeIn_exact ⟨0⟩ ⟨0⟩ hfs
  have hcollected : r.2.isCollected = true := by decide +kernel
  have hreleased : r.2.release.1 = [header, part 1 7, part 2 5] := by decide +kernel
  have hjoined := (hjoin hcollected).1
  refine ⟨by decide +kernel, hiff.mp hcollected, hreleased, ?_⟩
  rw [hreleased] at hjoined ⊢
  exact hjoined

end Assembly

end BundleLink
