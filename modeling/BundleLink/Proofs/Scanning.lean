import BundleLink.Proofs.Wire

/-!
# What scanning finds stands in the bytes

Whatever the bytes are, well-formed or not, each fragment that is read from them is the one whose
wire form stands there. So the fragments that scanning finds stand in the scanned bytes one behind
the other. It does not matter to them in which parts the bytes come.

* `extract_sound`      one fragment at the front of any bytes;
* `Find`               a fragment and the position where it was found;
* `Find.Stands`        its wire form is there;
* `finds_scan`         all fragments found by one scan;
* `finds_append`       they are the same when the bytes come in two parts.
-/

namespace BundleLink

namespace Wire

/-! ## one fragment -/

/-- what is read from the front of any bytes stands there -/
theorem extract_sound {layout : Layout} {raw : Bytes} {f : Fragment} {n : Nat}
    (h : extract layout raw = .fragment f n) :
    f.Fits layout ∧ n = f.wireLength layout ∧ f.wire layout <+: raw := by
  cases front layout raw with
  | short hshort =>
    rw [extract_short layout hshort] at h
    cases h
  | unmarked hlen hmagic =>
    rw [extract_unmarked layout hlen hmagic] at h
    cases h
  | begun hmagic hlen =>
    rw [extract_begun hmagic hlen] at h
    cases h
  | header g tail hplain =>
    rw [extract_header, extractFields_header hplain] at h
    split at h
    · cases h
    · rename_i size hsize
      split at h
      · rename_i hholds
        obtain ⟨rfl, rfl⟩ := Extraction.fragment.inj h
        have hcount := List.length_take_of_le ((Bytes.holds_iff size tail).mp hholds)
        have hannounced : announced g.number g.length = .ok (tail.take size).length := by
          rw [hcount, hsize]
        have hbytes := bytes_carrying hannounced
        refine ⟨⟨wellFormed_carrying hannounced, hplain⟩, ?_, ?_⟩
        · rw [Fragment.wireLength, hbytes, hcount]
        · rw [Fragment.wire, hbytes]
          exact (List.prefix_append_right_inj _).mpr (List.take_prefix _ _)
      · cases h

/-- what is read from the front of bytes is not longer than they are -/
theorem extract_fragment_le {layout : Layout} {raw : Bytes} {f : Fragment} {n : Nat}
    (h : extract layout raw = .fragment f n) : n ≤ raw.length := by
  obtain ⟨-, hn, hthere⟩ := extract_sound h
  rw [hn, ← Fragment.length_wire]
  exact hthere.length_le

/-! ## malformed bytes -/

theorem findMagic_lt {start n : Nat} {bs : Bytes} (h : findMagic start bs = some n) :
    n < start + bs.length := by
  induction bs generalizing start with
  | nil => cases h
  | cons b bs ih =>
    rw [List.length_cons]
    rw [findMagic] at h
    split at h
    · cases h
      omega
    · have hlt := ih h
      omega

theorem resync_le {raw : Bytes} (h : raw ≠ []) : resync raw ≤ raw.length := by
  have hpos := List.length_pos_iff.mpr h
  rw [resync]
  split
  · rename_i n hfound
    have hlt := findMagic_lt hfound
    rw [List.length_drop] at hlt
    omega
  · omega

/-- Bytes are malformed because no marker is there, or because the header that is there announces
nothing that could follow. -/
theorem malformed_cases {layout : Layout} {raw : Bytes} {flaw : Flaw} {n : Nat}
    (h : extract layout raw = .malformed n flaw) :
    (4 ≤ raw.length ∧ raw.take 4 ≠ magic ∧ n = resync raw ∧ flaw = .badMagic (raw.take 4)) ∨
      ∃ (f : Fragment) (tail : Bytes), (layout = .plain → f.checksum = 0) ∧
        raw = f.wireHeader layout ++ tail ∧ announced f.number f.length = .error flaw ∧
        n = layout.headerLength := by
  cases front layout raw with
  | short hshort =>
    rw [extract_short layout hshort] at h
    cases h
  | unmarked hlen hmagic =>
    rw [extract_unmarked layout hlen hmagic] at h
    cases h
    exact .inl ⟨hlen, hmagic, rfl, rfl⟩
  | begun hmagic hlen =>
    rw [extract_begun hmagic hlen] at h
    cases h
  | header f tail hplain =>
    rw [extract_header, extractFields_header hplain] at h
    split at h
    · rename_i hannounced
      cases h
      exact .inr ⟨f, tail, hplain, rfl, hannounced, rfl⟩
    · split at h <;> cases h

/-- no more bytes are dropped than there are -/
theorem extract_malformed_le {layout : Layout} {raw : Bytes} {flaw : Flaw} {n : Nat}
    (h : extract layout raw = .malformed n flaw) : n ≤ raw.length := by
  rcases malformed_cases h with ⟨hlen, -, rfl, -⟩ | ⟨f, tail, -, rfl, -, rfl⟩
  · exact resync_le (List.length_pos_iff.mp (by omega))
  · rw [List.length_append, Fragment.length_wireHeader]
    omega

/-! ## positions -/

structure Find where
  /-- how many bytes there were in front of it -/
  offset : Nat
  fragment : Fragment
  deriving DecidableEq, Repr

/-- the position behind the wire form -/
def Find.stop (layout : Layout) (x : Find) : Nat := x.offset + x.fragment.wireLength layout

/-- The wire form of the fragment is at that position of the bytes. -/
structure Find.Stands (layout : Layout) (bytes : Bytes) (x : Find) : Prop where
  fits : x.fragment.Fits layout
  there : x.fragment.wire layout <+: bytes.drop x.offset

/-- one ends before the other one starts -/
def Find.Before (layout : Layout) (x y : Find) : Prop := x.stop layout ≤ y.offset

/-- the fragments among pieces, the first of which is at `offset` -/
def finds (offset : Nat) : List Piece → List Find
  | [] => []
  | .skipped n _ :: ps => finds (offset + n) ps
  | .fragment f n :: ps => ⟨offset, f⟩ :: finds (offset + n) ps

theorem map_finds (offset : Nat) (ps : List Piece) :
    (finds offset ps).map Find.fragment = fragments ps := by
  induction ps generalizing offset with
  | nil => rfl
  | cons p ps ih =>
    cases p with
    | skipped size flaw => exact ih (offset + size)
    | fragment f size => exact congrArg (f :: ·) (ih (offset + size))

theorem Find.lt_stop (layout : Layout) (x : Find) : x.offset < x.stop layout := by
  have := headerLength_pos layout
  rw [stop, Fragment.wireLength]
  omega

/-- different fragments are at different positions -/
theorem Find.Before.ne {layout : Layout} {x y : Find} (h : Before layout x y) : x ≠ y := by
  rintro rfl
  have hlt := lt_stop layout x
  rw [Before] at h
  omega

/-- Fragments found in `bytes` from a position on, one behind the other. -/
structure Laid (layout : Layout) (bytes : Bytes) (start : Nat) (xs : List Find) : Prop where
  stands : ∀ x ∈ xs, x.Stands layout bytes
  apart : xs.Pairwise (Find.Before layout)
  start_le : ∀ x ∈ xs, start ≤ x.offset

namespace Laid

variable {layout : Layout} {bytes : Bytes} {start : Nat} {x : Find} {xs : List Find}

theorem nil (layout : Layout) (bytes : Bytes) (start : Nat) : Laid layout bytes start [] :=
  ⟨fun _ hx => absurd hx List.not_mem_nil, .nil, fun _ hx => absurd hx List.not_mem_nil⟩

theorem cons (h : Laid layout bytes (x.stop layout) xs) (hx : x.Stands layout bytes) :
    Laid layout bytes x.offset (x :: xs) := by
  refine ⟨?_, List.pairwise_cons.mpr ⟨h.start_le, h.apart⟩, ?_⟩
  · intro y hy
    exact (List.mem_cons.mp hy).elim (fun he => he ▸ hx) (h.stands y)
  · intro y hy
    rcases List.mem_cons.mp hy with rfl | hy
    · exact Nat.le_refl _
    · exact Nat.le_trans (Nat.le_of_lt (Find.lt_stop layout x)) (h.start_le y hy)

end Laid

theorem scan_fragment {layout : Layout} {raw : Bytes} {f : Fragment} {n : Nat}
    (h : extract layout raw = .fragment f n) :
    scan layout raw = (.fragment f n :: (scan layout (raw.drop n)).1,
      (scan layout (raw.drop n)).2) := by
  have hne : raw ≠ [] := by
    rintro rfl
    cases h
  rw [scan, scanFrom_fragment [] hne h, scanFrom_acc]
  rfl

theorem scan_malformed {layout : Layout} {raw : Bytes} {flaw : Flaw} {n : Nat}
    (h : extract layout raw = .malformed n flaw) :
    scan layout raw = (.skipped n flaw :: (scan layout (raw.drop n)).1,
      (scan layout (raw.drop n)).2) := by
  have hne : raw ≠ [] := by
    rintro rfl
    cases h
  rw [scan, scanFrom_malformed [] hne h, scanFrom_acc]
  rfl

/-- Scanning bytes that stand behind `front` finds fragments that stand there one behind the
other. -/
theorem finds_scan (layout : Layout) (front raw : Bytes) :
    Laid layout (front ++ raw) front.length (finds front.length (scan layout raw).1) := by
  induction h : raw.length using Nat.strongRecOn generalizing front raw with
  | ind m ih =>
    subst h
    by_cases hne : raw = []
    · subst hne
      rw [scan_nil]
      exact .nil _ _ _
    · have hlen := List.length_pos_iff.mpr hne
      -- the pieces behind the first `n` bytes, seen from the start
      have hlater {n : Nat} (hpos : 0 < n) (hn : n ≤ raw.length) :
          Laid layout (front ++ raw) (front.length + n)
            (finds (front.length + n) (scan layout (raw.drop n)).1) := by
        have hrest := ih (raw.drop n).length (by rw [List.length_drop]; omega)
          (front ++ raw.take n) (raw.drop n) rfl
        rwa [List.append_assoc, List.take_append_drop, List.length_append,
          List.length_take_of_le hn] at hrest
      cases he : extract layout raw with
      | incomplete =>
        rw [scan_incomplete he]
        exact .nil _ _ _
      | malformed n flaw =>
        have hlaid := hlater (extract_malformed_pos he) (extract_malformed_le he)
        rw [scan_malformed he]
        refine ⟨hlaid.stands, hlaid.apart, fun x hx => ?_⟩
        exact Nat.le_trans (Nat.le_add_right _ _) (hlaid.start_le x hx)
      | fragment f n =>
        obtain ⟨hfits, hn, hthere⟩ := extract_sound he
        have hlaid := hlater (extract_fragment_pos he) (extract_fragment_le he)
        rw [hn] at hlaid
        rw [scan_fragment he, hn]
        refine Laid.cons (x := ⟨front.length, f⟩) hlaid ⟨hfits, ?_⟩
        rw [List.drop_left]
        exact hthere

/-! ## the next marker -/

/-- a magic marker stands at that position -/
def Marked (bs : Bytes) (i : Nat) : Prop := magic <+: bs.drop i

theorem Marked.le {bs : Bytes} {i : Nat} (h : Marked bs i) : i + 4 ≤ bs.length := by
  have hle := h.length_le
  rw [List.length_drop] at hle
  replace hle : 4 ≤ bs.length - i := hle
  omega

theorem marked_drop {bs : Bytes} {i j : Nat} : Marked (bs.drop i) j ↔ Marked bs (i + j) := by
  rw [Marked, Marked, List.drop_drop]

/-- more bytes behind do not matter to a marker that is there completely -/
theorem marked_append {bs : Bytes} {i : Nat} (hi : i + 4 ≤ bs.length) (more : Bytes) :
    Marked (bs ++ more) i ↔ Marked bs i := by
  have hfour : magic.length ≤ (bs.drop i).length := by
    rw [List.length_drop]
    show 4 ≤ _
    omega
  rw [Marked, Marked, List.drop_append_of_le_length (by omega), List.prefix_iff_eq_take,
    List.prefix_iff_eq_take, List.take_append_of_le_length hfour]

theorem marked_zero {bs : Bytes} : Marked bs 0 ↔ bs.take 4 = magic := by
  rw [Marked, List.drop_zero, List.prefix_iff_eq_take, eq_comm]
  rfl

theorem findMagic_some {start n : Nat} {bs : Bytes} (h : findMagic start bs = some n) :
    ∃ i, n = start + i ∧ Marked bs i ∧ ∀ j, j < i → ¬ Marked bs j := by
  induction bs generalizing start with
  | nil => cases h
  | cons b bs ih =>
    rw [findMagic] at h
    split at h
    · rename_i hfront
      cases h
      exact ⟨0, rfl, List.isPrefixOf_iff_prefix.mp hfront,
        fun j hj => absurd hj (Nat.not_lt_zero j)⟩
    · rename_i hfront
      obtain ⟨i, rfl, hi, hfirst⟩ := ih h
      refine ⟨i + 1, by omega, hi, fun j hj => ?_⟩
      cases j with
      | zero => exact fun hmarked => hfront (List.isPrefixOf_iff_prefix.mpr hmarked)
      | succ j => exact hfirst j (Nat.lt_of_succ_lt_succ hj)

theorem findMagic_none {start : Nat} {bs : Bytes} (h : findMagic start bs = none) (i : Nat) :
    ¬ Marked bs i := by
  induction bs generalizing start i with
  | nil => exact fun hmarked => absurd hmarked.le (by simp)
  | cons b bs ih =>
    rw [findMagic] at h
    split at h
    · cases h
    · rename_i hfront
      cases i with
      | zero => exact fun hmarked => hfront (List.isPrefixOf_iff_prefix.mpr hmarked)
      | succ i => exact ih h i

/-- Where reading goes on after `raw` turned out not to begin with a marker: at the next marker, or
where too few bytes are left to tell. -/
structure Resumes (raw : Bytes) (n : Nat) : Prop where
  pos : 0 < n
  le : n + 3 ≤ raw.length
  skipped : ∀ i, 0 < i → i < n → ¬ Marked raw i
  here : Marked raw n ∨ n + 3 = raw.length

theorem resumes_resync (raw : Bytes) (h : 4 ≤ raw.length) : Resumes raw (resync raw) := by
  rw [resync]
  split
  · rename_i n hfound
    obtain ⟨i, rfl, hmarked, hfirst⟩ := findMagic_some hfound
    rw [marked_drop] at hmarked
    have hle := hmarked.le
    refine ⟨by omega, by omega, fun j hpos hj hj' => ?_, .inl hmarked⟩
    refine hfirst (j - 1) (by omega) (marked_drop.mpr ?_)
    rwa [Nat.add_sub_cancel' hpos]
  · rename_i hnone
    have hmax : max (raw.length - 3) 1 = raw.length - 3 := by omega
    rw [hmax]
    refine ⟨by omega, by omega, fun j hpos _ hj => ?_, .inr (by omega)⟩
    refine findMagic_none hnone (j - 1) (marked_drop.mpr ?_)
    rwa [Nat.add_sub_cancel' hpos]

theorem Resumes.unique {raw : Bytes} {m n : Nat} (hm : Resumes raw m) (hn : Resumes raw n) :
    m = n := by
  rcases Nat.lt_trichotomy m n with hlt | heq | hlt
  · rcases hm.here with hmarked | hend
    · exact absurd hmarked (hn.skipped m hm.pos hlt)
    · have := hn.le
      omega
  · exact heq
  · rcases hn.here with hmarked | hend
    · exact absurd hmarked (hm.skipped n hn.pos hlt)
    · have := hm.le
      omega

theorem Resumes.drop {raw : Bytes} {n j : Nat} (h : Resumes raw n) (hj : j < n) :
    Resumes (raw.drop j) (n - j) := by
  have hle := h.le
  refine ⟨by omega, by rw [List.length_drop]; omega, fun i hpos hi hmarked => ?_, ?_⟩
  · exact h.skipped (j + i) (by omega) (by omega) (marked_drop.mp hmarked)
  · rcases h.here with hmarked | hend
    · left
      rw [marked_drop, Nat.add_sub_cancel' (Nat.le_of_lt hj)]
      exact hmarked
    · right
      rw [List.length_drop]
      omega

/-- what is dropped of bytes that do not begin with a marker -/
theorem resumes_of_malformed {layout : Layout} {raw : Bytes} {n : Nat} {flaw : Flaw}
    (h : extract layout raw = .malformed n flaw) (hmarked : ¬ Marked raw 0) : Resumes raw n := by
  rcases malformed_cases h with ⟨hlen, -, rfl, -⟩ | ⟨f, tail, -, rfl, -, -⟩
  · exact resumes_resync raw hlen
  · exact absurd (marked_zero.mpr (take_wireHeader layout f tail)) hmarked

/-- Bytes in front of which no marker stands can as well be dropped before the scan. -/
theorem finds_skip {j : Nat} (layout : Layout) (offset : Nat) (raw : Bytes)
    (hj : j + 3 ≤ raw.length) (hno : ∀ i, i < j → ¬ Marked raw i) :
    finds offset (scan layout raw).1 = finds (offset + j) (scan layout (raw.drop j)).1 ∧
      (scan layout raw).2 = (scan layout (raw.drop j)).2 := by
  rcases Nat.eq_zero_or_pos j with rfl | hpos
  · exact ⟨rfl, rfl⟩
  · have hresumes := resumes_resync raw (by omega)
    have hle := hresumes.le
    rw [scan_malformed (extract_unmarked layout (by omega) (mt marked_zero.mpr (hno 0 hpos)))]
    generalize resync raw = n at hresumes hle
    rcases Nat.lt_trichotomy n j with hlt | rfl | hlt
    · rcases hresumes.here with hmarked | hend
      · exact absurd hmarked (hno n hlt)
      · omega
    · exact ⟨rfl, rfl⟩
    · have hdrop := hresumes.drop hlt
      have hunmarked : ¬ Marked (raw.drop j) 0 := by
        rw [marked_drop]
        exact hresumes.skipped j hpos hlt
      have hlong : 4 ≤ (raw.drop j).length := by rw [List.length_drop]; omega
      rw [scan_malformed (extract_unmarked layout hlong (mt marked_zero.mpr hunmarked)),
        (resumes_resync _ hlong).unique hdrop, List.drop_drop,
        Nat.add_sub_cancel' (Nat.le_of_lt hlt), finds, finds, Nat.add_assoc,
        Nat.add_sub_cancel' (Nat.le_of_lt hlt)]
      exact ⟨rfl, rfl⟩

/-! ## chunks -/

/-- malformed bytes that begin with a marker are malformed whatever follows -/
theorem extract_malformed_append {layout : Layout} {raw : Bytes} {n : Nat} {flaw : Flaw}
    (hmarked : Marked raw 0) (h : extract layout raw = .malformed n flaw) (more : Bytes) :
    extract layout (raw ++ more) = .malformed n flaw := by
  rcases malformed_cases h with ⟨-, hmagic, -, -⟩ | ⟨f, tail, hplain, rfl, hannounced, rfl⟩
  · exact absurd (marked_zero.mp hmarked) hmagic
  · rw [List.append_assoc, extract_header, extractFields_header hplain, hannounced]

/-- Scanning bytes at once finds the same fragments as scanning first a part of them, and then what
that left over together with the others. -/
theorem finds_append (layout : Layout) (offset : Nat) (raw more : Bytes) :
    finds offset (scan layout (raw ++ more)).1 =
        finds offset (scan layout raw).1 ++
          finds (offset + raw.length - (scan layout raw).2.length)
            (scan layout ((scan layout raw).2 ++ more)).1 ∧
      (scan layout (raw ++ more)).2 = (scan layout ((scan layout raw).2 ++ more)).2 := by
  induction h : raw.length using Nat.strongRecOn generalizing offset raw with
  | ind m ih =>
    subst h
    -- after `n` bytes that both scans take off, the claim is that for the rest
    have hlater {n : Nat} (hpos : 0 < n) (hn : n ≤ raw.length) := by
      have hrest := ih (raw.drop n).length (by rw [List.length_drop]; omega) (offset + n)
        (raw.drop n) rfl
      rwa [List.length_drop,
        show offset + n + (raw.length - n) = offset + raw.length by omega] at hrest
    cases he : extract layout raw with
    | incomplete =>
      rw [scan_incomplete he]
      refine ⟨?_, rfl⟩
      rw [Nat.add_sub_cancel]
      rfl
    | fragment f n =>
      obtain ⟨hfits, hn, hthere⟩ := extract_sound he
      have hle := extract_fragment_le he
      have hmore : extract layout (raw ++ more) = .fragment f n := by
        obtain ⟨tail, rfl⟩ := hthere
        rw [List.append_assoc, extract_wire hfits, hn]
      obtain ⟨hfinds, hrest⟩ := hlater (extract_fragment_pos he) hle
      rw [scan_fragment he, scan_fragment hmore, List.drop_append_of_le_length hle]
      exact ⟨congrArg (_ :: ·) hfinds, hrest⟩
    | malformed n flaw =>
      have hle := extract_malformed_le he
      obtain ⟨hfinds, hrest⟩ := hlater (extract_malformed_pos he) hle
      rw [scan_malformed he]
      by_cases hmarked : Marked raw 0
      · rw [scan_malformed (extract_malformed_append hmarked he more),
          List.drop_append_of_le_length hle]
        exact ⟨hfinds, hrest⟩
      · -- the next marker may be behind the bytes that are there, but it is not in front of them
        have hresumes := resumes_of_malformed he hmarked
        have hend := hresumes.le
        obtain ⟨hskip, hskip'⟩ := finds_skip (j := n) layout offset (raw ++ more)
          (by rw [List.length_append]; omega) fun i hi hi' => by
            rw [marked_append (by omega)] at hi'
            rcases Nat.eq_zero_or_pos i with rfl | hpos
            · exact hmarked hi'
            · exact hresumes.skipped i hpos hi hi'
        rw [hskip, hskip', List.drop_append_of_le_length hle]
        exact ⟨hfinds, hrest⟩

/-- where no fragment is found, none is found in the rest either -/
theorem fragments_rest {layout : Layout} {raw : Bytes} (h : fragments (scan layout raw).1 = []) :
    fragments (scan layout (scan layout raw).2).1 = [] := by
  have hagain := congrArg (List.map Find.fragment) (finds_append layout 0 raw []).1
  rw [List.append_nil, List.append_nil, List.map_append, map_finds, map_finds, h] at hagain
  exact hagain.symm

end Wire

end BundleLink
