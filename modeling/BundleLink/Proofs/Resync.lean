import BundleLink.Proofs.Chunking

/-!
# Fragments behind garbage

Between the wire forms of fragments, in front of the first and behind the last, there may be bytes
of any kind as long as there is no magic marker among them. They may end like the beginning of a
marker. No marker begins in them all the same, since the marker cannot overlap with itself. So the
next marker is the one of the next wire form, garbage is dropped up to there, and every fragment is
read. What may be the beginning of a marker is left only behind the last fragment.

The fragments themselves may have the marker in any of their fields.

* `not_marked_gap`  no marker begins in front of a wire form;
* `scan_gap`        bytes in front of a wire form are dropped at once;
* `scan_tail`       of the last ones three are left;
* `strewn`          wire forms with garbage around them;
* `waste`           the bytes that are dropped from raw bytes;
* `scan_strewn`     all fragments, and all garbage but the last three bytes.
-/

namespace BundleLink.Wire

/-! ## no marker in front of a marker -/

theorem Marked.occurs {bs : Bytes} {i : Nat} (h : Marked bs i) : magic <:+: bs :=
  h.isInfix.trans (List.drop_suffix i bs).isInfix

/-- the last bytes of the marker are not its first ones -/
theorem magic_apart : ∀ n < 4, 0 < n → magic.drop n ≠ magic.take (4 - n) := by decide

/-- In front of a marker no marker begins, unless it ends there too. -/
theorem not_marked_gap {gap rest : Bytes} (hgap : ¬ magic <:+: gap) (hrest : Marked rest 0)
    {i : Nat} (hi : i < gap.length) : ¬ Marked (gap ++ rest) i := by
  intro hmarked
  rcases Nat.lt_or_ge gap.length (i + 4) with hover | hwithin
  · -- it would end in the marker behind the gap
    have hfront : magic = ((gap ++ rest).drop i).take 4 := List.prefix_iff_eq_take.mp hmarked
    rw [List.drop_append_of_le_length (Nat.le_of_lt hi)] at hfront
    have hcount : (gap.drop i).length = gap.length - i := List.length_drop
    have hback := congrArg (List.drop (gap.length - i)) hfront
    rw [List.drop_take, ← hcount, List.drop_left, hcount] at hback
    have hthere := congrArg (List.take (4 - (gap.length - i))) (marked_zero.mp hrest)
    rw [List.take_take, Nat.min_eq_left (Nat.sub_le _ _)] at hthere
    rw [hthere] at hback
    exact magic_apart _ (by omega) (by omega) hback
  · exact hgap ((marked_append hwithin rest).mp hmarked).occurs

/-! ## one gap -/

/-- Bytes without a marker are dropped up to the marker behind them. -/
theorem scan_gap (layout : Layout) {gap rest : Bytes} (hgap : ¬ magic <:+: gap) (hne : gap ≠ [])
    (hrest : Marked rest 0) :
    scan layout (gap ++ rest) =
      (.skipped gap.length (.badMagic ((gap ++ rest).take 4)) :: (scan layout rest).1,
        (scan layout rest).2) := by
  have hpos := List.length_pos_iff.mpr hne
  have hroom := hrest.le
  have hlen : 4 ≤ (gap ++ rest).length := by rw [List.length_append]; omega
  have hnone : ∀ i, i < gap.length → ¬ Marked (gap ++ rest) i :=
    fun i hi => not_marked_gap hgap hrest hi
  have hnext : Resumes (gap ++ rest) gap.length := by
    refine ⟨hpos, by rw [List.length_append]; omega, fun i _ hi => hnone i hi, .inl ?_⟩
    rw [Marked, List.drop_left]
    exact hrest
  have hskip := (resumes_resync _ hlen).unique hnext
  rw [scan_malformed (extract_unmarked layout hlen (mt marked_zero.mpr (hnone 0 hpos))), hskip,
    List.drop_left]

/-- Of bytes without a marker that nothing follows the last three are left. -/
theorem scan_tail (layout : Layout) {tail : Bytes} (htail : ¬ magic <:+: tail) :
    (tail.length < 4 ∧ scan layout tail = ([], tail)) ∨
      (4 ≤ tail.length ∧ scan layout tail =
        ([.skipped (tail.length - 3) (.badMagic (tail.take 4))], tail.drop (tail.length - 3))) := by
  rcases Nat.lt_or_ge tail.length 4 with hshort | hlen
  · exact .inl ⟨hshort, scan_incomplete (extract_short layout hshort)⟩
  · have hnone : ∀ i, ¬ Marked tail i := fun i hi => htail hi.occurs
    have hnext : Resumes tail (tail.length - 3) :=
      ⟨by omega, by omega, fun i _ _ => hnone i, .inr (by omega)⟩
    have hskip := (resumes_resync tail hlen).unique hnext
    have hleft : (tail.drop (tail.length - 3)).length < 4 := by rw [List.length_drop]; omega
    refine .inr ⟨hlen, ?_⟩
    rw [scan_malformed (extract_unmarked layout hlen (mt marked_zero.mpr (hnone 0))), hskip,
      scan_incomplete (extract_short layout hleft)]

/-! ## many of them -/

/-- wire forms with other bytes in front of each, and `last` behind all of them -/
def strewn (layout : Layout) : List (Bytes × Fragment) → Bytes → Bytes
  | [], last => last
  | (gap, f) :: xs, last => gap ++ (f.wire layout ++ strewn layout xs last)

/-- the bytes of `raw` that pieces took off without a fragment -/
def waste : List Piece → Bytes → Bytes
  | [], _ => []
  | .fragment _ n :: ps, raw => waste ps (raw.drop n)
  | .skipped n _ :: ps, raw => raw.take n ++ waste ps (raw.drop n)

/-- how many bytes pieces took off without a fragment -/
def wasted : List Piece → Nat
  | [] => 0
  | .fragment _ _ :: ps => wasted ps
  | .skipped n _ :: ps => n + wasted ps

theorem marked_wire (layout : Layout) (f : Fragment) (rest : Bytes) :
    Marked (f.wire layout ++ rest) 0 := by
  rw [marked_zero, Fragment.wire, List.append_assoc]
  exact take_wireHeader layout f (f.bytes ++ rest)

/-- What a scan yields of wire forms with garbage around them. -/
structure Yields (fs : List Fragment) (garbage rest raw : Bytes) (r : List Piece × Bytes) :
    Prop where
  fragments : fragments r.1 = fs
  waste : waste r.1 raw = garbage
  wasted : wasted r.1 = garbage.length
  rest : r.2 = rest

theorem Yields.wire {layout : Layout} {fs : List Fragment} {garbage rest raw : Bytes} {f : Fragment}
    (h : Yields fs garbage rest raw (scan layout raw)) (hf : f.Fits layout) :
    Yields (f :: fs) garbage rest (f.wire layout ++ raw) (scan layout (f.wire layout ++ raw)) := by
  have hdrop : (f.wire layout ++ raw).drop (f.wireLength layout) = raw :=
    List.drop_left' (Fragment.length_wire layout f)
  rw [scan_fragment (extract_wire hf raw), hdrop]
  refine ⟨congrArg (f :: ·) h.fragments, ?_, h.wasted, h.rest⟩
  rw [Wire.waste, hdrop]
  exact h.waste

theorem Yields.gap {layout : Layout} {fs : List Fragment} {garbage rest raw gap : Bytes}
    (h : Yields fs garbage rest raw (scan layout raw)) (hgap : ¬ magic <:+: gap)
    (hraw : Marked raw 0) :
    Yields fs (gap ++ garbage) rest (gap ++ raw) (scan layout (gap ++ raw)) := by
  by_cases hne : gap = []
  · subst hne
    exact h
  · rw [scan_gap layout hgap hne hraw]
    refine ⟨h.fragments, ?_, ?_, h.rest⟩
    · rw [Wire.waste, List.take_left, List.drop_left, h.waste]
    · rw [Wire.wasted, h.wasted, List.length_append]

theorem yields_tail (layout : Layout) {tail : Bytes} (htail : ¬ magic <:+: tail) :
    Yields [] (tail.take (tail.length - 3)) (tail.drop (tail.length - 3)) tail
      (scan layout tail) := by
  rcases scan_tail layout htail with ⟨hshort, hscan⟩ | ⟨hlen, hscan⟩
  · have hzero : tail.length - 3 = 0 := by omega
    rw [hscan, hzero]
    exact ⟨rfl, rfl, rfl, rfl⟩
  · rw [hscan]
    refine ⟨rfl, List.append_nil _, ?_, rfl⟩
    rw [List.length_take_of_le (Nat.sub_le _ _)]
    rfl

theorem yields_strewn {layout : Layout} {xs : List (Bytes × Fragment)} {last : Bytes}
    (hfits : ∀ x ∈ xs, x.2.Fits layout) (hgaps : ∀ x ∈ xs, ¬ magic <:+: x.1)
    (hlast : ¬ magic <:+: last) :
    Yields (xs.map Prod.snd) ((xs.map Prod.fst).flatten ++ last.take (last.length - 3))
      (last.drop (last.length - 3)) (strewn layout xs last)
      (scan layout (strewn layout xs last)) := by
  induction xs with
  | nil => exact yields_tail layout hlast
  | cons x xs ih =>
    obtain ⟨gap, f⟩ := x
    have hlater := ih (fun y hy => hfits y (.tail _ hy)) (fun y hy => hgaps y (.tail _ hy))
    have hhere := (hlater.wire (hfits _ (.head _))).gap (hgaps _ (.head _)) (marked_wire layout f _)
    rw [List.map_cons, List.map_cons, List.flatten_cons, List.append_assoc]
    exact hhere

/-- Scanning finds every fragment behind garbage, in order. It drops the garbage and nothing else,
up to the last three bytes of what stands behind the last fragment, which it leaves. -/
theorem scan_strewn (layout : Layout) (xs : List (Bytes × Fragment)) (last : Bytes)
    (hfits : ∀ x ∈ xs, x.2.Fits layout) (hgaps : ∀ x ∈ xs, ¬ magic <:+: x.1)
    (hlast : ¬ magic <:+: last) :
    let raw := strewn layout xs last
    let garbage := (xs.map Prod.fst).flatten
    let r := scan layout raw
    fragments r.1 = xs.map Prod.snd ∧
      waste r.1 raw = garbage ++ last.take (last.length - 3) ∧
      wasted r.1 + min 3 last.length = garbage.length + last.length ∧
      r.2 = last.drop (last.length - 3) ∧ r.2.length = min 3 last.length := by
  intro raw garbage r
  have h := yields_strewn hfits hgaps hlast
  refine ⟨h.fragments, h.waste, ?_, h.rest, ?_⟩
  · have hcount : wasted r.1 = _ := h.wasted
    rw [List.length_append, List.length_take] at hcount
    show _ = (xs.map Prod.fst).flatten.length + _
    omega
  · have hrest : r.2 = _ := h.rest
    rw [hrest, List.length_drop]
    omega

/-- Here what stands in front of both fragments could begin a marker, and so could the last of
what stands behind; the payload is a marker. -/
theorem scan_strewn_partial :
    let header : Fragment := ⟨7, 1, 0, 1, 0, none⟩
    let part : Fragment := ⟨7, 1, 1, 4, 0, some magic⟩
    let xs := [([1, 2] ++ magic.take 3, header), (magic.take 2, part)]
    let last := [3, 4, 5] ++ magic.take 3
    let r := scan .plain (strewn .plain xs last)
    (∀ x ∈ xs, x.2.Fits .plain) ∧ (∀ x ∈ xs, ¬ magic <:+: x.1) ∧ ¬ magic <:+: last ∧
      fragments r.1 = [header, part] ∧ wasted r.1 = 10 ∧ r.2 = magic.take 3 := by
  intro header part xs last r
  have hfits : ∀ x ∈ xs, x.2.Fits .plain := by
    unfold Fragment.Fits
    decide
  have hgaps : ∀ x ∈ xs, ¬ magic <:+: x.1 := by decide
  have hlast : ¬ magic <:+: last := by decide
  obtain ⟨hfragments, -, hwasted, hrest, -⟩ := scan_strewn .plain xs last hfits hgaps hlast
  refine ⟨hfits, hgaps, hlast, hfragments, ?_, hrest⟩
  have hcount : wasted r.1 + 3 = 7 + 6 := hwasted
  omega

end BundleLink.Wire
