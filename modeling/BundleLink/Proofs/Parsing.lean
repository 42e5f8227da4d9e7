import BundleLink.Proofs.Scanning

/-!
# Extraction is the exact inverse of writing

A fragment is extracted if, and only if, its wire form stands at the front, and each fragment that
fits is. More bytes are waited for only as long as a marker or a header is not there yet, or the
bytes are a proper part of a wire form. All other bytes are malformed, never because the fields of a
whole fragment break a rule: what the rules demand of number, length and payload has been looked at
before.

* `extract_eq_fragment_iff`    when a fragment is extracted;
* `extract_eq_incomplete_iff`  when more bytes are waited for;
* `extract_exact`              both, and what is dropped otherwise.
-/

namespace BundleLink.Wire

variable {layout : Layout} {raw : Bytes} {f : Fragment}

theorem extract_eq_fragment_iff {n : Nat} : extract layout raw = .fragment f n ↔
    f.Fits layout ∧ n = f.wireLength layout ∧ n ≤ raw.length ∧ raw.take n = f.wire layout := by
  constructor
  · intro h
    obtain ⟨hfits, hn, hthere⟩ := extract_sound h
    refine ⟨hfits, hn, extract_fragment_le h, ?_⟩
    rw [hn, ← Fragment.length_wire]
    exact (List.prefix_iff_eq_take.mp hthere).symm
  · rintro ⟨hfits, rfl, -, htake⟩
    rw [← List.take_append_drop (f.wireLength layout) raw, htake, extract_wire hfits]

/-- A proper part of a wire form is the beginning of a fragment. -/
theorem extract_part (hf : f.Fits layout) (hpart : raw <+: f.wire layout)
    (hne : raw ≠ f.wire layout) : extract layout raw = .incomplete := by
  have hlen : raw.length ≠ (f.wire layout).length := mt hpart.eq_of_length hne
  have hle := hpart.length_le
  obtain ⟨later, hcut⟩ := hpart
  rw [Fragment.length_wire] at hlen hle
  exact extract_cut hf hcut (Nat.lt_of_le_of_ne hle hlen)

/-- Any bytes can follow a header, so a header with too few bytes is part of a wire form. -/
theorem exists_completion {tail : Bytes} {size : Nat} (hplain : layout = .plain → f.checksum = 0)
    (hannounced : announced f.number f.length = .ok size) (hshort : tail.length < size) :
    ∃ g : Fragment, g.Fits layout ∧ f.wireHeader layout ++ tail <+: g.wire layout ∧
      f.wireHeader layout ++ tail ≠ g.wire layout := by
  have hlength : (tail ++ List.replicate (size - tail.length) 0).length = size := by
    rw [List.length_append, List.length_replicate]
    omega
  rw [← hlength] at hannounced
  have hwire : (f.carrying (tail ++ List.replicate (size - tail.length) 0)).wire layout =
      f.wireHeader layout ++ (tail ++ List.replicate (size - tail.length) 0) := by
    rw [Fragment.wire, bytes_carrying hannounced]
    rfl
  refine ⟨_, ⟨wellFormed_carrying hannounced, hplain⟩, ?_, ?_⟩
  · rw [hwire, ← List.append_assoc]
    exact List.prefix_append _ _
  · intro heq
    rw [hwire] at heq
    have hsame := congrArg List.length (List.append_cancel_left heq)
    omega

theorem extract_eq_incomplete_iff : extract layout raw = .incomplete ↔
    raw.length < 4 ∨ (raw.take 4 = magic ∧ raw.length < layout.headerLength) ∨
      ∃ f : Fragment, f.Fits layout ∧ raw <+: f.wire layout ∧ raw ≠ f.wire layout := by
  constructor
  · intro h
    cases front layout raw with
    | short hshort => exact .inl hshort
    | unmarked hlen hmagic =>
      rw [extract_unmarked layout hlen hmagic] at h
      cases h
    | begun hmagic hlen => exact .inr (.inl ⟨hmagic, hlen⟩)
    | header g tail hplain =>
      rw [extract_header, extractFields_header hplain] at h
      split at h
      · cases h
      · rename_i size hsize
        split at h
        · cases h
        · rename_i hholds
          rw [Bytes.holds_iff, Nat.not_le] at hholds
          exact .inr (.inr (exists_completion hplain hsize hholds))
  · rintro (hshort | ⟨hmagic, hlen⟩ | ⟨f, hf, hpart, hne⟩)
    · exact extract_short layout hshort
    · exact extract_begun hmagic hlen
    · exact extract_part hf hpart hne

/-- The fields of a fragment whose bytes are all there obey the rules. -/
theorem flaw_ne_badFragment {n : Nat} {flaw : Flaw} (h : extract layout raw = .malformed n flaw)
    (e : FragmentError) : flaw ≠ .badFragment e := by
  rcases malformed_cases h with ⟨-, -, -, rfl⟩ | ⟨f, tail, -, -, hannounced, -⟩
  · nofun
  · rintro rfl
    rw [announced] at hannounced
    split at hannounced
    · cases hannounced
    · split at hannounced
      · cases hannounced
      · split at hannounced <;> cases hannounced

/-- A fragment is extracted with a size if, and only if, it fits the layout, the size is that of its
wire form, and the wire form is the first so many of the bytes. More bytes are waited for while a
marker or a header is not complete, or the bytes are a proper part of the wire form of a fragment
that fits. In all other cases at least one byte is dropped and no more than there are, and never
because the fields that were read do not make a fragment. -/
theorem extract_exact (layout : Layout) (raw : Bytes) :
    (∀ f n, extract layout raw = .fragment f n ↔
      f.Fits layout ∧ n = f.wireLength layout ∧ n ≤ raw.length ∧ raw.take n = f.wire layout) ∧
    (extract layout raw = .incomplete ↔
      raw.length < 4 ∨ (raw.take 4 = magic ∧ raw.length < layout.headerLength) ∨
        ∃ f : Fragment, f.Fits layout ∧ raw <+: f.wire layout ∧ raw ≠ f.wire layout) ∧
    (∀ n flaw, extract layout raw = .malformed n flaw → 1 ≤ n ∧ n ≤ raw.length) ∧
    ∀ n e, extract layout raw ≠ .malformed n (.badFragment e) := by
  refine ⟨fun f n => extract_eq_fragment_iff, extract_eq_incomplete_iff, fun n flaw h => ?_, ?_⟩
  · exact ⟨extract_malformed_pos h, extract_malformed_le h⟩
  · intro n e h
    exact flaw_ne_badFragment h e rfl

end BundleLink.Wire
