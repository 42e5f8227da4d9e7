import BundleLink.Proofs.Cutting

/-!
# From a buffer to fragments and back

The fragments of a buffer are joined to the buffer again, in whatever order they come, directly or
over the wire.

* `join_perm`        in any order;
* `scan_perm`        over the wire, in any order;
* `split_roundTrip`  both of every buffer that can be cut.
-/

namespace BundleLink.Bundle

variable {layout : Layout} {size : Nat} {k : Key} {buffer : Bytes} {fs gs : List Fragment}

/-- what was cut is joined in any order -/
theorem join_perm (h : split layout size k buffer = .ok fs) (hperm : gs.Perm fs) :
    join layout gs = .ok buffer := by
  obtain ⟨header, data, hfs, hsound, hbuffer⟩ := join_eq_ok_iff.mp (join_split h)
  exact join_eq_ok_iff.mpr ⟨header, data, hperm.trans hfs, hsound, hbuffer⟩

/-- what was cut is read back in the order in which it was written -/
theorem scan_perm (h : split layout size k buffer = .ok fs) (hperm : gs.Perm fs) :
    Wire.scan layout (Fragment.wires layout gs) = (gs.map (Wire.whole layout), []) :=
  Wire.scan_all fun f hf => (Parts.of_split h).fits f (hperm.mem_iff.mp hf)

/-- Every buffer that is not empty is cut, if the size is from 1 to 32767 and there are not more than
32767 pieces. The fragments are joined to the buffer in every order. If they are written one behind
the other in that order, repeated extraction takes off nothing but their wire forms, leaves no byte,
and what it finds is joined to the buffer as well. -/
theorem split_roundTrip (layout : Layout) {size : Nat} (k : Key) {buffer : Bytes}
    (hb : buffer ≠ []) (hone : 1 ≤ size) (hmax : size ≤ 32767)
    (hcount : pieceCount size buffer ≤ 32767) :
    ∃ fs, split layout size k buffer = .ok fs ∧ ∀ gs, gs.Perm fs →
      join layout gs = .ok buffer ∧
      Wire.scan layout (Fragment.wires layout gs) = (gs.map (Wire.whole layout), []) ∧
      Wire.fragments (Wire.scan layout (Fragment.wires layout gs)).1 = gs ∧
      join layout (Wire.fragments (Wire.scan layout (Fragment.wires layout gs)).1) =
        .ok buffer := by
  have hdivisible : Divisible size buffer := ⟨hb, hone, hmax, (pieceCount_le_iff hone).mp hcount⟩
  have hsplit := hdivisible.split_eq layout k
  refine ⟨_, hsplit, fun gs hperm => ?_⟩
  have hjoin := join_perm hsplit hperm
  have hscan := scan_perm hsplit hperm
  have hfragments : Wire.fragments (Wire.scan layout (Fragment.wires layout gs)).1 = gs := by
    rw [hscan]
    exact Wire.fragments_whole layout gs
  exact ⟨hjoin, hscan, hfragments, by rw [hfragments, hjoin]⟩

/-- two pieces, the first of which is a marker itself, under a key whose message is 0 -/
theorem split_roundTrip_marker :
    (magic ++ [0x43] ≠ [] ∧ 1 ≤ 4 ∧ 4 ≤ 32767 ∧ pieceCount 4 (magic ++ [0x43]) ≤ 32767) ∧
      ∃ fs, split .checksummed 4 ⟨7, 0⟩ (magic ++ [0x43]) = .ok fs ∧ ∀ gs, gs.Perm fs →
        join .checksummed gs = .ok (magic ++ [0x43]) ∧
        Wire.scan .checksummed (Fragment.wires .checksummed gs) =
          (gs.map (Wire.whole .checksummed), []) ∧
        Wire.fragments (Wire.scan .checksummed (Fragment.wires .checksummed gs)).1 = gs ∧
        join .checksummed
            (Wire.fragments (Wire.scan .checksummed (Fragment.wires .checksummed gs)).1) =
          .ok (magic ++ [0x43]) :=
  ⟨by decide, split_roundTrip .checksummed ⟨7, 0⟩ (by decide) (by decide) (by decide) (by decide)⟩

end BundleLink.Bundle
