import BundleLink.Proofs.Joining

/-!
# Exactly which fragments are joined

A header and the data fragments that it declares are joined in whatever order they come, since
sorting puts each of them where its number says. Nothing else is joined, and what is said about it
is always about the fragments, never about arguments or number ranges: the numbers are counted only
as far as a 16-bit length goes.

* `Sound.sorted_eq`   sorting restores the order of a bundle;
* `Sound.join`        such fragments are joined;
* `join_eq_ok_iff`    and no others;
* `join_error`        everything else is a violation;
* `join_exact`        all of this, and that the order does not matter.
-/

namespace BundleLink.Bundle

variable {layout : Layout} {header : Fragment} {data fs : List Fragment} {buffer : Bytes}

/-! ## the order -/

theorem pairwise_sorted (fs : List Fragment) :
    (sorted fs).Pairwise fun f g => f.before g = true := by
  rw [sorted_eq_mergeSort]
  exact List.pairwise_mergeSort before_trans before_total fs

/-- fragments of one message whose numbers go up one by one are in order -/
theorem pairwise_before {message : UInt64} (hm : ∀ f ∈ fs, f.message = message)
    (hn : ∀ (i : Nat) f, fs[i]? = some f → f.number.toInt = i) :
    fs.Pairwise fun f g => f.before g = true := by
  rw [List.pairwise_iff_getElem]
  intro i j hi hj hij
  have hsame : fs[i].message = fs[j].message :=
    (hm _ (List.getElem_mem hi)).trans (hm _ (List.getElem_mem hj)).symm
  have hfirst := hn i _ (List.getElem?_eq_getElem hi)
  have hsecond := hn j _ (List.getElem?_eq_getElem hj)
  rw [before_iff, hsame]
  exact .inr ⟨rfl, by omega⟩

theorem sorted_eq (h : fs.Pairwise fun f g => f.before g = true) : sorted fs = fs := by
  rw [sorted_eq_mergeSort]
  exact List.mergeSort_of_pairwise h

namespace Sound

theorem message_eq (h : Sound layout header data) {f : Fragment} (hf : f ∈ header :: data) :
    f.message = header.message := by
  rcases List.mem_cons.mp hf with rfl | hf
  · rfl
  · exact h.message f hf

/-- Two fragments of a bundle that may come in either order are the same. -/
theorem eq_of_before (h : Sound layout header data) {f g : Fragment} (hf : f ∈ header :: data)
    (hg : g ∈ header :: data) (hfg : f.before g = true) (hgf : g.before f = true) : f = g := by
  rw [before_iff, h.message_eq hf, h.message_eq hg] at hfg hgf
  obtain ⟨i, hi⟩ := List.mem_iff_getElem?.mp hf
  have hnumber : g.number.toInt = i := by
    have hplace := h.number_at hi
    omega
  exact Option.some.inj (hi.symm.trans (h.getElem?_of_number hg hnumber))

theorem sorted_eq (h : Sound layout header data) (hperm : fs.Perm (header :: data)) :
    sorted fs = header :: data := by
  have hsorted := (perm_sorted fs).trans hperm
  refine List.Perm.eq_of_pairwise ?_ (pairwise_sorted fs)
    (pairwise_before (fun f hf => h.message_eq hf) fun i f hf => h.number_at hf) hsorted
  intro f g hf hg
  exact h.eq_of_before (hsorted.mem_iff.mp hf) hg

end Sound

/-! ## what passes the tests -/

theorem checkSequence_complete {message : UInt64} {number : Nat}
    (h : ∀ (i : Nat) f, fs[i]? = some f → f.message = message ∧ f.number.toInt = number + i) :
    checkSequence message number fs = .ok () := by
  induction fs generalizing number with
  | nil => rfl
  | cons f fs ih =>
    obtain ⟨hmessage, hnumber⟩ := h 0 f rfl
    have hrest : checkSequence message (number + 1) fs = .ok () := by
      apply ih
      intro i g hg
      obtain ⟨hm, hn⟩ := h (i + 1) g hg
      exact ⟨hm, by push_cast at hn ⊢; omega⟩
    -- a number that a fragment carries fits into 32 bits
    have hlt := Int32.toInt_lt f.number
    have hroom : number < 2147483648 := by omega
    have hsame : f.number = Int32.ofNat number := by
      apply Int32.toInt_inj.mp
      rw [Int32.toInt_ofNat_of_lt hroom]
      omega
    rw [checkSequence_cons, if_pos hmessage, Width.toInt32_of_le (Nat.le_of_lt_succ hroom)]
    exact (if_pos hsame).trans hrest

theorem verifyData_complete (h : ∀ f ∈ fs, f.checksum = Checksum.ofBytes f.bytes) (sum : UInt64) :
    verifyData sum fs = .ok (fs.foldl (fun sum f => Checksum.add sum f.checksum) sum) := by
  induction fs generalizing sum with
  | nil => rfl
  | cons f fs ih =>
    have hfirst := h f List.mem_cons_self
    rw [verifyData, List.foldl_cons, ← ih fun g hg => h g (List.mem_cons_of_mem f hg), hfirst]
    exact if_pos rfl

namespace Sound

theorem checkShape (h : Sound layout header data) : checkShape (header :: data) = .ok () := by
  have hdeclared := h.declared
  have hpos := List.length_pos_iff.mpr h.nonempty
  have hlength : ¬ header.length ≤ 0 := by
    rw [Int16.le_iff_toInt_le, Int16.toInt_zero]
    omega
  have hcount : Width.payloadLength header.length = data.length := by
    rw [Width.payloadLength, hdeclared, Int.toNat_natCast]
  rw [Bundle.checkShape, if_neg (by simp [h.number, h.payload, hlength]),
    if_neg (not_not_intro hcount)]
  apply checkSequence_complete
  intro i f hf
  exact ⟨h.message_eq (List.mem_of_getElem? hf), by rw [h.number_at hf]; simp⟩

theorem verify (h : Sound layout header data) : verify layout (header :: data) = .ok () := by
  cases layout with
  | plain => rfl
  | checksummed =>
    have hchecked (f : Fragment) (hf : f ∈ data) : f.checksum = Checksum.ofBytes f.bytes := by
      apply UInt64.toNat_inj.mp
      rw [h.checked rfl f hf, Checksum.toNat_ofBytes]
    have hdata := verifyData_complete hchecked 0
    have htotal := (verifyData_sound (n := 0) rfl hdata).2
    rw [Nat.zero_add, ← h.total rfl, UInt64.toNat_inj] at htotal
    rw [verify_checksummed, hdata]
    exact if_pos htotal

/-- Header and data fragments of a bundle are joined, in whatever order they come. -/
theorem join (h : Sound layout header data) (hperm : fs.Perm (header :: data)) :
    join layout fs = .ok (payloads data) := by
  have hbytes : header.bytes = [] := by
    rw [Fragment.bytes, h.payload]
    rfl
  rw [join_eq, h.sorted_eq hperm, h.checkShape, h.verify, payloads_cons, hbytes]
  rfl

end Sound

theorem join_eq_ok_iff : join layout fs = .ok buffer ↔
    ∃ header data, fs.Perm (header :: data) ∧ Sound layout header data ∧
      buffer = payloads data := by
  constructor
  · intro h
    obtain ⟨header, data, hsorted, hsound, hbuffer⟩ := join_sound h
    exact ⟨header, data, hsorted ▸ (perm_sorted fs).symm, hsound, hbuffer⟩
  · rintro ⟨header, data, hperm, hsound, rfl⟩
    exact hsound.join hperm

/-! ## what does not -/

/-- a failure that is a violation -/
def Violates (e : Failure BundleError) : Prop := ∃ v, e = .error v ∧ v.isViolation = true

variable {e : Failure BundleError}

theorem checkSequence_error {message : UInt64} {number : Nat}
    (hroom : number + fs.length ≤ Width.maxInt32 + 1)
    (h : checkSequence message number fs = .error e) : Violates e := by
  induction fs generalizing number with
  | nil => cases h
  | cons f fs ih =>
    rw [List.length_cons] at hroom
    rw [checkSequence_cons, Width.toInt32_of_le (by omega)] at h
    dsimp only at h
    split at h
    · split at h
      · exact ih (by omega) h
      · cases h
        exact ⟨_, rfl, rfl⟩
    · cases h
      exact ⟨_, rfl, rfl⟩

/-- The numbers are counted only as far as the header says, which leaves room. -/
theorem checkShape_error (h : checkShape fs = .error e) : Violates e := by
  cases fs with
  | nil =>
    cases h
    exact ⟨_, rfl, rfl⟩
  | cons header data =>
    rw [checkShape] at h
    split at h
    · cases h
      exact ⟨_, rfl, rfl⟩
    · split at h
      · cases h
        exact ⟨_, rfl, rfl⟩
      · rename_i hcount
        have hlength : header.length.toInt.toNat = data.length := Decidable.not_not.mp hcount
        have hlt := Int16.toInt_lt header.length
        refine checkSequence_error ?_ h
        show 0 + (data.length + 1) ≤ 2147483647 + 1
        omega

theorem verifyData_error {sum : UInt64} {v : BundleError} (h : verifyData sum fs = .error v) :
    v.isViolation = true := by
  induction fs generalizing sum with
  | nil => cases h
  | cons f fs ih =>
    rw [verifyData] at h
    split at h
    · exact ih h
    · cases h
      rfl

theorem verify_error {v : BundleError} (h : verify layout fs = .error v) :
    v.isViolation = true := by
  cases layout with
  | plain => cases h
  | checksummed =>
    cases fs with
    | nil =>
      cases h
      rfl
    | cons header data =>
      rw [verify_checksummed] at h
      split at h
      · rename_i hdata
        cases h
        exact verifyData_error hdata
      · split at h
        · cases h
        · cases h
          rfl

/-- Fragments that are not joined violate the protocol. -/
theorem join_error (h : join layout fs = .error e) : Violates e := by
  rw [join_eq] at h
  split at h
  · rename_i hshape
    cases h
    exact checkShape_error hshape
  · split at h
    · rename_i v hverify
      cases h
      exact ⟨v, rfl, verify_error hverify⟩
    · cases h

theorem join_ne_fault (layout : Layout) (fs : List Fragment) {fault : Fault} :
    join layout fs ≠ .error (.fault fault) := by
  intro h
  obtain ⟨v, hv, -⟩ := join_error h
  cases hv

/-! ## the whole -/

/-- Fragments are joined if, and only if, they are the header and the data fragments of a bundle in
some order, and the result is the bytes of these in the order of their numbers. In every other case
the failure is a violation. The order in which the fragments come matters neither to whether they
are joined nor to the result. -/
theorem join_exact (layout : Layout) (fs : List Fragment) :
    (∀ buffer, join layout fs = .ok buffer ↔
      ∃ header data, fs.Perm (header :: data) ∧ Sound layout header data ∧
        buffer = payloads data) ∧
    (∀ e, join layout fs = .error e → ∃ v, e = .error v ∧ v.isViolation = true) ∧
    ∀ gs, gs.Perm fs → ∀ buffer, join layout gs = .ok buffer ↔ join layout fs = .ok buffer := by
  refine ⟨fun buffer => join_eq_ok_iff, fun e h => join_error h, fun gs hperm buffer => ?_⟩
  rw [join_eq_ok_iff, join_eq_ok_iff]
  constructor
  · rintro ⟨header, data, hgs, hsound⟩
    exact ⟨header, data, hperm.symm.trans hgs, hsound⟩
  · rintro ⟨header, data, hfs, hsound⟩
    exact ⟨header, data, hperm.trans hfs, hsound⟩

end BundleLink.Bundle
