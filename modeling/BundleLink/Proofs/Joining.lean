import BundleLink.Bundle.Join

/-!
# What fragments that can be joined are like

Any fragments may have been collected, but if they can be joined they are what a buffer is cut into:
one header that declares how many data fragments there are, and these with the numbers 1, 2, … In
the checksummed layout each carries the sum of its bytes, and the header the sum of all of them.

* `Bytes.total`        the sum of bytes, and `Checksum.toNat_ofBytes`, how checksums keep it;
* `Bundle.Sound`       what header and data fragments have to be like;
* `Bundle.join_sound`  the fragments of a successful join are like that.
-/

namespace BundleLink

/-! ## sums -/

/-- the sum of bytes, without bound -/
def Bytes.total : Bytes → Nat
  | [] => 0
  | b :: bs => b.toNat + total bs

/-- how many sums a checksum can hold: `2 ^ 63` -/
def Checksum.modulus : Nat := 0x8000000000000000

@[simp] theorem Bytes.total_nil : Bytes.total [] = 0 := rfl

theorem Bytes.total_cons (b : UInt8) (bs : Bytes) :
    Bytes.total (b :: bs) = b.toNat + Bytes.total bs := rfl

@[simp] theorem Bytes.total_append (bs cs : Bytes) :
    Bytes.total (bs ++ cs) = Bytes.total bs + Bytes.total cs := by
  induction bs with
  | nil => exact (Nat.zero_add _).symm
  | cons b bs ih => rw [List.cons_append, total_cons, total_cons, ih, Nat.add_assoc]

theorem Checksum.toNat_add_eq {a b : UInt64} {m n : Nat} (ha : a.toNat = m % modulus)
    (hb : b.toNat = n % modulus) : (add a b).toNat = (m + n) % modulus := by
  rw [toNat_add, ha, hb]
  exact (Nat.add_mod m n modulus).symm

theorem Checksum.toNat_foldl {sum : UInt64} {n : Nat} (hsum : sum.toNat = n % modulus)
    (bs : Bytes) : (bs.foldl (fun sum b => add sum b.toUInt64) sum).toNat =
      (n + Bytes.total bs) % modulus := by
  induction bs generalizing sum n with
  | nil => exact hsum
  | cons b bs ih =>
    have hfirst : b.toUInt64.toNat = b.toNat % modulus := by
      rw [UInt8.toNat_toUInt64, Nat.mod_eq_of_lt (Nat.lt_trans b.toNat_lt (by decide))]
    rw [List.foldl_cons, ih (toNat_add_eq hsum hfirst), Bytes.total_cons, Nat.add_assoc]

/-- The checksum of bytes is their sum, as far as it has room. -/
theorem Checksum.toNat_ofBytes (bs : Bytes) : (ofBytes bs).toNat = Bytes.total bs % modulus := by
  rw [ofBytes, toNat_foldl (n := 0) rfl, Nat.zero_add]

namespace Bundle

variable {layout : Layout} {fs : List Fragment} {buffer : Bytes}

/-! ## the tests of a join -/

theorem checkSequence_cons (message : UInt64) (number : Nat) (f : Fragment)
    (fs : List Fragment) : checkSequence message number (f :: fs) =
      if f.message = message then
        match Width.toInt32 number with
        | .error e => .error (.fault e)
        | .ok n =>
          if f.number = n then checkSequence message (number + 1) fs
          else .error (.error (.nonSequential number f.number))
      else .error (.error (.mismatchedMessage message f.message)) := by
  rw [checkSequence]
  by_cases hmessage : f.message = message
  · rw [if_pos hmessage, if_neg (not_not_intro hmessage)]
    cases Width.toInt32 number with
    | error e => rfl
    | ok n =>
      by_cases hnumber : f.number = n
      · simp [hnumber, bind, Except.bind]
      · simp [hnumber, bind, Except.bind, throw, throwThe, MonadExceptOf.throw]
  · rw [if_neg hmessage, if_pos hmessage]
    rfl

theorem checkSequence_sound {message : UInt64} {number : Nat}
    (h : checkSequence message number fs = .ok ()) (i : Nat) (f : Fragment)
    (hf : fs[i]? = some f) : f.message = message ∧ f.number.toInt = number + i := by
  induction fs generalizing number i with
  | nil => cases hf
  | cons g fs ih =>
    rw [checkSequence_cons] at h
    split at h
    · rename_i hmessage
      by_cases hroom : number ≤ Width.maxInt32
      · rw [Width.toInt32_of_le hroom] at h
        dsimp only at h
        split at h
        · rename_i hnumber
          cases i with
          | zero =>
            rw [List.getElem?_cons_zero, Option.some.injEq] at hf
            subst hf
            refine ⟨hmessage, ?_⟩
            rw [hnumber, Int32.toInt_ofNat_of_lt (Nat.lt_of_le_of_lt hroom (by decide))]
            exact (Int.add_zero _).symm
          | succ i =>
            rw [List.getElem?_cons_succ] at hf
            obtain ⟨hm, hn⟩ := ih h i hf
            exact ⟨hm, by rw [hn]; push_cast; omega⟩
        · cases h
      · rw [Width.toInt32_of_lt (Nat.lt_of_not_le hroom)] at h
        cases h
    · cases h

/-- the sum of checksums that all fit their payloads -/
theorem verifyData_sound {sum total : UInt64} {n : Nat} (hsum : sum.toNat = n % Checksum.modulus)
    (h : verifyData sum fs = .ok total) :
    (∀ f ∈ fs, f.checksum = Checksum.ofBytes f.bytes) ∧
      total.toNat = (n + Bytes.total (payloads fs)) % Checksum.modulus := by
  induction fs generalizing sum n with
  | nil =>
    cases h
    exact ⟨fun f hf => absurd hf List.not_mem_nil, hsum⟩
  | cons f fs ih =>
    rw [verifyData] at h
    split at h
    · rename_i hsame
      obtain ⟨hrest, htotal⟩ :=
        ih (Checksum.toNat_add_eq hsum (Checksum.toNat_ofBytes f.bytes)) h
      refine ⟨?_, ?_⟩
      · intro g hg
        rcases List.mem_cons.mp hg with rfl | hg
        · exact hsame.symm
        · exact hrest g hg
      · rw [htotal, payloads_cons, Bytes.total_append, Nat.add_assoc]
    · cases h

/-- Header and data fragments that make up a bundle. -/
structure Sound (layout : Layout) (header : Fragment) (data : List Fragment) : Prop where
  number : header.number = 0
  payload : header.payload = none
  declared : header.length.toInt = data.length
  nonempty : data ≠ []
  numbered : ∀ (i : Nat) (f : Fragment), data[i]? = some f → f.number.toInt = (i : Int) + 1
  message : ∀ f ∈ data, f.message = header.message
  checked : layout = .checksummed →
    ∀ f ∈ data, f.checksum.toNat = Bytes.total f.bytes % Checksum.modulus
  total : layout = .checksummed →
    header.checksum.toNat = Bytes.total (payloads data) % Checksum.modulus

theorem checkShape_sound {header : Fragment} {data : List Fragment}
    (h : checkShape (header :: data) = .ok ()) :
    header.number = 0 ∧ header.payload = none ∧ header.length.toInt = data.length ∧ data ≠ [] ∧
      checkSequence header.message 0 (header :: data) = .ok () := by
  rw [checkShape] at h
  split at h
  · cases h
  · rename_i hheader
    split at h
    · cases h
    · rename_i hcount
      rw [not_or, not_or] at hheader
      obtain ⟨hnumber, hpayload, hlength⟩ := hheader
      have hcount : header.length.toInt.toNat = data.length := Decidable.not_not.mp hcount
      rw [Int16.le_iff_toInt_le, Int16.toInt_zero] at hlength
      refine ⟨Decidable.not_not.mp hnumber, by simpa using hpayload, by omega, ?_, h⟩
      rintro rfl
      rw [List.length_nil] at hcount
      omega

theorem verify_checksummed (header : Fragment) (data : List Fragment) :
    verify .checksummed (header :: data) =
      match verifyData 0 data with
      | .error e => .error e
      | .ok sum =>
        if sum = header.checksum then .ok ()
        else .error (.checksumMismatch 0 header.checksum sum) := by
  rw [verify]
  cases verifyData 0 data <;> rfl

theorem verify_sound {header : Fragment} {data : List Fragment}
    (h : verify .checksummed (header :: data) = .ok ()) :
    (∀ f ∈ data, f.checksum = Checksum.ofBytes f.bytes) ∧
      header.checksum.toNat = Bytes.total (payloads data) % Checksum.modulus := by
  rw [verify_checksummed] at h
  split at h
  · cases h
  · rename_i sum hdata
    obtain ⟨hchecked, hsum⟩ := verifyData_sound (n := 0) rfl hdata
    split at h
    · rename_i hsame
      rw [Nat.zero_add, hsame] at hsum
      exact ⟨hchecked, hsum⟩
    · cases h

theorem join_eq (layout : Layout) (fs : List Fragment) : join layout fs =
    match checkShape (sorted fs) with
    | .error e => .error e
    | .ok _ =>
      match verify layout (sorted fs) with
      | .error why => .error (.error why)
      | .ok _ => .ok (payloads (sorted fs)) := by
  rw [join]
  cases checkShape (sorted fs) with
  | error e => rfl
  | ok _ => cases verify layout (sorted fs) <;> rfl

theorem join_eq_ok (h : join layout fs = .ok buffer) :
    checkShape (sorted fs) = .ok () ∧ verify layout (sorted fs) = .ok () ∧
      buffer = payloads (sorted fs) := by
  rw [join_eq] at h
  split at h
  · cases h
  · rename_i hshape
    split at h
    · cases h
    · rename_i hverify
      exact ⟨hshape, hverify, (Except.ok.inj h).symm⟩

/-- Fragments that can be joined are a header and the data fragments that it declares. -/
theorem join_sound (h : join layout fs = .ok buffer) :
    ∃ header data, sorted fs = header :: data ∧ Sound layout header data ∧
      buffer = payloads data := by
  obtain ⟨hshape, hverify, hbuffer⟩ := join_eq_ok h
  generalize sorted fs = gs at hshape hverify hbuffer
  cases gs with
  | nil => cases hshape
  | cons header data =>
    obtain ⟨hnumber, hpayload, hlength, hne, hsequence⟩ := checkShape_sound hshape
    have hbytes : header.bytes = [] := by rw [Fragment.bytes, hpayload]; rfl
    have hall (i : Nat) (f : Fragment) (hf : data[i]? = some f) :
        f.message = header.message ∧ f.number.toInt = (i : Int) + 1 := by
      have hboth := checkSequence_sound hsequence (i + 1) f hf
      refine ⟨hboth.1, ?_⟩
      rw [hboth.2]
      push_cast
      omega
    refine ⟨header, data, rfl, ⟨hnumber, hpayload, hlength, hne, fun i f hf => (hall i f hf).2, ?_,
      ?_, ?_⟩, ?_⟩
    · intro f hf
      obtain ⟨i, hi⟩ := List.mem_iff_getElem?.mp hf
      exact (hall i f hi).1
    · rintro rfl f hf
      rw [(verify_sound hverify).1 f hf, Checksum.toNat_ofBytes]
    · rintro rfl
      exact (verify_sound hverify).2
    · rw [hbuffer, payloads_cons, hbytes, List.nil_append]

/-! ## what the fragments determine -/

namespace Sound

variable {header header' : Fragment} {data data' : List Fragment}

theorem number_at (h : Sound layout header data) {i : Nat} {f : Fragment}
    (hf : (header :: data)[i]? = some f) : f.number.toInt = i := by
  cases i with
  | zero =>
    rw [← Option.some.inj hf, h.number]
    rfl
  | succ i => exact h.numbered i f hf

/-- each fragment is where its number says -/
theorem getElem?_of_number (h : Sound layout header data) {f : Fragment} {i : Nat}
    (hf : f ∈ header :: data) (hi : f.number.toInt = i) : (header :: data)[i]? = some f := by
  obtain ⟨j, hj⟩ := List.mem_iff_getElem?.mp hf
  have hnumber := h.number_at hj
  rwa [← Int.ofNat.inj (hnumber.symm.trans hi)]

theorem header_of_zero (h : Sound layout header data) {f : Fragment} (hf : f ∈ header :: data)
    (hzero : f.number = 0) : f = header := by
  have hfirst := h.getElem?_of_number (i := 0) hf (by rw [hzero]; rfl)
  exact (Option.some.inj hfirst).symm

theorem number_ne_zero (h : Sound layout header data) {f : Fragment} (hf : f ∈ data) :
    f.number ≠ 0 := by
  intro hzero
  obtain ⟨i, hi⟩ := List.mem_iff_getElem?.mp hf
  have hnumber := h.numbered i f hi
  rw [hzero, Int32.toInt_zero] at hnumber
  omega

theorem length_eq (h : Sound layout header data) (h' : Sound layout header' data')
    (hlength : header'.length = header.length) : data'.length = data.length := by
  have hdeclared := h'.declared
  rw [hlength, h.declared] at hdeclared
  exact (Int.ofNat.inj hdeclared).symm

/-- Fragments that agree in number, length and bytes make up the same bundle. -/
theorem payloads_congr (h : Sound layout header data) (h' : Sound layout header' data')
    (hmem : ∀ g ∈ header' :: data', ∃ f ∈ header :: data,
      g.number = f.number ∧ g.length = f.length ∧ g.bytes = f.bytes) :
    payloads data' = payloads data := by
  obtain ⟨f, hf, hnumber, hlength, -⟩ := hmem header' List.mem_cons_self
  rw [h.header_of_zero hf (hnumber.symm.trans h'.number)] at hlength
  have hbytes : data'.map Fragment.bytes = data.map Fragment.bytes := by
    apply List.ext_getElem (by rw [List.length_map, List.length_map, h.length_eq h' hlength])
    intro i hi _
    rw [List.length_map] at hi
    have hget := List.getElem?_eq_getElem hi
    obtain ⟨f, hf, hnumber, -, hsame⟩ :=
      hmem data'[i] (List.mem_cons_of_mem _ (List.getElem_mem hi))
    have hplace := h.getElem?_of_number (i := i + 1) hf
      (by rw [← hnumber, h'.numbered i _ hget]; push_cast; rfl)
    rw [List.getElem?_cons_succ] at hplace
    obtain ⟨hi', rfl⟩ := List.getElem?_eq_some_iff.mp hplace
    rw [List.getElem_map, List.getElem_map, hsame]
  rw [payloads, payloads, List.flatMap_def, List.flatMap_def, hbytes]

/-- Data fragments of a bundle are the first ones of any other bundle in which they are. -/
theorem isPrefix (h : Sound layout header data) (h' : Sound layout header' data')
    (hmem : ∀ g ∈ data', g ∈ header :: data) : data' <+: data := by
  rw [List.prefix_iff_getElem?]
  intro i hi
  have hnumber := h'.numbered i _ (List.getElem?_eq_getElem hi)
  exact h.getElem?_of_number (i := i + 1) (hmem _ (List.getElem_mem hi))
    (by rw [hnumber]; push_cast; rfl)

end Sound

/-- sorting keeps the fragments -/
theorem perm_sorted (fs : List Fragment) : (sorted fs).Perm fs := by
  rw [sorted_eq_mergeSort]
  exact List.mergeSort_perm fs Fragment.before

theorem mem_sorted {f : Fragment} : f ∈ sorted fs ↔ f ∈ fs := (perm_sorted fs).mem_iff

end Bundle

end BundleLink
