import BundleLink.Proofs.Garbling
import BundleLink.Proofs.Session.Chronicle

/-!
# What the sums of a bundle can not tell

Let header and data fragments be joined, all but one of which are fragments of a bundle that was
cut. Either the result is the same buffer, or it differs from it in a way that the sums do not show:
zeros are left out, or the bytes of one fragment have the sum of those in front of it.

* `Slip`                       what a bundle may be delivered as, after one byte was changed;
* `Bundle.Tampered`            the fragments, one of which was garbled;
* `Tampered.of_outside`        a garbled fragment with the old number and length does no harm;
* `Tampered.of_header_length`, `Tampered.of_data_length`, `Tampered.of_number`  the other fields;
* `Tampered.payloads_or_slip`  all of them together.
-/

namespace BundleLink

open Fragment (Garbled Starts)

/-- What a bundle may be delivered as, other than it was, after byte `r` of its fragment `f` was
changed. -/
inductive Slip (before : List Fragment) (f : Fragment) (after : List Fragment) (r : Nat)
    (c : Chronicle) : Bytes → Prop
  /-- the header declares fewer fragments, and those left out are zeros -/
  | fewer (count : Nat) (header : before = []) (length : 24 ≤ r ∧ r < 26) (some : 0 < count)
      (less : count < after.length) (zeros : ∀ b ∈ Bundle.payloads (after.drop count), b = 0) :
      Slip before f after r c (Bundle.payloads (after.take count))
  /-- a data fragment is shorter, and the bytes left out are zeros -/
  | shorter (count : Nat) (data : before ≠ []) (length : 24 ≤ r ∧ r < 26)
      (less : count < f.bytes.length) (zeros : ∀ b ∈ f.bytes.drop count, b = 0) :
      Slip before f after r c
        (Bundle.payloads before ++ f.bytes.take count ++ Bundle.payloads after)
  /-- a data fragment has become the header of those in front of it, as many as it has bytes, which
  have the same sum; the entry that the true header had begun was gone -/
  | renumbered (number : 20 ≤ r ∧ r < 24) (front : f.bytes.length < before.length)
      (total : Bytes.total (Bundle.payloads (before.take (f.bytes.length + 1))) =
        Bytes.total f.bytes)
      (again : ∃ n ∈ c.notes, n.created = true ∧
        n.offset = (Fragment.wires .checksummed (before.take 1)).length) :
      Slip before f after r c (Bundle.payloads (before.take (f.bytes.length + 1)))
  /-- a fragment was found where none starts -/
  | strayed (o : Origin) (n : Note) (framing : r < 4 ∨ 20 ≤ r ∧ r < 26)
      (genuine : o.Genuine .checksummed) (source : o.From c.notes) (mem : n ∈ o.notes)
      (stands : n.toFind.Stands .checksummed c.heard)
      (nowhere : ¬ Starts .checksummed (before ++ f :: after) n.offset) :
      Slip before f after r c o.bundle

/-- only marker, number and length have to do with slips -/
theorem Slip.framing {before after : List Fragment} {f : Fragment} {r : Nat} {c : Chronicle}
    {b : Bytes} (h : Slip before f after r c b) : r < 4 ∨ 20 ≤ r ∧ r < 26 := by
  cases h with
  | fewer _ _ length => exact .inr ⟨Nat.le_trans (by decide) length.1, length.2⟩
  | shorter _ _ length => exact .inr ⟨Nat.le_trans (by decide) length.1, length.2⟩
  | renumbered number => exact .inr ⟨number.1, Nat.lt_trans number.2 (by decide)⟩
  | strayed _ _ framing => exact framing

/-! ## sums that are small enough -/

theorem Bytes.total_lt {bs : Bytes}
    (h : bs.length ≤ Fragment.maxPayload * Fragment.maxCount) : total bs < Checksum.modulus := by
  have hle := total_le bs
  have hmax : 255 * (Fragment.maxPayload * Fragment.maxCount) < Checksum.modulus := by decide
  omega

theorem Fragment.total_lt {f : Fragment} (hf : f.WellFormed) :
    Bytes.total f.bytes < Checksum.modulus :=
  Bytes.total_lt (Nat.le_trans (length_bytes_le hf) (by decide))

theorem Bundle.Sound.total_lt {layout : Layout} {header : Fragment} {data : List Fragment}
    (h : Sound layout header data) (hdata : ∀ f ∈ data, f.WellFormed) :
    Bytes.total (payloads data) < Checksum.modulus := by
  have hcount : data.length ≤ Fragment.maxCount := by
    have hlt := header.length.toInt_lt
    rw [h.declared] at hlt
    rw [Fragment.maxCount]
    omega
  have hlength {fs : List Fragment} (hfs : ∀ f ∈ fs, f.WellFormed) :
      (payloads fs).length ≤ Fragment.maxPayload * fs.length := by
    induction fs with
    | nil => exact Nat.le_refl 0
    | cons f fs ih =>
      have hf := Fragment.length_bytes_le (hfs f List.mem_cons_self)
      have hrest := ih fun g hg => hfs g (List.mem_cons_of_mem _ hg)
      rw [payloads_cons, List.length_append, List.length_cons, Nat.mul_succ]
      omega
  exact Bytes.total_lt (Nat.le_trans (hlength hdata) (Nat.mul_le_mul_left _ hcount))

/-! ## bundles with a garbled fragment -/

namespace Bundle

/-- Header and data fragments of a bundle, all of which but one are those of another bundle at
other positions, and that one was garbled. -/
structure Tampered (header : Fragment) (data before : List Fragment) (f : Fragment)
    (after : List Fragment) (r : Nat) (byte : UInt8) (header' : Fragment) (data' : List Fragment)
    (g : Fragment) : Prop where
  original : Sound .checksummed header data
  fits : ∀ x ∈ header :: data, x.Fits .checksummed
  split : header :: data = before ++ f :: after
  inside : r < f.wireLength .checksummed
  garbled : Garbled f r byte (Fragment.wires .checksummed after) g
  joined : Sound .checksummed header' data'
  mem : ∀ x ∈ header' :: data', x ∈ before ++ after ∨ x = g

namespace Tampered

variable {header header' f g : Fragment} {data data' before after : List Fragment} {r : Nat}
  {byte : UInt8}

section
variable (h : Tampered header data before f after r byte header' data' g)
include h

theorem mem_original {x : Fragment} (hx : x ∈ before ++ after) : x ∈ header :: data := by
  rw [h.split]
  rcases List.mem_append.mp hx with hx | hx
  · exact List.mem_append_left _ hx
  · exact List.mem_append_right _ (List.mem_cons_of_mem _ hx)

theorem spot_mem : f ∈ header :: data := by
  rw [h.split]
  exact List.mem_append_right _ List.mem_cons_self

theorem number_spot : f.number.toInt = before.length := by
  refine h.original.number_at ?_
  rw [h.split, List.getElem?_append_right (Nat.le_refl _), Nat.sub_self]
  rfl

theorem number_ne {x : Fragment} (hx : x ∈ before ++ after) : x.number.toInt ≠ before.length := by
  rcases List.mem_append.mp hx with hx | hx
  · obtain ⟨i, hi, rfl⟩ := List.getElem_of_mem hx
    have hnumber := h.original.number_at (i := i) (f := before[i])
      (by rw [h.split, List.getElem?_append_left hi, List.getElem?_eq_getElem hi])
    omega
  · obtain ⟨i, hi, rfl⟩ := List.getElem_of_mem hx
    have hnumber := h.original.number_at (i := before.length + (i + 1)) (f := after[i])
      (by rw [h.split, List.getElem?_append_right (Nat.le_add_right _ _), Nat.add_sub_cancel_left,
        List.getElem?_cons_succ, List.getElem?_eq_getElem hi])
    omega

/-- only the garbled fragment can have the number of the one that was there -/
theorem eq_garbled {x : Fragment} (hx : (header' :: data')[before.length]? = some x) : x = g :=
  (h.mem x (List.mem_of_getElem? hx)).resolve_left
    fun hmem => h.number_ne hmem (h.joined.number_at hx)

/-- Nothing is amiss with a garbled fragment that agrees in number, length and bytes. -/
theorem payloads_eq (hnumber : g.number = f.number) (hlength : g.length = f.length)
    (hbytes : g ∈ header' :: data' → g.bytes = f.bytes) : payloads data' = payloads data := by
  refine h.original.payloads_congr h.joined fun x hx => ?_
  rcases h.mem x hx with hmem | rfl
  · exact ⟨x, h.mem_original hmem, rfl, rfl, rfl⟩
  · exact ⟨f, h.spot_mem, hnumber, hlength, hbytes hx⟩

theorem fits_of_mem {x : Fragment} (hx : x ∈ header' :: data') : x.Fits .checksummed := by
  rcases h.mem x hx with hmem | rfl
  · exact h.fits x (h.mem_original hmem)
  · exact h.garbled.fits

/-- data fragments with one checksum carry bytes with one sum -/
theorem total_eq (hf : f ∈ data) (hg : g ∈ data') (hchecksum : g.checksum = f.checksum) :
    Bytes.total g.bytes = Bytes.total f.bytes := by
  have hsum := h.joined.checked rfl g hg
  rwa [hchecksum, h.original.checked rfl f hf,
    Nat.mod_eq_of_lt (Fragment.total_lt (h.fits f h.spot_mem).1),
    Nat.mod_eq_of_lt (Fragment.total_lt h.garbled.fits.1), eq_comm] at hsum

/-- A change outside number and length changes nothing that is delivered. -/
theorem of_outside (hr : r < 20 ∨ 26 ≤ r) : payloads data' = payloads data := by
  have hnumber := h.garbled.number_eq (by omega)
  have hlength := h.garbled.length_eq (by omega)
  have hf := (h.fits f h.spot_mem).1
  refine h.payloads_eq hnumber hlength fun hg => ?_
  rcases Nat.lt_or_ge r 34 with hlt | hle
  · exact h.garbled.bytes_eq_of_lt hf hlt hnumber hlength
  · -- the payload was changed, but not its sum
    have hset := h.garbled.bytes_eq_of_le hf hle hnumber hlength
    have hzero : f.number ≠ 0 := by
      intro hzero
      have hinside := h.inside
      rw [Fragment.wireLength, (Wire.bytes_of_zero f hf hzero).2] at hinside
      exact absurd (show r < 34 from hinside) (Nat.not_lt.mpr hle)
    have hdata : f ∈ data := (List.mem_cons.mp h.spot_mem).resolve_left
      fun hheader => hzero (hheader ▸ h.original.number)
    have hdata' : g ∈ data' := (List.mem_cons.mp hg).resolve_left
      fun hheader => hzero (hnumber ▸ hheader ▸ h.joined.number)
    have htotal := h.total_eq hdata hdata' (h.garbled.checksum_eq (.inr hle))
    rw [hset] at htotal ⊢
    exact Bytes.set_eq_of_total htotal

theorem total_joined : header'.checksum.toNat = Bytes.total (payloads data') := by
  rw [h.joined.total rfl, Nat.mod_eq_of_lt
    (h.joined.total_lt fun x hx => (h.fits_of_mem (List.mem_cons_of_mem _ hx)).1)]

end

/-- behind a garbled header there are the first ones of the data fragments -/
theorem isPrefix (h : Tampered header data before f after r byte header' data' header') :
    data' <+: data := by
  refine h.original.isPrefix h.joined fun x hx => ?_
  rcases h.mem x (List.mem_cons_of_mem _ hx) with hmem | rfl
  · exact h.mem_original hmem
  · exact absurd h.joined.number (h.joined.number_ne_zero hx)

/-- where the garbled header leaves fragments out, they were zeros -/
theorem of_header_length (h : Tampered header data [] f after r byte header' data' g)
    (hr : 24 ≤ r ∧ r < 26) (c : Chronicle) :
    payloads data' = payloads data ∨ Slip [] f after r c (payloads data') := by
  obtain ⟨rfl, rfl⟩ := List.cons.inj (h.split.trans (List.nil_append _))
  obtain rfl : header' = g := h.eq_garbled rfl
  obtain ⟨rest, hrest⟩ := h.isPrefix
  have htotal : Bytes.total (payloads data') = Bytes.total (payloads data) := by
    rw [← h.total_joined, h.garbled.checksum_eq (.inl hr.2), h.original.total rfl,
      Nat.mod_eq_of_lt (h.original.total_lt fun x hx => (h.fits x (List.mem_cons_of_mem _ hx)).1)]
  subst hrest
  cases rest with
  | nil =>
    left
    rw [List.append_nil]
  | cons g' rest =>
    right
    rw [payloads_append, Bytes.total_append] at htotal
    have hzeros : ∀ b ∈ payloads ((data' ++ g' :: rest).drop data'.length), b = 0 := by
      rw [List.drop_left]
      exact Bytes.eq_zero_of_total (by omega)
    have hslip := Slip.fewer (f := header) (r := r) (c := c) data'.length rfl hr
      (List.length_pos_iff.mpr h.joined.nonempty) (by simp) hzeros
    rwa [List.take_left] at hslip

/-- the data fragments with the garbled one in the place of the one that was there -/
theorem data_eq_set {first : Fragment}
    (h : Tampered header data (first :: before) f after r byte header' data' g)
    (hnumber : g.number = f.number) : data' = before ++ g :: after := by
  obtain ⟨rfl, rfl⟩ := List.cons.inj (h.split.trans (List.cons_append ..))
  have hspot := h.number_spot
  rw [List.length_cons] at hspot
  have hheader : header' = header := by
    refine h.original.header_of_zero ?_ h.joined.number
    rcases h.mem header' List.mem_cons_self with hmem | rfl
    · exact h.mem_original hmem
    · rw [← hnumber, h.joined.number, Int32.toInt_zero] at hspot
      omega
  have hlength := h.original.length_eq h.joined (by rw [hheader])
  have hset : data' = (before ++ f :: after).set before.length g := by
    apply List.ext_getElem (by rw [hlength, List.length_set])
    intro i hi hi'
    have hget := List.getElem?_eq_getElem hi
    by_cases hplace : i = before.length
    · subst hplace
      rw [List.getElem_set_self]
      exact h.eq_garbled hget
    · rw [List.getElem_set_ne (Ne.symm hplace)]
      have hi'' := h.joined.numbered i _ hget
      rcases h.mem _ (List.mem_cons_of_mem _ (List.getElem_mem hi)) with hmem | hgarbled
      · have hsame := h.original.getElem?_of_number (i := i + 1) (h.mem_original hmem)
          (by rw [hi'']; push_cast; rfl)
        rw [List.getElem?_cons_succ] at hsame
        exact (List.getElem?_eq_some_iff.mp hsame).2.symm
      · rw [hgarbled, hnumber, hspot] at hi''
        omega
  rw [hset, List.set_append_right _ _ (Nat.le_refl _), Nat.sub_self, List.set_cons_zero]

/-- where the garbled data fragment leaves bytes out, they were zeros -/
theorem of_data_length {first : Fragment}
    (h : Tampered header data (first :: before) f after r byte header' data' g)
    (hr : 24 ≤ r ∧ r < 26) (c : Chronicle) :
    payloads data' = payloads data ∨ Slip (first :: before) f after r c (payloads data') := by
  have hdata' := h.data_eq_set (h.garbled.number_eq (.inr hr.1))
  obtain ⟨rfl, hdata⟩ := List.cons.inj (h.split.trans (List.cons_append ..))
  have hheader := (Wire.bytes_of_zero header (h.fits _ List.mem_cons_self).1 h.original.number).2
  have htotal := h.total_eq (by rw [hdata]; simp) (by rw [hdata']; simp)
    (h.garbled.checksum_eq (.inl hr.2))
  have hprefix := h.garbled.bytes_isPrefix_of_lt (by omega)
  have hpayloads : payloads data' = payloads before ++ (g.bytes ++ payloads after) := by
    rw [hdata', payloads_append, payloads_cons]
  rcases Nat.le_total g.bytes.length f.bytes.length with hle | hle
  · have htake : g.bytes = f.bytes.take g.bytes.length :=
      List.prefix_iff_eq_take.mp
        (List.prefix_of_prefix_length_le hprefix (List.prefix_append _ _) hle)
    rcases Nat.lt_or_eq_of_le hle with hlt | heq
    · right
      have hcut := Bytes.total_append (f.bytes.take g.bytes.length)
        (f.bytes.drop g.bytes.length)
      rw [List.take_append_drop, ← htake] at hcut
      have hslip : Slip (header :: before) f after r c (payloads (header :: before) ++
          f.bytes.take g.bytes.length ++ payloads after) :=
        .shorter _ (List.cons_ne_nil _ _) hr hlt (Bytes.eq_zero_of_total (by omega))
      rwa [← htake, payloads_cons, hheader, List.nil_append, List.append_assoc,
        ← hpayloads] at hslip
    · left
      rw [hpayloads, hdata, payloads_append, payloads_cons, htake, heq, List.take_length]
  · -- more bytes would reach into the next marker
    left
    obtain ⟨more, hmore⟩ := List.prefix_of_prefix_length_le (List.prefix_append _ _) hprefix hle
    rw [← hmore, Bytes.total_append] at htotal
    rw [← hmore, List.prefix_append_right_inj] at hprefix
    cases more with
    | nil => rw [hpayloads, hdata, payloads_append, payloads_cons, ← hmore, List.append_nil]
    | cons b more =>
      have hzero : Bytes.total (b :: more) = 0 := by omega
      exact absurd (Bytes.eq_zero_of_total hzero b List.mem_cons_self)
        (Fragment.first_ne_zero hprefix)

/-- A garbled data fragment can have become the header of those in front of it. -/
theorem renumbered (h : Tampered header data before f after r byte header' data' header')
    (hr : 20 ≤ r ∧ r < 24) (hle : data'.length + 1 ≤ before.length) {c : Chronicle}
    (hagain : ∃ n ∈ c.notes, n.created = true ∧
      n.offset = (Fragment.wires .checksummed (before.take 1)).length) :
    Slip before f after r c (payloads data') := by
  obtain ⟨rest, hrest⟩ := h.isPrefix
  cases before with
  | nil => exact absurd hle (Nat.not_succ_le_zero _)
  | cons first before =>
    obtain ⟨rfl, hdata⟩ := List.cons.inj (h.split.trans (List.cons_append ..))
    have hspot := h.number_spot
    rw [List.length_cons] at hle hspot
    have hzero : f.number ≠ 0 := by
      intro hzero
      rw [hzero, Int32.toInt_zero] at hspot
      omega
    have hf := (h.fits f h.spot_mem).1
    have hcount : data'.length = f.bytes.length := by
      have hdeclared := h.joined.declared
      rw [h.garbled.length_eq (.inl hr.2), (Wire.length_bytes f hf hzero).1] at hdeclared
      exact (Int.ofNat.inj hdeclared).symm
    have hheader := (Wire.bytes_of_zero header (h.fits _ List.mem_cons_self).1
      h.original.number).2
    have htake : before.take f.bytes.length = data' := by
      have htaken := congrArg (List.take f.bytes.length) (hdata.symm.trans hrest.symm)
      rwa [List.take_append_of_le_length (by omega), List.take_left' hcount] at htaken
    have hpayloads : payloads ((header :: before).take (f.bytes.length + 1)) =
        payloads data' := by
      rw [List.take_succ_cons, payloads_cons, hheader, htake, List.nil_append]
    have htotal : Bytes.total (payloads data') = Bytes.total f.bytes := by
      rw [← h.total_joined, h.garbled.checksum_eq (.inl (by omega)),
        h.original.checked rfl f (by rw [hdata]; simp), Nat.mod_eq_of_lt (Fragment.total_lt hf)]
    rw [← hpayloads]
    exact .renumbered hr (by rw [List.length_cons]; omega) (by rw [hpayloads, htotal]) hagain

/-- where the garbled fragment has another number -/
theorem of_number (h : Tampered header data before f after r byte header' data' g)
    (hr : 20 ≤ r ∧ r < 24) {c : Chronicle}
    (hagain : header' ∉ before ++ after → before ≠ [] → ∃ n ∈ c.notes, n.created = true ∧
      n.offset = (Fragment.wires .checksummed (before.take 1)).length) :
    payloads data' = payloads data ∨ Slip before f after r c (payloads data') := by
  have hlength := h.garbled.length_eq (.inl hr.2)
  rcases Nat.lt_or_ge before.length (header' :: data').length with hlt | hle
  · -- the number at the spot is still there, so it is the garbled fragment that has it
    left
    have hget := List.getElem?_eq_getElem hlt
    have hgarbled := h.eq_garbled hget
    have hnumber : g.number = f.number := by
      rw [← hgarbled, ← Int32.toInt_inj, h.joined.number_at hget, h.number_spot]
    exact h.payloads_eq hnumber hlength fun _ =>
      h.garbled.bytes_eq_of_lt (h.fits f h.spot_mem).1 (by omega) hnumber hlength
  · right
    rw [List.length_cons] at hle
    have hnew : header' ∉ before ++ after := by
      intro hmem
      have hsame := h.original.header_of_zero (h.mem_original hmem) h.joined.number
      have hcount := h.original.length_eq h.joined (by rw [hsame])
      have hall := congrArg List.length h.split
      rw [List.length_cons, List.length_append, List.length_cons] at hall
      omega
    obtain rfl : header' = g := (h.mem header' List.mem_cons_self).resolve_left hnew
    have hne : before ≠ [] := by
      rintro rfl
      exact absurd hle (Nat.not_succ_le_zero _)
    exact h.renumbered hr hle (hagain hnew hne)

/-- Whatever byte was changed, the bundle that is joined is the one that was cut, or one that the
sums can not tell from it. -/
theorem payloads_or_slip (h : Tampered header data before f after r byte header' data' g)
    {c : Chronicle} (hagain : header' ∉ before ++ after → before ≠ [] → ∃ n ∈ c.notes,
      n.created = true ∧ n.offset = (Fragment.wires .checksummed (before.take 1)).length) :
    payloads data' = payloads data ∨ Slip before f after r c (payloads data') := by
  rcases (by omega : (r < 20 ∨ 26 ≤ r) ∨ (20 ≤ r ∧ r < 24) ∨ 24 ≤ r ∧ r < 26) with hr | hr | hr
  · exact .inl (h.of_outside hr)
  · exact h.of_number hr hagain
  · cases before with
    | nil => exact h.of_header_length hr c
    | cons first before => exact h.of_data_length hr c

end Tampered

end Bundle

end BundleLink
