import BundleLink.Proofs.Parts

/-!
# Exactly which buffers are cut, and into what

A buffer is cut if it has bytes, the size is one that fragments may have, and the greatest number of
fragments has room for all of its bytes. The pieces are the only ones that all have the size but for
the last, which may be shorter (`pieces_of_even`), so nothing about the fragments is left open
(`Divided.unique`).

* `Divisible`    the buffers that are cut;
* `Refusal`      why others are not;
* `Divided`      what header and data fragments are like;
* `split_exact`  all of this of `split`.
-/

namespace BundleLink.Bundle

variable {layout : Layout} {size : Nat} {k : Key} {buffer : Bytes}

/-! ## the limits -/

/-- as many pieces are enough as have room for all bytes -/
theorem pieceCount_le_iff (hs : 0 < size) {n : Nat} :
    pieceCount size buffer ≤ n ↔ buffer.length ≤ n * size := by
  rw [pieceCount, Nat.div_le_iff_le_mul_add_pred hs, Nat.mul_comm size n]
  omega

/-- The buffer has bytes, the size is one that fragments may have, and the bytes fit into as many
fragments as there may be. -/
structure Divisible (size : Nat) (buffer : Bytes) : Prop where
  nonempty : buffer ≠ []
  one_le : 1 ≤ size
  le_max : size ≤ Fragment.maxPayload
  room : buffer.length ≤ Fragment.maxCount * size

theorem Divisible.split_eq (h : Divisible size buffer) (layout : Layout) (k : Key) :
    split layout size k buffer = .ok (framed layout k (pieces size buffer)) :=
  split_framed h.nonempty (validSize_iff.mpr ⟨h.one_le, h.le_max⟩)
    ((pieceCount_le_iff h.one_le).mpr h.room)

theorem divisible_of_split {fs : List Fragment} (h : split layout size k buffer = .ok fs) :
    Divisible size buffer := by
  obtain ⟨⟨hb, hsize, hcount⟩, -⟩ := split_eq_ok.mp h
  obtain ⟨hone, hmax⟩ := validSize_iff.mp hsize
  rw [length_pieces hone] at hcount
  exact ⟨hb, hone, hmax, (pieceCount_le_iff hone).mp hcount⟩

/-- Why a buffer is not cut. Of several reasons the first one counts. -/
inductive Refusal (size : Nat) (buffer : Bytes) : BundleError → Prop where
  | empty : buffer = [] → Refusal size buffer .emptyBuffer
  | badSize : buffer ≠ [] → ¬ (1 ≤ size ∧ size ≤ Fragment.maxPayload) →
      Refusal size buffer (.invalidFragmentSize size)
  | tooMany : buffer ≠ [] → 1 ≤ size ∧ size ≤ Fragment.maxPayload →
      Fragment.maxCount * size < buffer.length →
      Refusal size buffer (.tooManyFragments buffer.length size)

theorem Refusal.split_eq {why : BundleError} (h : Refusal size buffer why) :
    split layout size k buffer = .error (.error why) := by
  cases h with
  | empty hb =>
    rw [hb]
    exact split_nil
  | badSize hb hsize =>
    exact split_badSize hb (Bool.eq_false_iff.mpr (mt validSize_iff.mp hsize))
  | tooMany hb hsize hmany =>
    refine split_tooMany hb (validSize_iff.mpr hsize) (Nat.lt_of_not_le fun hcount => ?_)
    exact absurd ((pieceCount_le_iff hsize.1).mp hcount) (Nat.not_le_of_lt hmany)

/-- each buffer is cut or refused for one of the reasons -/
theorem divisible_or_refusal (size : Nat) (buffer : Bytes) :
    Divisible size buffer ∨ ∃ why, Refusal size buffer why := by
  by_cases hb : buffer = []
  · exact .inr ⟨_, .empty hb⟩
  · by_cases hsize : 1 ≤ size ∧ size ≤ Fragment.maxPayload
    · rcases Nat.lt_or_ge (Fragment.maxCount * size) buffer.length with hmany | hroom
      · exact .inr ⟨_, .tooMany hb hsize hmany⟩
      · exact .inl ⟨hb, hsize.1, hsize.2, hroom⟩
    · exact .inr ⟨_, .badSize hb hsize⟩

theorem split_eq_error {e : Failure BundleError} : split layout size k buffer = .error e ↔
    ∃ why, e = .error why ∧ Refusal size buffer why := by
  constructor
  · intro h
    rcases divisible_or_refusal size buffer with hdivisible | ⟨why, hwhy⟩
    · rw [hdivisible.split_eq layout k] at h
      cases h
    · rw [hwhy.split_eq] at h
      exact ⟨why, (Except.error.inj h).symm, hwhy⟩
  · rintro ⟨why, rfl, hwhy⟩
    exact hwhy.split_eq

/-! ## the pieces -/

theorem ne_nil_of_piece {i : Nat} {p : Bytes} (h : (pieces size buffer)[i]? = some p) :
    buffer ≠ [] := by
  rintro rfl
  rw [pieces_nil] at h
  cases h

/-- a piece starts as many sizes behind the start as there are pieces in front of it -/
theorem piece_at (hs : 0 < size) {i : Nat} {p : Bytes} (h : (pieces size buffer)[i]? = some p) :
    i * size < buffer.length ∧ p = (buffer.drop (i * size)).take size := by
  have hb := ne_nil_of_piece h
  rw [pieces_cons hs hb] at h
  induction i generalizing buffer with
  | zero =>
    rw [Nat.zero_mul]
    exact ⟨List.length_pos_iff.mpr hb, (Option.some.inj h).symm⟩
  | succ i ih =>
    rw [List.getElem?_cons_succ] at h
    have hrest := ne_nil_of_piece h
    rw [pieces_cons hs hrest] at h
    obtain ⟨hlt, hp⟩ := ih h hrest
    rw [List.length_drop] at hlt
    rw [List.drop_drop] at hp
    rw [Nat.succ_mul, Nat.add_comm]
    exact ⟨by omega, hp⟩

theorem length_piece (hs : 0 < size) {i : Nat} {p : Bytes}
    (h : (pieces size buffer)[i]? = some p) : 0 < p.length ∧ p.length ≤ size := by
  obtain ⟨hlt, rfl⟩ := piece_at hs h
  rw [List.length_take, List.length_drop]
  omega

/-- A piece with another one behind it is as long as it can be. -/
theorem length_piece_eq (hs : 0 < size) {i : Nat} {p : Bytes}
    (h : (pieces size buffer)[i]? = some p) (hi : i + 1 < (pieces size buffer).length) :
    p.length = size := by
  have hnext := (piece_at hs (List.getElem?_eq_getElem hi)).1
  obtain ⟨-, rfl⟩ := piece_at hs h
  rw [Nat.succ_mul] at hnext
  rw [List.length_take, List.length_drop]
  omega

/-- If all parts of a buffer have the size, but for the last one, which may be shorter, they are its
pieces. -/
theorem pieces_of_even (hs : 0 < size) {ps : List Bytes}
    (hfull : ∀ i p, ps[i]? = some p → i + 1 < ps.length → p.length = size)
    (hlast : ∀ p, ps.getLast? = some p → 0 < p.length ∧ p.length ≤ size) :
    pieces size ps.flatten = ps := by
  induction ps with
  | nil => exact pieces_nil size
  | cons p ps ih =>
    cases ps with
    | nil =>
      obtain ⟨hpos, hle⟩ := hlast p rfl
      rw [List.flatten_cons, List.flatten_nil, List.append_nil,
        pieces_cons hs (List.length_pos_iff.mp hpos), List.take_of_length_le hle,
        List.drop_of_length_le hle, pieces_nil]
    | cons q ps =>
      have hp : p.length = size := hfull 0 p rfl (by simp)
      have hrest : pieces size (q :: ps).flatten = q :: ps :=
        ih (fun i r hr hi => hfull (i + 1) r hr (Nat.succ_lt_succ hi)) hlast
      have hne : p ++ (q :: ps).flatten ≠ [] := by
        intro hnil
        rw [List.append_eq_nil_iff] at hnil
        rw [hnil.1] at hp
        exact absurd hp (Nat.ne_of_lt hs)
      rw [List.flatten_cons, pieces_cons hs hne, List.take_left' hp, List.drop_left' hp, hrest]

/-! ## the fragments -/

/-- What a buffer is cut into: a header and the data fragments of a bundle, all with the key and fit
for the wire. There are as many data fragments as the quotient of the lengths, rounded up. Their
bytes are the buffer, each but the last one has as many as the size says, and the last one has no
more and at least one. The checksum of the header is the sum of the whole buffer, wherever it was
cut. -/
structure Divided (layout : Layout) (size : Nat) (k : Key) (buffer : Bytes) (header : Fragment)
    (data : List Fragment) : Prop where
  sound : Sound layout header data
  key : ∀ f ∈ header :: data, f.key = k
  fits : ∀ f ∈ header :: data, f.Fits layout
  count : data.length = (buffer.length + size - 1) / size
  bytes : payloads data = buffer
  full : ∀ i f, data[i]? = some f → i + 1 < data.length → f.bytes.length = size
  last : ∀ f, data.getLast? = some f → 0 < f.bytes.length ∧ f.bytes.length ≤ size
  total : layout = .checksummed →
    header.checksum.toNat = Bytes.total buffer % Checksum.modulus

theorem Divisible.divided (h : Divisible size buffer) (layout : Layout) (k : Key) :
    ∃ header data, framed layout k (pieces size buffer) = header :: data ∧
      Divided layout size k buffer header data := by
  have hs : 0 < size := h.one_le
  have hparts := Parts.of_split (h.split_eq layout k)
  have hcount : (pieces size buffer).length ≤ Fragment.maxCount := by
    rw [length_pieces hs]
    exact (pieceCount_le_iff hs).mpr h.room
  have hsound : Sound layout _ (numbered layout k 1 (pieces size buffer)) :=
    sound_framed (pieces_ne_nil hs h.nonempty) hcount
  have hbytes : payloads (numbered layout k 1 (pieces size buffer)) = buffer := by
    rw [payloads_numbered, flatten_pieces hs]
  -- a data fragment carries the piece at its place
  have hat {i : Nat} {f : Fragment} (hf : (numbered layout k 1 (pieces size buffer))[i]? = some f) :
      (pieces size buffer)[i]? = some f.bytes := by
    obtain ⟨p, hp, rfl⟩ := piece_of_numbered hf
    exact hp
  refine ⟨_, _, rfl, hsound, hparts.key, hparts.fits, ?_, hbytes, ?_, ?_, ?_⟩
  · rw [length_numbered, length_pieces hs, pieceCount]
  · intro i f hf hi
    rw [length_numbered] at hi
    exact length_piece_eq hs (hat hf) hi
  · intro f hf
    rw [List.getLast?_eq_getElem?] at hf
    exact length_piece hs (hat hf)
  · intro hchecksummed
    rw [hsound.total hchecksummed, hbytes]

/-- fragments that agree in all that is said about those of a bundle -/
theorem eq_of_fields {f g : Fragment} (hf : f.Fits layout) (hg : g.Fits layout)
    (hkey : f.key = g.key) (hnumber : f.number.toInt = g.number.toInt)
    (hlength : f.length.toInt = g.length.toInt) (hbytes : f.bytes = g.bytes)
    (hchecksum : layout = .checksummed → f.checksum.toNat = g.checksum.toNat) : f = g := by
  have hsame : f.number = g.number := Int32.toInt_inj.mp hnumber
  have hpayload : f.payload = g.payload := by
    by_cases hn : f.number = 0
    · rw [(Wire.bytes_of_zero f hf.1 hn).1, (Wire.bytes_of_zero g hg.1 (hsame ▸ hn)).1]
    · rw [(Wire.length_bytes f hf.1 hn).2, (Wire.length_bytes g hg.1 (hsame ▸ hn)).2, hbytes]
  have hsum : f.checksum = g.checksum := by
    cases layout with
    | plain => rw [hf.2 rfl, hg.2 rfl]
    | checksummed => exact UInt64.toNat_inj.mp (hchecksum rfl)
  have hdeclared : f.length = g.length := Int16.toInt_inj.mp hlength
  obtain ⟨g, m, n, l, c, p⟩ := f
  cases hkey
  cases hsame
  cases hdeclared
  cases hsum
  cases hpayload
  rfl

namespace Divided

variable {header header' : Fragment} {data data' : List Fragment}

theorem map_bytes (h : Divided layout size k buffer header data) :
    data.map Fragment.bytes = pieces size buffer := by
  have hbytes : (data.map Fragment.bytes).flatten = buffer := by
    rw [← List.flatMap_def]
    exact h.bytes
  have hs : 0 < size := by
    obtain ⟨hpos, hle⟩ := h.last _ (List.getLast?_eq_some_getLast h.sound.nonempty)
    omega
  rw [← hbytes]
  refine (pieces_of_even hs ?_ ?_).symm
  · intro i p hp hi
    rw [List.getElem?_map, Option.map_eq_some_iff] at hp
    obtain ⟨f, hf, rfl⟩ := hp
    rw [List.length_map] at hi
    exact h.full i f hf hi
  · intro p hp
    rw [List.getLast?_map, Option.map_eq_some_iff] at hp
    obtain ⟨f, hf, rfl⟩ := hp
    exact h.last f hf

/-- Nothing about the fragments of a buffer is left open. -/
theorem unique (h : Divided layout size k buffer header data)
    (h' : Divided layout size k buffer header' data') : header = header' ∧ data = data' := by
  have hlength : data.length = data'.length := h.count.trans h'.count.symm
  constructor
  · refine eq_of_fields (h.fits _ List.mem_cons_self) (h'.fits _ List.mem_cons_self) ?_ ?_ ?_ ?_ ?_
    · rw [h.key _ List.mem_cons_self, h'.key _ List.mem_cons_self]
    · rw [h.sound.number, h'.sound.number]
    · rw [h.sound.declared, h'.sound.declared, hlength]
    · rw [Fragment.bytes, Fragment.bytes, h.sound.payload, h'.sound.payload]
    · intro hchecksummed
      rw [h.total hchecksummed, h'.total hchecksummed]
  · apply List.ext_getElem hlength
    intro i hi hi'
    have hmem := List.getElem_mem hi
    have hmem' := List.getElem_mem hi'
    have hfits := h.fits _ (List.mem_cons_of_mem header hmem)
    have hfits' := h'.fits _ (List.mem_cons_of_mem header' hmem')
    have hbytes : data[i].bytes = data'[i].bytes := by
      have hsame := h.map_bytes.trans h'.map_bytes.symm
      rw [← List.getElem_map Fragment.bytes (h := by rwa [List.length_map]),
        ← List.getElem_map Fragment.bytes (h := by rwa [List.length_map])]
      simp only [hsame]
    refine eq_of_fields hfits hfits' ?_ ?_ ?_ hbytes ?_
    · rw [h.key _ (List.mem_cons_of_mem _ hmem), h'.key _ (List.mem_cons_of_mem _ hmem')]
    · rw [h.sound.numbered i _ (List.getElem?_eq_getElem hi),
        h'.sound.numbered i _ (List.getElem?_eq_getElem hi')]
    · rw [(Wire.length_bytes _ hfits.1 (h.sound.number_ne_zero hmem)).1,
        (Wire.length_bytes _ hfits'.1 (h'.sound.number_ne_zero hmem')).1, hbytes]
    · intro hchecksummed
      rw [h.sound.checked hchecksummed _ hmem, h'.sound.checked hchecksummed _ hmem', hbytes]

end Divided

/-- A buffer is cut if, and only if, it has bytes, the size is from 1 to 32767, and it has not more
than 32767 times as many bytes. What comes out is then determined: the fragments that `Divided`
describes. Otherwise the buffer is refused for the first of three reasons that applies, and the cut
never fails in another way. -/
theorem split_exact (layout : Layout) (size : Nat) (k : Key) (buffer : Bytes) :
    ((∃ fs, split layout size k buffer = .ok fs) ↔
      buffer ≠ [] ∧ 1 ≤ size ∧ size ≤ 32767 ∧ buffer.length ≤ 32767 * size) ∧
    (∀ fs, split layout size k buffer = .ok fs ↔
      Divisible size buffer ∧ ∃ header data, fs = header :: data ∧
        Divided layout size k buffer header data) ∧
    ∀ e, split layout size k buffer = .error e ↔
      ∃ why, e = .error why ∧ Refusal size buffer why := by
  refine ⟨⟨?_, ?_⟩, fun fs => ⟨fun h => ?_, ?_⟩, fun e => split_eq_error⟩
  · rintro ⟨fs, h⟩
    obtain ⟨hb, hone, hmax, hroom⟩ := divisible_of_split h
    exact ⟨hb, hone, hmax, hroom⟩
  · rintro ⟨hb, hone, hmax, hroom⟩
    exact ⟨_, Divisible.split_eq ⟨hb, hone, hmax, hroom⟩ layout k⟩
  · have hdivisible := divisible_of_split h
    obtain ⟨header, data, hframed, hdivided⟩ := hdivisible.divided layout k
    rw [hdivisible.split_eq layout k] at h
    exact ⟨hdivisible, header, data, (Except.ok.inj h).symm.trans hframed, hdivided⟩
  · rintro ⟨hdivisible, header, data, rfl, hdivided⟩
    obtain ⟨header', data', hframed, hdivided'⟩ := hdivisible.divided layout k
    obtain ⟨rfl, rfl⟩ := hdivided.unique hdivided'
    rw [hdivisible.split_eq, hframed]

end BundleLink.Bundle
