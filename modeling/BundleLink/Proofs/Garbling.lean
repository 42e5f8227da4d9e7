import BundleLink.Proofs.Joining
import BundleLink.Proofs.Scanning

/-!
# Wire forms with one byte changed

One byte of the wire forms of several fragments is in the wire form of one of them, its `Spot`.
Where another one of them starts, it is read as before. At the spot something else may be read: a
fragment that agrees with the old one in all fields that the byte is not in.

* `Fragment.Starts`      the positions where wire forms start;
* `Fragment.Spot`        the fragment that a byte is in;
* `Fragment.Spot.reads`  what is read at such a position, after the byte was changed;
* `Fragment.Garbled`     the fragment that is read at the spot;
* `Fragment.exists_rewritten`  a byte that is in no field that says how to go on.
-/

namespace BundleLink

/-! ## bytes -/

namespace Bytes

/-- bytes that the changed one is not among -/
theorem window_set (bs : Bytes) {a n r : Nat} (h : r < a ∨ a + n ≤ r) (b : UInt8) :
    ((bs.set r b).drop a).take n = (bs.drop a).take n := by
  rw [List.drop_set]
  split
  · rfl
  · rw [List.take_set, List.set_eq_of_length_le]
    rw [List.length_take]
    omega

theorem set_middle {front bs back : Bytes} {r : Nat} (h : front.length ≤ r)
    (h' : r < front.length + bs.length) (b : UInt8) :
    (front ++ (bs ++ back)).set r b = front ++ (bs.set (r - front.length) b ++ back) := by
  rw [List.set_append_right _ _ h, List.set_append_left _ _ (by omega)]

theorem total_le (bs : Bytes) : total bs ≤ 255 * bs.length := by
  induction bs with
  | nil => exact Nat.le_refl 0
  | cons b bs ih =>
    have hb := b.toNat_lt
    rw [total_cons, List.length_cons]
    omega

theorem eq_zero_of_total {bs : Bytes} (h : total bs = 0) : ∀ b ∈ bs, b = 0 := by
  induction bs with
  | nil => exact fun b hb => absurd hb List.not_mem_nil
  | cons c bs ih =>
    rw [total_cons] at h
    intro b hb
    rcases List.mem_cons.mp hb with rfl | hb
    · exact UInt8.toNat_inj.mp (Nat.eq_zero_of_add_eq_zero_right h)
    · exact ih (Nat.eq_zero_of_add_eq_zero_left h) b hb

/-- the sum tells whether one byte was changed -/
theorem set_eq_of_total {bs : Bytes} {r : Nat} {b : UInt8} (h : total (bs.set r b) = total bs) :
    bs.set r b = bs := by
  induction bs generalizing r with
  | nil => rfl
  | cons c bs ih =>
    cases r with
    | zero =>
      rw [List.set_cons_zero, total_cons, total_cons] at h
      rw [List.set_cons_zero, UInt8.toNat_inj.mp (Nat.add_right_cancel h)]
    | succ r =>
      rw [List.set_cons_succ, total_cons, total_cons] at h
      rw [List.set_cons_succ, ih (Nat.add_left_cancel h)]

end Bytes

namespace Fragment

variable {layout : Layout} {f g : Fragment} {fs gs before after : List Fragment} {i r n : Nat}
  {byte : UInt8} {more : Bytes}

/-! ## fields -/

/-- no other fragment is read from the same bytes -/
theorem eq_of_isPrefix {bs : Bytes} (hf : f.Fits layout) (hg : g.Fits layout)
    (h : f.wire layout <+: bs) (h' : g.wire layout <+: bs) : f = g := by
  obtain ⟨rest, rfl⟩ := h
  obtain ⟨rest', heq⟩ := h'
  have hread := Wire.extract_wire hf rest
  rw [← heq, Wire.extract_wire hg] at hread
  exact (Wire.Extraction.fragment.inj hread).1.symm

theorem number_field (layout : Layout) (f : Fragment) :
    ((f.wireHeader layout).drop 20).take 4 = BigEndian.put 4 f.number.toUInt32.toNat := by
  have hsplit : f.wireHeader layout =
      (magic ++ BigEndian.put 8 f.generation.toNat ++ BigEndian.put 8 f.message.toNat) ++
        (BigEndian.put 4 f.number.toUInt32.toNat ++ (BigEndian.put 2 f.length.toUInt16.toNat ++
          layout.putChecksum f.checksum)) := by
    simp only [wireHeader, List.append_assoc]
  rw [hsplit, List.drop_left' (by simp [magic]), List.take_left' (BigEndian.length_put _ _)]

theorem length_field (layout : Layout) (f : Fragment) :
    ((f.wireHeader layout).drop 24).take 2 = BigEndian.put 2 f.length.toUInt16.toNat := by
  have hsplit : f.wireHeader layout =
      (magic ++ BigEndian.put 8 f.generation.toNat ++ BigEndian.put 8 f.message.toNat ++
        BigEndian.put 4 f.number.toUInt32.toNat) ++ (BigEndian.put 2 f.length.toUInt16.toNat ++
          layout.putChecksum f.checksum) := by
    simp only [wireHeader, List.append_assoc]
  rw [hsplit, List.drop_left' (by simp [magic]), List.take_left' (BigEndian.length_put _ _)]

theorem checksum_field (f : Fragment) :
    ((f.wireHeader .checksummed).drop 26).take 8 = BigEndian.put 8 f.checksum.toNat := by
  rw [wireHeader, List.drop_left' (by simp [magic]), Layout.putChecksum,
    List.take_of_length_le (Nat.le_of_eq (BigEndian.length_put _ _))]

/-- number and length determine how many bytes a fragment carries -/
theorem length_bytes_eq (hf : f.WellFormed) (hg : g.WellFormed) (hnumber : g.number = f.number)
    (hlength : g.length = f.length) : g.bytes.length = f.bytes.length := by
  by_cases hzero : f.number = 0
  · rw [(Wire.bytes_of_zero f hf hzero).2, (Wire.bytes_of_zero g hg (hnumber.trans hzero)).2]
  · have hlf := (Wire.length_bytes f hf hzero).1
    have hlg := (Wire.length_bytes g hg (by rwa [hnumber])).1
    rw [hlength] at hlg
    omega

theorem length_bytes_le (hf : f.WellFormed) : f.bytes.length ≤ maxPayload := by
  by_cases hzero : f.number = 0
  · rw [(Wire.bytes_of_zero f hf hzero).2]
    exact Nat.zero_le _
  · have hlength := (Wire.length_bytes f hf hzero).1
    have hlt := f.length.toInt_lt
    rw [maxPayload]
    omega

/-! ## positions -/

/-- the wire form of one of the fragments starts at that position -/
def Starts (layout : Layout) (fs : List Fragment) (n : Nat) : Prop :=
  ∃ done f todo, fs = done ++ f :: todo ∧ n = (wires layout done).length

theorem length_wires_congr (h : gs.map (wireLength layout) = fs.map (wireLength layout)) :
    (wires layout gs).length = (wires layout fs).length := by
  induction fs generalizing gs with
  | nil => rw [List.map_eq_nil_iff.mp h]
  | cons f fs ih =>
    obtain ⟨g, gs, rfl, hlength, hrest⟩ := List.map_eq_cons_iff.mp h
    rw [wires_cons, wires_cons, List.length_append, List.length_append, length_wire, length_wire,
      hlength, ih hrest]

/-- wire forms begin with the marker, which has no zeros -/
theorem first_ne_zero {b : UInt8} {bs : Bytes} (h : b :: bs <+: wires layout fs) : b ≠ 0 := by
  obtain ⟨rest, hrest⟩ := h
  cases fs with
  | nil => cases hrest
  | cons f fs =>
    rw [wires_cons, wire, wireHeader, magic] at hrest
    rw [(List.cons.inj hrest).1]
    decide

/-- only the lengths matter to where wire forms start -/
theorem Starts.congr (h : Starts layout fs n)
    (hlengths : gs.map (wireLength layout) = fs.map (wireLength layout)) : Starts layout gs n := by
  obtain ⟨done, f, todo, rfl, rfl⟩ := h
  rw [List.map_append, List.map_cons] at hlengths
  obtain ⟨done', todo', rfl, hdone, htodo⟩ := List.map_eq_append_iff.mp hlengths
  obtain ⟨g, todo'', rfl, -, -⟩ := List.map_eq_cons_iff.mp htodo
  exact ⟨done', g, todo'', rfl, (length_wires_congr hdone).symm⟩

/-- scanning wire forms finds fragments where they start -/
theorem starts_of_mem_finds (hfs : ∀ f ∈ fs, f.Fits layout) {start : Nat} {x : Wire.Find}
    (hx : x ∈ Wire.finds start (Wire.scan layout (wires layout fs)).1) :
    ∃ n, x.offset = start + n ∧ Starts layout fs n := by
  induction fs generalizing start with
  | nil =>
    rw [wires_nil, Wire.scan_nil] at hx
    cases hx
  | cons f fs ih =>
    rw [wires_cons, Wire.scan_wire (hfs f List.mem_cons_self)] at hx
    rcases List.mem_cons.mp hx with rfl | hx
    · exact ⟨0, rfl, [], f, fs, rfl, rfl⟩
    · obtain ⟨n, hn, done, g, todo, rfl, rfl⟩ :=
        ih (fun g hg => hfs g (List.mem_cons_of_mem _ hg)) hx
      refine ⟨_, ?_, f :: done, g, todo, rfl, rfl⟩
      rw [hn, wires_cons, List.length_append, length_wire, Nat.add_assoc]

/-- The byte at `i` of the wire forms is byte `r` of the wire form of `f`. -/
structure Spot (layout : Layout) (fs : List Fragment) (i : Nat) (before : List Fragment)
    (f : Fragment) (after : List Fragment) (r : Nat) : Prop where
  split : fs = before ++ f :: after
  index : i = (wires layout before).length + r
  inside : r < f.wireLength layout

theorem exists_spot (h : i < (wires layout fs).length) :
    ∃ before f after r, Spot layout fs i before f after r := by
  induction fs generalizing i with
  | nil => cases h
  | cons f fs ih =>
    rw [wires_cons, List.length_append, length_wire] at h
    by_cases hi : i < f.wireLength layout
    · exact ⟨[], f, fs, i, rfl, (Nat.zero_add i).symm, hi⟩
    · obtain ⟨before, g, after, r, rfl, hindex, hinside⟩ := ih (i := i - f.wireLength layout)
        (by omega)
      refine ⟨f :: before, g, after, r, rfl, ?_, hinside⟩
      rw [wires_cons, List.length_append, length_wire]
      omega

theorem Spot.set (h : Spot layout fs i before f after r) (byte : UInt8) :
    (wires layout fs).set i byte =
      wires layout before ++ ((f.wire layout).set r byte ++ wires layout after) := by
  have hinside := h.inside
  rw [h.split, wires_append, wires_cons, h.index, Bytes.set_middle (Nat.le_add_right _ _)
    (by rw [length_wire]; omega), Nat.add_sub_cancel_left]

/-! ## the fragment at the spot -/

/-- The fragment that is read where the wire form of `f` was before byte `r` was changed. -/
structure Garbled (f : Fragment) (r : Nat) (byte : UInt8) (more : Bytes) (g : Fragment) : Prop where
  fits : g.Fits .checksummed
  there : g.wire .checksummed <+: (f.wire .checksummed).set r byte ++ more

namespace Garbled

theorem unique {g' : Fragment} (h : Garbled f r byte more g) (h' : Garbled f r byte more g') :
    g = g' := eq_of_isPrefix h.fits h'.fits h.there h'.there

theorem wireHeader_eq (h : Garbled f r byte more g) :
    g.wireHeader .checksummed = (f.wireHeader .checksummed).set r byte := by
  obtain ⟨rest, hrest⟩ := h.there
  have hlength := (f.length_wireHeader .checksummed).symm
  have htake := congrArg (List.take (Layout.headerLength .checksummed)) hrest
  rw [wire, wire, List.append_assoc, List.take_left' (length_wireHeader _ g),
    List.take_append_of_le_length (by rw [List.length_set, List.length_append]; omega),
    List.take_set, List.take_left' hlength.symm] at htake
  exact htake

/-- the bytes from the payload on -/
theorem bytes_isPrefix (h : Garbled f r byte more g) :
    g.bytes <+: ((f.wire .checksummed).set r byte).drop (Layout.headerLength .checksummed) ++
      more := by
  obtain ⟨rest, hrest⟩ := h.there
  have hdrop := congrArg (List.drop (Layout.headerLength .checksummed)) hrest
  rw [wire, List.append_assoc, List.drop_left' (length_wireHeader _ g),
    List.drop_append_of_le_length (by
      rw [List.length_set, length_wire, wireLength]
      exact Nat.le_add_right _ _)] at hdrop
  exact ⟨rest, hdrop⟩

theorem number_eq (h : Garbled f r byte more g) (hr : r < 20 ∨ 24 ≤ r) : g.number = f.number := by
  have hfield := Bytes.window_set (n := 4) (f.wireHeader .checksummed) hr byte
  rw [← h.wireHeader_eq, number_field, number_field] at hfield
  have hvalue := congrArg (fun bs => UInt32.ofNat (BigEndian.value bs)) hfield
  simp only [Wire.value_put_uint32] at hvalue
  have hnumber := congrArg UInt32.toInt32 hvalue
  rwa [Int32.toInt32_toUInt32, Int32.toInt32_toUInt32] at hnumber

theorem length_eq (h : Garbled f r byte more g) (hr : r < 24 ∨ 26 ≤ r) : g.length = f.length := by
  have hfield := Bytes.window_set (n := 2) (f.wireHeader .checksummed) hr byte
  rw [← h.wireHeader_eq, length_field, length_field] at hfield
  have hvalue := congrArg (fun bs => UInt16.ofNat (BigEndian.value bs)) hfield
  simp only [Wire.value_put_uint16] at hvalue
  have hlength := congrArg UInt16.toInt16 hvalue
  rwa [Int16.toInt16_toUInt16, Int16.toInt16_toUInt16] at hlength

theorem checksum_eq (h : Garbled f r byte more g) (hr : r < 26 ∨ 34 ≤ r) :
    g.checksum = f.checksum := by
  have hfield := Bytes.window_set (n := 8) (f.wireHeader .checksummed) hr byte
  rw [← h.wireHeader_eq, checksum_field, checksum_field] at hfield
  have hvalue := congrArg (fun bs => UInt64.ofNat (BigEndian.value bs)) hfield
  simpa only [Wire.value_put_uint64] using hvalue

/-- outside the payload, the fragment carries the bytes that stand there -/
theorem bytes_isPrefix_of_lt (h : Garbled f r byte more g) (hr : r < 34) :
    g.bytes <+: f.bytes ++ more := by
  have hbytes := h.bytes_isPrefix
  rwa [wire, List.set_append_left _ _ (by rw [length_wireHeader]; exact hr),
    List.drop_left' (by rw [List.length_set, length_wireHeader])] at hbytes

theorem bytes_isPrefix_of_le (h : Garbled f r byte more g) (hr : 34 ≤ r) :
    g.bytes <+: f.bytes.set (r - 34) byte ++ more := by
  have hbytes := h.bytes_isPrefix
  rw [wire, List.set_append_right _ _ (by rw [length_wireHeader]; exact hr),
    List.drop_left' (length_wireHeader _ f), length_wireHeader] at hbytes
  exact hbytes

/-- the same payload, if the announcement is the same -/
theorem bytes_eq_of_lt (h : Garbled f r byte more g) (hf : f.WellFormed) (hr : r < 34)
    (hnumber : g.number = f.number) (hlength : g.length = f.length) : g.bytes = f.bytes :=
  (List.prefix_of_prefix_length_le (h.bytes_isPrefix_of_lt hr) (List.prefix_append _ _)
    (Nat.le_of_eq (length_bytes_eq hf h.fits.1 hnumber hlength))).eq_of_length
    (length_bytes_eq hf h.fits.1 hnumber hlength)

theorem bytes_eq_of_le (h : Garbled f r byte more g) (hf : f.WellFormed) (hr : 34 ≤ r)
    (hnumber : g.number = f.number) (hlength : g.length = f.length) :
    g.bytes = f.bytes.set (r - 34) byte := by
  have hsize : g.bytes.length = (f.bytes.set (r - 34) byte).length := by
    rw [List.length_set, length_bytes_eq hf h.fits.1 hnumber hlength]
  exact (List.prefix_of_prefix_length_le (h.bytes_isPrefix_of_le hr) (List.prefix_append _ _)
    (Nat.le_of_eq hsize)).eq_of_length hsize

end Garbled

/-- a field of eight bytes can hold whatever stands there -/
theorem exists_set_field (front back : Bytes) (value : UInt64) (hr : front.length ≤ r)
    (hr' : r < front.length + 8) (byte : UInt8) :
    ∃ new : UInt64, front ++ (BigEndian.put 8 new.toNat ++ back) =
      (front ++ (BigEndian.put 8 value.toNat ++ back)).set r byte := by
  have hlength := BigEndian.length_put 8 value.toNat
  rw [Bytes.set_middle hr (by rw [hlength]; exact hr')]
  generalize r - front.length = j
  have hset : ((BigEndian.put 8 value.toNat).set j byte).length = 8 := by
    rw [List.length_set, hlength]
  have hput := Wire.put_uint64 (Nat.le_of_eq hset.symm)
  rw [List.take_of_length_le (Nat.le_of_eq hset)] at hput
  exact ⟨_, by rw [hput]⟩

/-- A change outside marker, number and length leaves a wire form. -/
theorem exists_rewritten (hf : f.Fits .checksummed) (hr : 4 ≤ r ∧ r < 20 ∨ 26 ≤ r)
    (hinside : r < f.wireLength .checksummed) (byte : UInt8) :
    ∃ g : Fragment, g.Fits .checksummed ∧
      g.wire .checksummed = (f.wire .checksummed).set r byte := by
  rcases (by omega : r < 12 ∧ 4 ≤ r ∨ r < 20 ∧ 12 ≤ r ∨ r < 34 ∧ 26 ≤ r ∨ 34 ≤ r) with
    ⟨hlt, hle⟩ | ⟨hlt, hle⟩ | ⟨hlt, hle⟩ | hle
  · -- generation
    have hsplit (h : Fragment) : h.wire .checksummed =
        magic ++ (BigEndian.put 8 h.generation.toNat ++ (BigEndian.put 8 h.message.toNat ++
          BigEndian.put 4 h.number.toUInt32.toNat ++ BigEndian.put 2 h.length.toUInt16.toNat ++
          BigEndian.put 8 h.checksum.toNat ++ h.bytes)) := by
      simp only [wire, wireHeader, Layout.putChecksum, List.append_assoc]
    obtain ⟨generation, hnew⟩ := exists_set_field magic _ f.generation hle hlt byte
    refine ⟨{ f with generation := generation }, hf, ?_⟩
    rw [hsplit, hsplit f, ← hnew]
    rfl
  · -- message
    have hsplit (h : Fragment) : h.wire .checksummed =
        (magic ++ BigEndian.put 8 h.generation.toNat) ++ (BigEndian.put 8 h.message.toNat ++
          (BigEndian.put 4 h.number.toUInt32.toNat ++ BigEndian.put 2 h.length.toUInt16.toNat ++
            BigEndian.put 8 h.checksum.toNat ++ h.bytes)) := by
      simp only [wire, wireHeader, Layout.putChecksum, List.append_assoc]
    have hfront : (magic ++ BigEndian.put 8 f.generation.toNat).length = 12 := by simp [magic]
    obtain ⟨message, hnew⟩ := exists_set_field (magic ++ BigEndian.put 8 f.generation.toNat) _
      f.message (hfront ▸ hle) (by rw [hfront]; exact hlt) byte
    refine ⟨{ f with message := message }, hf, ?_⟩
    rw [hsplit, hsplit f, ← hnew]
    rfl
  · -- checksum
    have hsplit (h : Fragment) : h.wire .checksummed =
        (magic ++ BigEndian.put 8 h.generation.toNat ++ BigEndian.put 8 h.message.toNat ++
          BigEndian.put 4 h.number.toUInt32.toNat ++ BigEndian.put 2 h.length.toUInt16.toNat) ++
          (BigEndian.put 8 h.checksum.toNat ++ h.bytes) := by
      simp only [wire, wireHeader, Layout.putChecksum, List.append_assoc]
    have hfront : (magic ++ BigEndian.put 8 f.generation.toNat ++
        BigEndian.put 8 f.message.toNat ++ BigEndian.put 4 f.number.toUInt32.toNat ++
          BigEndian.put 2 f.length.toUInt16.toNat).length = 26 := by simp [magic]
    obtain ⟨checksum, hnew⟩ := exists_set_field _ f.bytes f.checksum (hfront ▸ hle)
      (by rw [hfront]; exact hlt) byte
    refine ⟨{ f with checksum := checksum }, ⟨hf.1, fun hplain => by cases hplain⟩, ?_⟩
    rw [hsplit, hsplit f, ← hnew]
    rfl
  · -- payload
    obtain ⟨generation, message, number, length, checksum, payload⟩ := f
    cases payload with
    | none => exact absurd (show r < 34 from hinside) (Nat.not_lt.mpr hle)
    | some bytes =>
      refine ⟨⟨generation, message, number, length, checksum, some (bytes.set (r - 34) byte)⟩,
        ⟨⟨hf.1.1, hf.1.2.1, ?_⟩, fun hplain => by cases hplain⟩, ?_⟩
      · rw [List.length_set]
        exact hf.1.2.2
      · rw [wire, wire, List.set_append_right _ _ (by rw [length_wireHeader]; exact hle),
          length_wireHeader]
        rfl

/-! ## what is read -/

/-- What is read where a fragment starts, after one byte was changed: that fragment, or at the spot
one that agrees with it in all fields but one. -/
theorem Spot.reads (h : Spot .checksummed fs i before f after r)
    (hfs : ∀ f ∈ fs, f.Fits .checksummed) {x : Wire.Find}
    (hx : x.Stands .checksummed ((wires .checksummed fs).set i byte)) {done todo : List Fragment}
    (hsplit : fs = done ++ g :: todo) (hoffset : x.offset = (wires .checksummed done).length) :
    x.fragment = g ∧ g ∈ before ++ after ∨
      done = before ∧ Garbled f r byte (wires .checksummed after) x.fragment := by
  have hthere := hx.there
  rw [h.set] at hthere
  -- a wire form that stands behind bytes as many as there are in front of `g` is that of `g`
  have hsame (front back : Bytes) (hfront : front.length = (wires .checksummed done).length)
      (hbytes : wires .checksummed before ++ ((f.wire .checksummed).set r byte ++
        wires .checksummed after) = front ++ (g.wire .checksummed ++ back)) : x.fragment = g := by
    rw [hbytes, hoffset, ← hfront, List.drop_left] at hthere
    refine eq_of_isPrefix hx.fits (hfs g ?_) hthere (List.prefix_append _ _)
    rw [hsplit]
    exact List.mem_append_right _ List.mem_cons_self
  have hspot (hdone : done = before) : Garbled f r byte (wires .checksummed after) x.fragment := by
    rw [hoffset, hdone, List.drop_left] at hthere
    exact ⟨hx.fits, hthere⟩
  rw [h.split] at hsplit
  rcases List.append_eq_append_iff.mp hsplit with ⟨more, rfl, hmore⟩ | ⟨more, rfl, hmore⟩
  · cases more with
    | nil => exact .inr ⟨List.append_nil _, hspot (List.append_nil _)⟩
    | cons f' more =>
      rw [List.cons_append] at hmore
      obtain ⟨rfl, rfl⟩ := List.cons.inj hmore
      refine .inl ⟨hsame (wires .checksummed before ++ ((f.wire .checksummed).set r byte ++
        wires .checksummed more)) (wires .checksummed todo) ?_ ?_, by simp⟩
      · simp only [wires_append, wires_cons, List.length_append, List.length_set]
      · simp only [wires_append, wires_cons, List.append_assoc]
  · cases more with
    | nil => exact .inr ⟨(List.append_nil _).symm, hspot (List.append_nil _).symm⟩
    | cons g' more =>
      rw [List.cons_append] at hmore
      obtain ⟨rfl, rfl⟩ := List.cons.inj hmore
      refine .inl ⟨hsame (wires .checksummed done) (wires .checksummed more ++
        ((f.wire .checksummed).set r byte ++ wires .checksummed after)) rfl ?_, by simp⟩
      simp only [wires_append, wires_cons, List.append_assoc]

/-- After a change outside marker, number and length, fragments are found only where they start. -/
theorem Spot.starts (h : Spot .checksummed fs i before f after r)
    (hfs : ∀ f ∈ fs, f.Fits .checksummed) (hr : 4 ≤ r ∧ r < 20 ∨ 26 ≤ r) {x : Wire.Find}
    (hx : x ∈ Wire.finds 0
      (Wire.scan .checksummed ((wires .checksummed fs).set i byte)).1) :
    Starts .checksummed fs x.offset := by
  have hmem {y : Fragment} (hy : y ∈ before ++ f :: after) : y.Fits .checksummed :=
    hfs y (h.split ▸ hy)
  obtain ⟨g, hg, hwire⟩ := exists_rewritten (hmem (by simp)) hr h.inside byte
  have hall : ∀ y ∈ before ++ g :: after, y.Fits .checksummed := by
    intro y hy
    rcases List.mem_append.mp hy with hy | hy
    · exact hmem (List.mem_append_left _ hy)
    · rcases List.mem_cons.mp hy with rfl | hy
      · exact hg
      · exact hmem (List.mem_append_right _ (List.mem_cons_of_mem _ hy))
  rw [h.set, ← hwire, ← wires_cons, ← wires_append] at hx
  obtain ⟨n, hn, hstarts⟩ := starts_of_mem_finds hall hx
  have hlength := congrArg List.length hwire
  rw [List.length_set, length_wire, length_wire] at hlength
  rw [hn, Nat.zero_add]
  refine hstarts.congr ?_
  rw [h.split, List.map_append, List.map_append, List.map_cons, List.map_cons, hlength]

end Fragment

end BundleLink
