import BundleLink.Wire.Scan

/-!
# Reading the wire form back

Bytes begin in one of four ways (`Front`): there are too few of them for a marker, or no marker is
there, or a marker but not a whole header, or the header of exactly one fragment. In the last case
its number and length alone say how the extraction ends (`extractFields_header`). So what
`Fragment.wire` writes is what `Wire.extract` reads, at the front of any bytes, and a proper part of
it is recognised as such. Scanning the first bytes of a sequence of wire forms yields the fragments
that are there completely, in order, and leaves the part of the next one.

* `Fragment.Fits`      the fragment loses nothing on the wire;
* `Fragment.carrying`  a fragment with its header and other bytes;
* `front`              how bytes begin;
* `extract_wire`       one wire form with anything behind it;
* `extract_cut`        one wire form, cut short;
* `scan_wires`         the first bytes of several wire forms.
-/

namespace BundleLink

/-- The fragment obeys the rules, and it has no checksum where the layout has no room for one. -/
def Fragment.Fits (layout : Layout) (f : Fragment) : Prop :=
  f.WellFormed ∧ (layout = .plain → f.checksum = 0)

/-- the same header in front of the given bytes, which are none if the number is 0 -/
def Fragment.carrying (f : Fragment) (bytes : Bytes) : Fragment :=
  { f with payload := if f.number = 0 then none else some bytes }

namespace Wire

/-! ## the fields -/

theorem take_put_append (k n : Nat) (bs : Bytes) :
    (BigEndian.put k n ++ bs).take k = BigEndian.put k n :=
  List.take_left' (BigEndian.length_put k n)

theorem drop_put_append (k n : Nat) (bs : Bytes) : (BigEndian.put k n ++ bs).drop k = bs :=
  List.drop_left' (BigEndian.length_put k n)

theorem value_put_uint64 (x : UInt64) :
    UInt64.ofNat (BigEndian.value (BigEndian.put 8 x.toNat)) = x := by
  have hlt : x.toNat < BigEndian.weight 8 := x.toNat_lt
  rw [BigEndian.value_put, Nat.mod_eq_of_lt hlt, UInt64.ofNat_toNat]

theorem value_put_uint32 (x : UInt32) :
    UInt32.ofNat (BigEndian.value (BigEndian.put 4 x.toNat)) = x := by
  have hlt : x.toNat < BigEndian.weight 4 := x.toNat_lt
  rw [BigEndian.value_put, Nat.mod_eq_of_lt hlt, UInt32.ofNat_toNat]

theorem value_put_uint16 (x : UInt16) :
    UInt16.ofNat (BigEndian.value (BigEndian.put 2 x.toNat)) = x := by
  have hlt : x.toNat < BigEndian.weight 2 := x.toNat_lt
  rw [BigEndian.value_put, Nat.mod_eq_of_lt hlt, UInt16.ofNat_toNat]

theorem put_value_take {k : Nat} {bs : Bytes} (h : k ≤ bs.length) :
    BigEndian.put k (BigEndian.value (bs.take k)) = bs.take k := by
  have hput := BigEndian.put_value (bs.take k)
  rwa [List.length_take_of_le h] at hput

theorem value_take_lt {k : Nat} {bs : Bytes} (h : k ≤ bs.length) :
    BigEndian.value (bs.take k) < BigEndian.weight k := by
  have hlt := BigEndian.value_lt (bs.take k)
  rwa [List.length_take_of_le h] at hlt

theorem put_uint64 {bs : Bytes} (h : 8 ≤ bs.length) :
    BigEndian.put 8 (UInt64.ofNat (BigEndian.value (bs.take 8))).toNat = bs.take 8 := by
  rw [UInt64.toNat_ofNat_of_lt' (value_take_lt h), put_value_take h]

theorem put_uint32 {bs : Bytes} (h : 4 ≤ bs.length) :
    BigEndian.put 4 (UInt32.ofNat (BigEndian.value (bs.take 4))).toNat = bs.take 4 := by
  rw [UInt32.toNat_ofNat_of_lt' (value_take_lt h), put_value_take h]

theorem put_uint16 {bs : Bytes} (h : 2 ≤ bs.length) :
    BigEndian.put 2 (UInt16.ofNat (BigEndian.value (bs.take 2))).toNat = bs.take 2 := by
  rw [UInt16.toNat_ofNat_of_lt' (value_take_lt h), put_value_take h]

theorem getChecksum_put {layout : Layout} {checksum : UInt64}
    (hplain : layout = .plain → checksum = 0) (bs : Bytes) :
    layout.getChecksum (layout.putChecksum checksum ++ bs) = .ok (checksum, bs) := by
  cases layout with
  | plain =>
    rw [hplain rfl]
    rfl
  | checksummed =>
    have enough : (BigEndian.put 8 checksum.toNat ++ bs).holds 8 = true := by
      rw [Bytes.holds_iff, List.length_append, BigEndian.length_put]
      omega
    rw [Layout.putChecksum, Layout.getChecksum, if_pos enough, take_put_append, drop_put_append,
      value_put_uint64]

/-- bytes that are long enough begin with the checksum field of some checksum -/
theorem exists_checksum (layout : Layout) {bs : Bytes} (h : layout.checksumLength ≤ bs.length) :
    ∃ checksum tail, (layout = .plain → checksum = 0) ∧
      layout.putChecksum checksum ++ tail = bs := by
  cases layout with
  | plain => exact ⟨0, bs, fun _ => rfl, rfl⟩
  | checksummed =>
    refine ⟨UInt64.ofNat (BigEndian.value (bs.take 8)), bs.drop 8, nofun, ?_⟩
    rw [Layout.putChecksum, put_uint64 h, List.take_append_drop]

theorem length_bytes (f : Fragment) (hf : f.WellFormed) (hn : f.number ≠ 0) :
    f.length.toInt = f.bytes.length ∧ f.payload = some f.bytes := by
  obtain ⟨g, m, n, l, c, p⟩ := f
  cases p with
  | none =>
    have h0 : n.toInt = 0 := hf.2
    exact absurd (Int32.toInt_inj.mp (h0.trans Int32.toInt_zero.symm)) hn
  | some bs => exact ⟨hf.2.2, rfl⟩

theorem bytes_of_zero (f : Fragment) (hf : f.WellFormed) (hn : f.number = 0) :
    f.payload = none ∧ f.bytes = [] := by
  obtain ⟨g, m, n, l, c, p⟩ := f
  cases p with
  | none => exact ⟨rfl, rfl⟩
  | some bs => exact absurd (congrArg Int32.toInt hn) hf.2.1

theorem number_not_neg (f : Fragment) (hf : f.WellFormed) : ¬ f.number < 0 := by
  intro h
  have h1 := Int32.lt_iff_toInt_lt.mp h
  have h2 := hf.1
  rw [Int32.toInt_zero] at h1
  omega

theorem announced_eq (f : Fragment) (hf : f.WellFormed) :
    announced f.number f.length = .ok f.bytes.length := by
  unfold announced
  rw [if_neg (number_not_neg f hf)]
  by_cases hn : f.number = 0
  · rw [if_pos hn, (bytes_of_zero f hf hn).2]
    rfl
  · have hl := (length_bytes f hf hn).1
    have hpos : ¬ f.length < 0 := by
      intro h
      have h1 := Int16.lt_iff_toInt_lt.mp h
      rw [Int16.toInt_zero] at h1
      omega
    rw [if_neg hn, if_neg hpos, Width.payloadLength, hl, Int.toNat_natCast]

/-! ## a header and its bytes -/

section

variable {f : Fragment} {bs : Bytes}

theorem carrying_bytes (hf : f.WellFormed) : f.carrying f.bytes = f := by
  have hpayload : (if f.number = 0 then none else some f.bytes) = f.payload := by
    by_cases hn : f.number = 0
    · rw [if_pos hn, (bytes_of_zero f hf hn).1]
    · rw [if_neg hn, (length_bytes f hf hn).2]
  rw [Fragment.carrying, hpayload]

/-- As many bytes as the header announces make a fragment with it. -/
theorem wellFormed_carrying (h : announced f.number f.length = .ok bs.length) :
    (f.carrying bs).WellFormed := by
  rw [announced] at h
  split at h
  · cases h
  · rename_i hnonneg
    have hsign : 0 ≤ f.number.toInt := by
      rw [Int32.lt_iff_toInt_lt, Int32.toInt_zero] at hnonneg
      omega
    refine ⟨hsign, ?_⟩
    rw [Fragment.carrying]
    dsimp only
    by_cases hn : f.number = 0
    · rw [if_pos hn, hn]
      exact Int32.toInt_zero
    · rw [if_neg hn] at h ⊢
      refine ⟨fun h0 => hn (Int32.toInt_inj.mp (h0.trans Int32.toInt_zero.symm)), ?_⟩
      split at h
      · cases h
      · rename_i hlength
        have hcount : f.length.toInt.toNat = bs.length := Except.ok.inj h
        rw [Int16.lt_iff_toInt_lt, Int16.toInt_zero] at hlength
        omega

theorem bytes_carrying (h : announced f.number f.length = .ok bs.length) :
    (f.carrying bs).bytes = bs := by
  rw [Fragment.carrying, Fragment.bytes]
  dsimp only
  by_cases hn : f.number = 0
  · rw [announced, hn] at h
    have hnone : 0 = bs.length := Except.ok.inj h
    rw [if_pos hn, List.length_eq_zero_iff.mp hnone.symm]
    rfl
  · rw [if_neg hn]
    rfl

theorem make_eq (hf : f.WellFormed) :
    Fragment.make f.generation f.message f.number f.length f.checksum f.payload = .ok f := by
  unfold Fragment.make
  rw [if_neg (number_not_neg f hf)]
  by_cases hn : f.number = 0
  · rw [if_pos hn, (bytes_of_zero f hf hn).1]
    obtain ⟨g, m, n, l, c, p⟩ := f
    have hp : p = none := (bytes_of_zero _ hf hn).1
    rw [hp]
  · obtain ⟨hl, hp⟩ := length_bytes f hf hn
    rw [if_neg hn, hp]
    show (if _ then _ else _) = _
    rw [if_pos hl]
    obtain ⟨g, m, n, l, c, p⟩ := f
    rw [← hp]

end

/-! ## how bytes begin -/

/-- Bytes that begin with a marker and are long enough begin with the header of some fragment. -/
theorem exists_header {layout : Layout} {raw : Bytes} (hmagic : raw.take 4 = magic)
    (hlen : layout.headerLength ≤ raw.length) :
    ∃ (f : Fragment) (tail : Bytes), (layout = .plain → f.checksum = 0) ∧
      f.wireHeader layout ++ tail = raw := by
  rw [Layout.headerLength, Layout.baseLength] at hlen
  have hchecksum : layout.checksumLength ≤ (raw.drop 26).length := by
    rw [List.length_drop]
    omega
  obtain ⟨checksum, tail, hplain, hend⟩ := exists_checksum layout hchecksum
  -- the fields, one behind the other, are the bytes again
  have h24 : (raw.drop 24).take 2 ++ raw.drop 26 = raw.drop 24 := by
    rw [← List.drop_drop (i := 2) (j := 24), List.take_append_drop]
  have h20 : (raw.drop 20).take 4 ++ raw.drop 24 = raw.drop 20 := by
    rw [← List.drop_drop (i := 4) (j := 20), List.take_append_drop]
  have h12 : (raw.drop 12).take 8 ++ raw.drop 20 = raw.drop 12 := by
    rw [← List.drop_drop (i := 8) (j := 12), List.take_append_drop]
  have h4 : (raw.drop 4).take 8 ++ raw.drop 12 = raw.drop 4 := by
    rw [← List.drop_drop (i := 8) (j := 4), List.take_append_drop]
  refine ⟨⟨UInt64.ofNat (BigEndian.value ((raw.drop 4).take 8)),
    UInt64.ofNat (BigEndian.value ((raw.drop 12).take 8)),
    (UInt32.ofNat (BigEndian.value ((raw.drop 20).take 4))).toInt32,
    (UInt16.ofNat (BigEndian.value ((raw.drop 24).take 2))).toInt16, checksum, none⟩, tail,
    hplain, ?_⟩
  rw [Fragment.wireHeader]
  simp only [UInt32.toUInt32_toInt32, UInt16.toUInt16_toInt16]
  rw [put_uint64 (by rw [List.length_drop]; omega), put_uint64 (by rw [List.length_drop]; omega),
    put_uint32 (by rw [List.length_drop]; omega), put_uint16 (by rw [List.length_drop]; omega),
    ← hmagic]
  simp only [List.append_assoc]
  rw [hend, h24, h20, h12, h4, List.take_append_drop]

/-- How bytes begin: there are too few of them for a marker, no marker is there, a marker but not a
whole header, or a header. -/
inductive Front (layout : Layout) : Bytes → Prop where
  | short {raw : Bytes} : raw.length < 4 → Front layout raw
  | unmarked {raw : Bytes} : 4 ≤ raw.length → raw.take 4 ≠ magic → Front layout raw
  | begun {raw : Bytes} : raw.take 4 = magic → raw.length < layout.headerLength → Front layout raw
  | header (f : Fragment) (tail : Bytes) : (layout = .plain → f.checksum = 0) →
      Front layout (f.wireHeader layout ++ tail)

theorem front (layout : Layout) (raw : Bytes) : Front layout raw := by
  rcases Nat.lt_or_ge raw.length 4 with hshort | hfour
  · exact .short hshort
  · by_cases hmagic : raw.take 4 = magic
    · rcases Nat.lt_or_ge raw.length layout.headerLength with hbegun | hlen
      · exact .begun hmagic hbegun
      · obtain ⟨f, tail, hplain, rfl⟩ := exists_header hmagic hlen
        exact .header f tail hplain
    · exact .unmarked hfour hmagic

theorem take_wireHeader (layout : Layout) (f : Fragment) (tail : Bytes) :
    (f.wireHeader layout ++ tail).take 4 = magic := by
  simp only [Fragment.wireHeader, List.append_assoc]
  exact List.take_left' rfl

/-! ## one fragment -/

theorem extract_short {raw : Bytes} (layout : Layout) (h : raw.length < 4) :
    extract layout raw = .incomplete := by
  have hholds : raw.holds 4 = false := by
    rw [Bool.eq_false_iff, Ne, Bytes.holds_iff]
    omega
  rw [extract, hholds]
  rfl

theorem extract_unmarked {raw : Bytes} (layout : Layout) (hlen : 4 ≤ raw.length)
    (h : raw.take 4 ≠ magic) :
    extract layout raw = .malformed (resync raw) (.badMagic (raw.take 4)) := by
  have hholds := (Bytes.holds_iff 4 raw).mpr hlen
  rw [extract, hholds, if_neg (by simp), if_pos h]

theorem extract_begun {layout : Layout} {raw : Bytes} (hmagic : raw.take 4 = magic)
    (hlen : raw.length < layout.headerLength) : extract layout raw = .incomplete := by
  have hholds : raw.holds layout.headerLength = false := by
    rw [Bool.eq_false_iff, Ne, Bytes.holds_iff]
    omega
  rw [extract, hmagic, hholds]
  simp

theorem extract_header {layout : Layout} {f : Fragment} (tail : Bytes) :
    extract layout (f.wireHeader layout ++ tail) =
      extractFields layout (f.wireHeader layout ++ tail) := by
  have hlen : layout.headerLength ≤ (f.wireHeader layout ++ tail).length := by
    rw [List.length_append, Fragment.length_wireHeader]
    omega
  have h4 : 4 ≤ layout.headerLength := by cases layout <;> decide
  have holds4 := (Bytes.holds_iff 4 (f.wireHeader layout ++ tail)).mpr (by omega)
  have holdsAll := (Bytes.holds_iff layout.headerLength (f.wireHeader layout ++ tail)).mpr hlen
  rw [extract, holds4, holdsAll, take_wireHeader]
  simp

/-- Behind a whole header it is its number and length that decide: they announce nothing that could
be there, or as many bytes as there are, or more. -/
theorem extractFields_header {layout : Layout} {f : Fragment}
    (hplain : layout = .plain → f.checksum = 0) (tail : Bytes) :
    extractFields layout (f.wireHeader layout ++ tail) =
      match announced f.number f.length with
      | .error flaw => .malformed layout.headerLength flaw
      | .ok size =>
        if tail.holds size then
          .fragment (f.carrying (tail.take size)) (layout.headerLength + size)
        else .incomplete := by
  have d4 : (f.wireHeader layout ++ tail).drop 4 = BigEndian.put 8 f.generation.toNat
      ++ (BigEndian.put 8 f.message.toNat
      ++ (BigEndian.put 4 f.number.toUInt32.toNat
      ++ (BigEndian.put 2 f.length.toUInt16.toNat
      ++ (layout.putChecksum f.checksum ++ tail)))) := by
    simp only [Fragment.wireHeader, List.append_assoc]
    exact List.drop_left' rfl
  have d12 : (f.wireHeader layout ++ tail).drop 12 = BigEndian.put 8 f.message.toNat
      ++ (BigEndian.put 4 f.number.toUInt32.toNat
      ++ (BigEndian.put 2 f.length.toUInt16.toNat ++ (layout.putChecksum f.checksum ++ tail))) := by
    rw [show (12 : Nat) = 4 + 8 from rfl, ← List.drop_drop, d4, drop_put_append]
  have d20 : (f.wireHeader layout ++ tail).drop 20 = BigEndian.put 4 f.number.toUInt32.toNat
      ++ (BigEndian.put 2 f.length.toUInt16.toNat ++ (layout.putChecksum f.checksum ++ tail)) := by
    rw [show (20 : Nat) = 12 + 8 from rfl, ← List.drop_drop, d12, drop_put_append]
  have d24 : (f.wireHeader layout ++ tail).drop 24 = BigEndian.put 2 f.length.toUInt16.toNat
      ++ (layout.putChecksum f.checksum ++ tail) := by
    rw [show (24 : Nat) = 20 + 4 from rfl, ← List.drop_drop, d20, drop_put_append]
  have d26 : (f.wireHeader layout ++ tail).drop 26 = layout.putChecksum f.checksum ++ tail := by
    rw [show (26 : Nat) = 24 + 2 from rfl, ← List.drop_drop, d24, drop_put_append]
  unfold extractFields
  rw [d4, d12, d20, d24, d26, getChecksum_put hplain]
  simp only [take_put_append, value_put_uint64, value_put_uint32, value_put_uint16,
    Int32.toInt32_toUInt32, Int16.toInt16_toUInt16]
  cases hsize : announced f.number f.length with
  | error flaw => rfl
  | ok size =>
    dsimp only
    by_cases hholds : tail.holds size = true
    · have hcount := List.length_take_of_le ((Bytes.holds_iff size tail).mp hholds)
      have hmake := make_eq (wellFormed_carrying (hsize.trans (congrArg Except.ok hcount.symm)))
      rw [if_pos hholds, if_pos hholds]
      rw [Fragment.carrying] at hmake ⊢
      rw [hmake]
    · rw [if_neg hholds, if_neg hholds]

/-- bytes that start like `front` and are long enough start with all of it -/
theorem take_of_append_eq {raw later front back : Bytes} (h : raw ++ later = front ++ back)
    (hlen : front.length ≤ raw.length) : raw.take front.length = front := by
  have htake := congrArg (List.take front.length) h
  rw [List.take_append_of_le_length hlen, List.take_left] at htake
  exact htake

/-- a wire form is read as the fragment that was written, whatever stands behind it -/
theorem extract_wire {layout : Layout} {f : Fragment} (hf : f.Fits layout) (rest : Bytes) :
    extract layout (f.wire layout ++ rest) = .fragment f (f.wireLength layout) := by
  have hholds : (f.bytes ++ rest).holds f.bytes.length = true := by
    rw [Bytes.holds_iff, List.length_append]
    omega
  rw [Fragment.wire, List.append_assoc, extract_header, extractFields_header hf.2,
    announced_eq f hf.1]
  dsimp only
  rw [if_pos hholds, List.take_left, carrying_bytes hf.1]
  rfl

theorem extract_cut {layout : Layout} {f : Fragment} (hf : f.Fits layout) {raw later : Bytes}
    (hcut : raw ++ later = f.wire layout) (hlen : raw.length < f.wireLength layout) :
    extract layout raw = .incomplete := by
  by_cases hheader : layout.headerLength ≤ raw.length
  · -- the header is there, so the payload is cut
    have hsplit : raw = f.wireHeader layout ++ raw.drop layout.headerLength := by
      have htake := take_of_append_eq hcut
        (by rw [Fragment.length_wireHeader]; exact hheader)
      rw [Fragment.length_wireHeader] at htake
      rw [← htake, List.take_append_drop]
    have hshort : ¬ Bytes.holds f.bytes.length (raw.drop layout.headerLength) = true := by
      rw [Bytes.holds_iff, List.length_drop]
      rw [Fragment.wireLength] at hlen
      omega
    rw [hsplit, extract_header, extractFields_header hf.2, announced_eq f hf.1]
    exact if_neg hshort
  · by_cases h4 : 4 ≤ raw.length
    · rw [Fragment.wire, Fragment.wireHeader] at hcut
      simp only [List.append_assoc] at hcut
      exact extract_begun (take_of_append_eq hcut h4) (Nat.lt_of_not_le hheader)
    · exact extract_short layout (Nat.lt_of_not_le h4)

/-! ## several fragments -/

theorem scanFrom_incomplete {layout : Layout} {raw : Bytes} (acc : List Piece)
    (h : extract layout raw = .incomplete) : scanFrom layout acc raw = (acc.reverse, raw) := by
  rw [scanFrom]
  split
  · rfl
  · split <;> simp_all

theorem scanFrom_fragment {layout : Layout} {raw : Bytes} {f : Fragment} {n : Nat}
    (acc : List Piece) (hne : raw ≠ []) (h : extract layout raw = .fragment f n) :
    scanFrom layout acc raw = scanFrom layout (.fragment f n :: acc) (raw.drop n) := by
  rw [scanFrom, dif_neg hne]
  split <;> simp_all

theorem scanFrom_malformed {layout : Layout} {raw : Bytes} {n : Nat} {flaw : Flaw}
    (acc : List Piece) (hne : raw ≠ []) (h : extract layout raw = .malformed n flaw) :
    scanFrom layout acc raw = scanFrom layout (.skipped n flaw :: acc) (raw.drop n) := by
  rw [scanFrom, dif_neg hne]
  split <;> simp_all

/-- the pieces found so far stay in front of the others -/
theorem scanFrom_acc (layout : Layout) (acc : List Piece) (raw : Bytes) :
    scanFrom layout acc raw = (acc.reverse ++ (scan layout raw).1, (scan layout raw).2) := by
  induction h : raw.length using Nat.strongRecOn generalizing acc raw with
  | ind n ih =>
    rw [scan]
    by_cases hne : raw = []
    · simp [hne]
    · have hpos := List.length_pos_iff.mpr hne
      cases he : extract layout raw with
      | incomplete => simp [scanFrom_incomplete _ he]
      | fragment f k =>
        have hk := extract_fragment_pos he
        have hlt : (raw.drop k).length < n := by rw [List.length_drop]; omega
        rw [scanFrom_fragment acc hne he, scanFrom_fragment [] hne he, ih _ hlt _ _ rfl,
          ih _ hlt [_] _ rfl]
        simp
      | malformed k flaw =>
        have hk := extract_malformed_pos he
        have hlt : (raw.drop k).length < n := by rw [List.length_drop]; omega
        rw [scanFrom_malformed acc hne he, scanFrom_malformed [] hne he, ih _ hlt _ _ rfl,
          ih _ hlt [_] _ rfl]
        simp

/-- a fragment as the piece of its wire form -/
def whole (layout : Layout) (f : Fragment) : Piece := .fragment f (f.wireLength layout)

theorem scan_incomplete {layout : Layout} {raw : Bytes} (h : extract layout raw = .incomplete) :
    scan layout raw = ([], raw) := scanFrom_incomplete [] h

theorem scan_wire {layout : Layout} {f : Fragment} (hf : f.Fits layout) (rest : Bytes) :
    scan layout (f.wire layout ++ rest) =
      (whole layout f :: (scan layout rest).1, (scan layout rest).2) := by
  have hne : f.wire layout ++ rest ≠ [] := by
    rw [← List.length_pos_iff, List.length_append, Fragment.length_wire, Fragment.wireLength]
    have := headerLength_pos layout
    omega
  rw [scan, scanFrom_fragment [] hne (extract_wire hf rest), scanFrom_acc,
    List.drop_left' (Fragment.length_wire layout f)]
  rfl

/-- All wire forms together are scanned as a whole. -/
theorem scan_all {layout : Layout} {fs : List Fragment} (hfs : ∀ f ∈ fs, f.Fits layout) :
    scan layout (Fragment.wires layout fs) = (fs.map (whole layout), []) := by
  induction fs with
  | nil => exact scan_nil layout
  | cons f fs ih =>
    rw [Fragment.wires_cons, scan_wire (hfs f List.mem_cons_self),
      ih fun g hg => hfs g (List.mem_cons_of_mem f hg)]
    rfl

theorem fragments_whole (layout : Layout) (fs : List Fragment) :
    fragments (fs.map (whole layout)) = fs := by
  induction fs with
  | nil => rfl
  | cons f fs ih => exact congrArg (f :: ·) ih

theorem wires_eq_nil {layout : Layout} {fs : List Fragment} (h : Fragment.wires layout fs = []) :
    fs = [] := by
  cases fs with
  | nil => rfl
  | cons f fs =>
    have hlen := congrArg List.length h
    rw [Fragment.wires_cons, List.length_append, Fragment.length_wire, Fragment.wireLength,
      List.length_nil] at hlen
    have := headerLength_pos layout
    omega

/-- the bytes that are left tell how many fragments are -/
theorem eq_of_wires_eq {layout : Layout} {done done' todo todo' : List Fragment}
    (h : done ++ todo = done' ++ todo')
    (hwires : Fragment.wires layout todo = Fragment.wires layout todo') : todo = todo' := by
  rcases List.append_eq_append_iff.mp h with ⟨more, -, rfl⟩ | ⟨more, -, rfl⟩
  · rw [Fragment.wires_append, List.append_left_eq_self] at hwires
    rw [wires_eq_nil hwires]
    rfl
  · rw [Fragment.wires_append, List.self_eq_append_left] at hwires
    rw [wires_eq_nil hwires]
    rfl

theorem wireLength_le_wires {layout : Layout} {f : Fragment} {fs : List Fragment} (hf : f ∈ fs) :
    f.wireLength layout ≤ (Fragment.wires layout fs).length := by
  obtain ⟨before, after, rfl⟩ := List.append_of_mem hf
  rw [Fragment.wires_append, Fragment.wires_cons, List.length_append, List.length_append,
    Fragment.length_wire]
  omega

/-- What scanning the first bytes of a sequence of wire forms yields: the fragments `done`, and the
beginning `rest` of the wire forms of `todo`, which holds none of them completely. -/
structure Cut (layout : Layout) (raw later : Bytes) (done todo : List Fragment) (rest : Bytes) :
    Prop where
  scan_eq : scan layout raw = (done.map (whole layout), rest)
  rest_eq : rest ++ later = Fragment.wires layout todo
  short : ∀ f, todo.head? = some f → rest.length < f.wireLength layout

theorem scan_wires {layout : Layout} {fs : List Fragment} (hfs : ∀ f ∈ fs, f.Fits layout)
    {raw later : Bytes} (h : raw ++ later = Fragment.wires layout fs) :
    ∃ done todo rest, fs = done ++ todo ∧ Cut layout raw later done todo rest := by
  induction fs generalizing raw with
  | nil =>
    obtain ⟨rfl, hlater⟩ := List.append_eq_nil_iff.mp h
    exact ⟨[], [], [], rfl, scan_nil layout, by rw [hlater]; rfl, fun f hf => by cases hf⟩
  | cons f fs ih =>
    have hf := hfs f List.mem_cons_self
    rw [Fragment.wires_cons] at h
    by_cases hlen : f.wireLength layout ≤ raw.length
    · have htake := take_of_append_eq h (by rw [Fragment.length_wire]; exact hlen)
      rw [Fragment.length_wire] at htake
      have hraw : raw = f.wire layout ++ raw.drop (f.wireLength layout) := by
        rw [← htake, List.take_append_drop]
      have hnext : raw.drop (f.wireLength layout) ++ later = Fragment.wires layout fs := by
        rw [hraw, List.append_assoc] at h
        exact List.append_cancel_left h
      obtain ⟨done, todo, rest, hsplit, hcut⟩ :=
        ih (fun g hg => hfs g (List.mem_cons_of_mem _ hg)) hnext
      refine ⟨f :: done, todo, rest, by rw [hsplit]; rfl, ?_, hcut.rest_eq, hcut.short⟩
      rw [hraw, scan_wire hf, hcut.scan_eq]
      rfl
    · have hshort : raw.length < f.wireLength layout := Nat.lt_of_not_le hlen
      have hcut : raw ++ (f.wire layout).drop raw.length = f.wire layout := by
        have h1 := congrArg (List.take raw.length) h
        rw [List.take_left,
          List.take_append_of_le_length (by rw [Fragment.length_wire]; omega)] at h1
        calc raw ++ (f.wire layout).drop raw.length
            = (f.wire layout).take raw.length ++ (f.wire layout).drop raw.length := by rw [← h1]
          _ = f.wire layout := List.take_append_drop _ _
      refine ⟨[], f :: fs, raw, rfl, scan_incomplete (extract_cut hf hcut hshort), ?_, ?_⟩
      · rw [h, Fragment.wires_cons]
      · intro g hg
        rw [← Option.some.inj hg]
        exact hshort

end Wire

end BundleLink
