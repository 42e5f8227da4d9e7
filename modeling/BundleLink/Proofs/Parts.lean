import BundleLink.Bundle.Split
import BundleLink.Proofs.Acceptance
import BundleLink.Proofs.Wire

/-!
# The fragments of one bundle

What cutting a buffer yields, and that joining it gives the buffer back.

* `Bundle.dataFragment`, `Bundle.numbered`  the data fragments of pieces, written down directly;
* `Bundle.split_eq_ok`   when a buffer can be cut, and into what;
* `Bundle.sound_framed`  header and data fragments of pieces make up a bundle;
* `Bundle.join_split`    joining undoes cutting;
* `Bundle.Parts`         what is used of the fragments of a bundle elsewhere, and
  `Bundle.Parts.of_split`;
* `Parcel`               a buffer with its key and its fragments.
-/

namespace BundleLink

namespace Bundle

/-! ## pieces -/

theorem validSize_iff {size : Nat} :
    validSize size = true ↔ 1 ≤ size ∧ size ≤ Fragment.maxPayload := by
  simp [validSize, Nat.one_le_iff_ne_zero, Nat.pos_iff_ne_zero]

theorem length_pieces {size : Nat} (hs : 0 < size) (buffer : Bytes) :
    (pieces size buffer).length = pieceCount size buffer := by
  fun_induction pieces size buffer with
  | case1 buffer h ih =>
    have hpos : 0 < buffer.length := List.length_pos_iff.mpr h.2
    rw [List.length_cons, ih, pieceCount, pieceCount, List.length_drop]
    by_cases hle : buffer.length ≤ size
    · have h0 : buffer.length - size + size - 1 = size - 1 := by omega
      have h1 : buffer.length + size - 1 = buffer.length - 1 + size := by omega
      rw [h0, h1, Nat.div_eq_of_lt (by omega), Nat.add_div_right _ hs,
        Nat.div_eq_of_lt (by omega)]
    · have h1 : buffer.length + size - 1 = buffer.length - size + size - 1 + size := by omega
      rw [h1, Nat.add_div_right _ hs]
  | case2 buffer h =>
    have hb : buffer = [] := Decidable.not_not.mp fun hb => h ⟨hs, hb⟩
    rw [hb, pieceCount, List.length_nil, List.length_nil, Nat.div_eq_of_lt (by omega)]

theorem pieces_ne_nil {size : Nat} {buffer : Bytes} (hs : 0 < size) (hb : buffer ≠ []) :
    pieces size buffer ≠ [] := by
  rw [pieces_cons hs hb]
  exact List.cons_ne_nil _ _

theorem length_le_of_mem_pieces {size : Nat} {buffer piece : Bytes}
    (h : piece ∈ pieces size buffer) : piece.length ≤ size := by
  fun_induction pieces size buffer with
  | case1 buffer hb ih =>
    rcases List.mem_cons.mp h with rfl | h
    · exact List.length_take_le size buffer
    · exact ih h
  | case2 => cases h

/-! ## data fragments -/

def dataFragment (layout : Layout) (k : Key) (number : Nat) (piece : Bytes) : Fragment :=
  ⟨k.generation, k.message, Int32.ofNat number, Int16.ofNat piece.length, layout.checksumOf piece,
    some piece⟩

/-- the data fragments of pieces, numbered from `number` on -/
def numbered (layout : Layout) (k : Key) (number : Nat) : List Bytes → List Fragment
  | [] => []
  | piece :: rest => dataFragment layout k number piece :: numbered layout k (number + 1) rest

@[simp] theorem length_numbered (layout : Layout) (k : Key) (number : Nat) (ps : List Bytes) :
    (numbered layout k number ps).length = ps.length := by
  induction ps generalizing number with
  | nil => rfl
  | cons p ps ih => rw [numbered, List.length_cons, ih, List.length_cons]

theorem getElem?_numbered (layout : Layout) (k : Key) (number : Nat) (ps : List Bytes) (i : Nat) :
    (numbered layout k number ps)[i]? = ps[i]?.map (dataFragment layout k (number + i)) := by
  induction ps generalizing number i with
  | nil => rfl
  | cons p ps ih =>
    cases i with
    | zero => rfl
    | succ i =>
      rw [numbered, List.getElem?_cons_succ, ih, List.getElem?_cons_succ]
      congr 2
      omega

/-- the data fragment at a place carries the piece there -/
theorem piece_of_numbered {layout : Layout} {k : Key} {number i : Nat} {ps : List Bytes}
    {f : Fragment} (h : (numbered layout k number ps)[i]? = some f) :
    ∃ p, ps[i]? = some p ∧ f = dataFragment layout k (number + i) p := by
  rw [getElem?_numbered, Option.map_eq_some_iff] at h
  obtain ⟨p, hp, rfl⟩ := h
  exact ⟨p, hp, rfl⟩

theorem piece_of_mem_numbered {layout : Layout} {k : Key} {number : Nat} {ps : List Bytes}
    {f : Fragment} (h : f ∈ numbered layout k number ps) :
    ∃ i p, ps[i]? = some p ∧ f = dataFragment layout k (number + i) p := by
  obtain ⟨i, hi⟩ := List.mem_iff_getElem?.mp h
  exact ⟨i, piece_of_numbered hi⟩

theorem payloads_numbered (layout : Layout) (k : Key) (number : Nat) (ps : List Bytes) :
    payloads (numbered layout k number ps) = ps.flatten := by
  induction ps generalizing number with
  | nil => rfl
  | cons p ps ih =>
    rw [numbered, payloads_cons, ih, List.flatten_cons]
    rfl

theorem data_eq {layout : Layout} {k : Key} {number : Nat} {piece : Bytes} (h0 : 0 < number)
    (hn : number ≤ Width.maxInt32) (hp : piece.length ≤ Fragment.maxPayload) :
    Fragment.data k.generation k.message (Int32.ofNat number) piece (layout.checksumOf piece) =
      .ok (dataFragment layout k number piece) := by
  have hnumber : (Int32.ofNat number).toInt = number :=
    Int32.toInt_ofNat_of_lt (Nat.lt_of_le_of_lt hn (by decide))
  have hlength : (Int16.ofNat piece.length).toInt = piece.length :=
    Int16.toInt_ofNat_of_lt (Nat.lt_of_le_of_lt hp (by decide))
  have hneg : ¬ Int32.ofNat number < 0 := by
    intro h
    have h1 := Int32.lt_iff_toInt_lt.mp h
    rw [hnumber, Int32.toInt_zero] at h1
    omega
  have hzero : Int32.ofNat number ≠ 0 := by
    intro h
    have h1 := congrArg Int32.toInt h
    rw [hnumber, Int32.toInt_zero] at h1
    omega
  rw [Fragment.data, if_pos hp, Fragment.make, if_neg hneg, if_neg hzero]
  show (if _ then _ else _) = _
  rw [if_pos hlength]
  rfl

theorem dataFragments_eq {layout : Layout} {k : Key} {number : Nat} {ps : List Bytes}
    (h0 : 0 < number) (hn : number + ps.length ≤ Width.maxInt32)
    (hps : ∀ p ∈ ps, p.length ≤ Fragment.maxPayload) :
    dataFragments layout k number ps = .ok (numbered layout k number ps) := by
  induction ps generalizing number with
  | nil => rfl
  | cons p ps ih =>
    rw [List.length_cons] at hn
    have hrest : dataFragments layout k (number + 1) ps = .ok (numbered layout k (number + 1) ps) :=
      ih (by omega) (by omega) (fun q hq => hps q (List.mem_cons_of_mem _ hq))
    rw [dataFragments, Width.toInt32_of_le (by omega), hrest]
    show (Except.mapError _ (Fragment.data _ _ _ _ _) >>= _) = _
    rw [data_eq h0 (by omega) (hps p List.mem_cons_self)]
    rfl

/-! ## the whole bundle -/

/-- header and data fragments of pieces -/
def framed (layout : Layout) (k : Key) (ps : List Bytes) : List Fragment :=
  Fragment.header k.generation k.message (Int16.ofNat ps.length)
    (totalChecksum (numbered layout k 1 ps)) :: numbered layout k 1 ps

section

variable {layout : Layout} {size : Nat} {k : Key} {buffer : Bytes}

theorem split_nil : split layout size k [] = .error (.error .emptyBuffer) := rfl

theorem split_badSize (hb : buffer ≠ []) (hsize : validSize size = false) :
    split layout size k buffer = .error (.error (.invalidFragmentSize size)) := by
  have hempty : buffer.isEmpty = false := by simpa [List.isEmpty_iff] using hb
  simp [split, hempty, hsize, throw, throwThe, MonadExceptOf.throw, bind, Except.bind]

theorem split_tooMany (hb : buffer ≠ []) (hsize : validSize size = true)
    (hmany : Fragment.maxCount < pieceCount size buffer) :
    split layout size k buffer = .error (.error (.tooManyFragments buffer.length size)) := by
  have hempty : buffer.isEmpty = false := by simpa [List.isEmpty_iff] using hb
  simp [split, hempty, hsize, hmany, throw, throwThe, MonadExceptOf.throw, bind, Except.bind]

theorem split_framed (hb : buffer ≠ []) (hsize : validSize size = true)
    (hcount : pieceCount size buffer ≤ Fragment.maxCount) :
    split layout size k buffer = .ok (framed layout k (pieces size buffer)) := by
  have hempty : buffer.isEmpty = false := by simpa [List.isEmpty_iff] using hb
  have hlimits := validSize_iff.mp hsize
  have hlength := length_pieces hlimits.1 buffer
  have hdata : dataFragments layout k 1 (pieces size buffer) =
      .ok (numbered layout k 1 (pieces size buffer)) := by
    apply dataFragments_eq Nat.one_pos
    · have : Fragment.maxCount + 1 ≤ Width.maxInt32 := by decide
      omega
    · intro p hp
      exact Nat.le_trans (length_le_of_mem_pieces hp) hlimits.2
  have hnarrow : Width.toInt16 (pieceCount size buffer) =
      .ok (Int16.ofNat (pieces size buffer).length) := by
    rw [hlength]
    exact Width.toInt16_of_le hcount
  simp [split, hempty, hsize, Nat.not_lt_of_le hcount, hdata, hnarrow, framed, bind, Except.bind,
    pure, Except.pure]

/-- A buffer is cut if it is not empty, the size is one that fragments may have, and there are not
too many pieces. -/
theorem split_eq_ok {fs : List Fragment} : split layout size k buffer = .ok fs ↔
      (buffer ≠ [] ∧ validSize size = true ∧ (pieces size buffer).length ≤ Fragment.maxCount) ∧
        fs = framed layout k (pieces size buffer) := by
  by_cases hb : buffer = []
  · simp [hb, split_nil]
  · cases hsize : validSize size with
    | false => simp [split_badSize hb hsize]
    | true =>
      have hpos : 0 < size := (validSize_iff.mp hsize).1
      rw [length_pieces hpos]
      by_cases hmany : Fragment.maxCount < pieceCount size buffer
      · simp [split_tooMany hb hsize hmany, Nat.not_le_of_lt hmany]
      · have hcount := Nat.le_of_not_lt hmany
        simp [split_framed hb hsize hcount, hb, hcount, eq_comm]

/-- a buffer that can not be cut is refused -/
theorem split_ne_fault {e : Fault} : split layout size k buffer ≠ .error (.fault e) := by
  by_cases hb : buffer = []
  · simp [hb, split_nil]
  · cases hsize : validSize size with
    | false => simp [split_badSize hb hsize]
    | true =>
      by_cases hmany : Fragment.maxCount < pieceCount size buffer
      · simp [split_tooMany hb hsize hmany]
      · simp [split_framed hb hsize (Nat.le_of_not_lt hmany)]

end

/-- no fragment of a bundle is longer than a header and as many bytes as fragments may have -/
theorem wireLength_le_of_split {layout : Layout} {size : Nat} {k : Key} {buffer : Bytes}
    {fs : List Fragment} (h : split layout size k buffer = .ok fs) :
    ∀ f ∈ fs, f.wireLength layout ≤ size + layout.headerLength := by
  obtain ⟨-, rfl⟩ := split_eq_ok.mp h
  intro f hf
  have hbytes : f.bytes.length ≤ size := by
    rcases List.mem_cons.mp hf with rfl | hf
    · exact Nat.zero_le size
    · obtain ⟨i, p, hp, rfl⟩ := piece_of_mem_numbered hf
      exact length_le_of_mem_pieces (List.mem_of_getElem? hp)
  rw [Fragment.wireLength]
  omega

/-! ## joining -/

theorem number_framed {layout : Layout} {k : Key} {ps : List Bytes} {i : Nat} {f : Fragment}
    (h : (framed layout k ps)[i]? = some f) : f.number = Int32.ofNat i := by
  cases i with
  | zero =>
    rw [← Option.some.inj h]
    rfl
  | succ i =>
    rw [framed, List.getElem?_cons_succ] at h
    obtain ⟨p, -, rfl⟩ := piece_of_numbered h
    rw [Nat.add_comm]
    rfl

theorem key_framed {layout : Layout} {k : Key} {ps : List Bytes} {f : Fragment}
    (h : f ∈ framed layout k ps) : f.key = k := by
  rcases List.mem_cons.mp h with rfl | h
  · rfl
  · obtain ⟨i, p, -, rfl⟩ := piece_of_mem_numbered h
    rfl

/-- Header and data fragments of pieces make up a bundle. -/
theorem sound_framed {layout : Layout} {k : Key} {ps : List Bytes} (hps : ps ≠ [])
    (hlen : ps.length ≤ Fragment.maxCount) :
    Sound layout (Fragment.header k.generation k.message (Int16.ofNat ps.length)
      (totalChecksum (numbered layout k 1 ps))) (numbered layout k 1 ps) := by
  have hcount : (Int16.ofNat ps.length).toInt = ps.length :=
    Int16.toInt_ofNat_of_lt (Nat.lt_of_le_of_lt hlen (by decide))
  have hdata {f : Fragment} (hf : f ∈ numbered layout k 1 ps) :
      f.message = k.message ∧ f.checksum = layout.checksumOf f.bytes := by
    obtain ⟨i, p, -, rfl⟩ := piece_of_mem_numbered hf
    exact ⟨rfl, rfl⟩
  refine ⟨rfl, rfl, ?_, ?_, ?_, fun f hf => (hdata hf).1, ?_, ?_⟩
  · rw [length_numbered]
    exact hcount
  · rw [← List.length_pos_iff, length_numbered]
    exact List.length_pos_iff.mpr hps
  · intro i f hf
    have hi := (List.getElem?_eq_some_iff.mp hf).1
    rw [length_numbered] at hi
    obtain ⟨p, -, rfl⟩ := piece_of_numbered hf
    have hroom : 1 + i < 2147483648 :=
      Nat.lt_of_le_of_lt (by omega : 1 + i ≤ Fragment.maxCount) (by decide)
    show (Int32.ofNat (1 + i)).toInt = _
    rw [Int32.toInt_ofNat_of_lt hroom]
    omega
  · rintro rfl f hf
    rw [(hdata hf).2]
    exact Checksum.toNat_ofBytes f.bytes
  · rintro rfl
    have htotal := (verifyData_sound (n := 0) rfl
      (verifyData_complete (fun f hf => (hdata hf).2) 0)).2
    rwa [Nat.zero_add] at htotal

/-- joining undoes cutting -/
theorem join_split {layout : Layout} {size : Nat} {k : Key} {buffer : Bytes} {fs : List Fragment}
    (h : split layout size k buffer = .ok fs) : join layout fs = .ok buffer := by
  obtain ⟨⟨hb, hsize, hcount⟩, rfl⟩ := split_eq_ok.mp h
  have hpos : 0 < size := (validSize_iff.mp hsize).1
  rw [framed, (sound_framed (pieces_ne_nil hpos hb) hcount).join (List.Perm.refl _), payloads_numbered,
    flatten_pieces hpos]

/-! ## what is used elsewhere -/

theorem fits_dataFragment {layout : Layout} {k : Key} {number : Nat} {piece : Bytes}
    (h0 : 0 < number) (hn : number ≤ Width.maxInt32) (hp : piece.length ≤ Fragment.maxPayload) :
    (dataFragment layout k number piece).Fits layout := by
  have hnumber : (Int32.ofNat number).toInt = number :=
    Int32.toInt_ofNat_of_lt (Nat.lt_of_le_of_lt hn (by decide))
  have hlength : (Int16.ofNat piece.length).toInt = piece.length :=
    Int16.toInt_ofNat_of_lt (Nat.lt_of_le_of_lt hp (by decide))
  refine ⟨⟨?_, ?_, hlength⟩, ?_⟩
  · show 0 ≤ (Int32.ofNat number).toInt
    omega
  · show (Int32.ofNat number).toInt ≠ 0
    omega
  · intro hplain
    rw [hplain]
    rfl

theorem totalChecksum_plain (k : Key) (number : Nat) (ps : List Bytes) :
    totalChecksum (numbered .plain k number ps) = 0 := by
  induction ps generalizing number with
  | nil => rfl
  | cons p ps ih =>
    have hzero : Checksum.add 0 (dataFragment .plain k number p).checksum = 0 := by
      show Checksum.add 0 0 = 0
      decide
    rw [totalChecksum, numbered, List.foldl_cons, hzero]
    exact ih (number + 1)

/-- The fragments of a bundle: at least two, all with the key and fit for the wire, the fragment at
position `i` numbered `i`, the first one a header that declares how many others there are, and the
buffer is what they are joined to. -/
structure Parts (layout : Layout) (k : Key) (buffer : Bytes) (parts : List Fragment) : Prop where
  key : ∀ f ∈ parts, f.key = k
  fits : ∀ f ∈ parts, f.Fits layout
  number : ∀ i f, parts[i]? = some f → f.number = Int32.ofNat i
  header : ∀ f, parts[0]? = some f → f.length.toInt + 1 = (parts.length : Int)
  two_le : 2 ≤ parts.length
  le_max : parts.length ≤ Fragment.maxCount + 1
  joined : join layout parts = .ok buffer

theorem Parts.of_split {layout : Layout} {size : Nat} {k : Key} {buffer : Bytes}
    {parts : List Fragment} (h : split layout size k buffer = .ok parts) :
    Parts layout k buffer parts := by
  have hjoin := join_split h
  obtain ⟨⟨hb, hsize, hcount⟩, rfl⟩ := split_eq_ok.mp h
  rw [validSize_iff] at hsize
  have hpos := List.length_pos_iff.mpr (pieces_ne_nil hsize.1 hb)
  have hmax : Fragment.maxCount < 2 ^ 15 := by decide
  have hmax' : Fragment.maxCount + 1 ≤ Width.maxInt32 := by decide
  have hlen : (framed layout k (pieces size buffer)).length = (pieces size buffer).length + 1 := by
    rw [framed, List.length_cons, length_numbered]
  refine ⟨fun f hf => key_framed hf, ?_, fun i f hf => number_framed hf, ?_, by omega, by omega,
    hjoin⟩
  · intro f hf
    rcases List.mem_cons.mp hf with rfl | hf
    · refine ⟨Fragment.wellFormed_header _ _ _ _, ?_⟩
      intro hplain
      rw [hplain]
      exact totalChecksum_plain k 1 _
    · obtain ⟨i, p, hp, rfl⟩ := piece_of_mem_numbered hf
      have hi := (List.getElem?_eq_some_iff.mp hp).1
      exact fits_dataFragment (by omega) (by omega)
        (Nat.le_trans (length_le_of_mem_pieces (List.mem_of_getElem? hp)) hsize.2)
  · intro f hf
    rw [← Option.some.inj hf, hlen]
    show (Int16.ofNat _).toInt + 1 = _
    rw [Int16.toInt_ofNat_of_lt (Nat.lt_of_le_of_lt hcount hmax)]
    rfl

/-- the fragments of a bundle that was cut -/
theorem Parts.sound {layout : Layout} {k : Key} {buffer : Bytes} {parts : List Fragment}
    (h : Parts layout k buffer parts) :
    ∃ header data, parts = header :: data ∧ Sound layout header data ∧ buffer = payloads data := by
  have hsorted : sorted parts = parts := by
    refine sorted_eq (pairwise_before (fun f hf => congrArg Key.message (h.key f hf)) ?_)
    intro i f hf
    have hi := (List.getElem?_eq_some_iff.mp hf).1
    have hroom : i < 2147483648 :=
      Nat.lt_of_lt_of_le hi (Nat.le_trans h.le_max (by decide))
    rw [h.number i f hf, Int32.toInt_ofNat_of_lt hroom]
  have hjoin := join_sound h.joined
  rwa [hsorted] at hjoin

end Bundle

/-! ## parcels -/

/-- a buffer that was given a key and cut into fragments -/
structure Parcel where
  key : Key
  buffer : Bytes
  parts : List Fragment

theorem Parcel.eq_of_key {ms : List Parcel} (h : ms.Pairwise fun m m' => m.key ≠ m'.key)
    {m m' : Parcel} (hm : m ∈ ms) (hm' : m' ∈ ms) (hkey : m.key = m'.key) : m = m' := by
  obtain ⟨i, hi, rfl⟩ := List.getElem_of_mem hm
  obtain ⟨j, hj, rfl⟩ := List.getElem_of_mem hm'
  have hpairs := List.pairwise_iff_getElem.mp h
  rcases Nat.lt_trichotomy i j with hij | rfl | hij
  · exact absurd hkey (hpairs i j hi hj hij)
  · rfl
  · exact absurd hkey.symm (hpairs j i hj hi hij)

end BundleLink
