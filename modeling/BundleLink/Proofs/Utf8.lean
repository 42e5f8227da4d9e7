import BundleLink.Text.Utf8

/-!
# Reading UTF-8 loses nothing

The text that `decode` yields is written by exactly the bytes that were read.

* `Utf8.encode`           the bytes of a text;
* `Utf8.Reads`            the bytes read since the last complete character, and the state they led
  to;
* `Reads.encode`          a complete character is written by the bytes that were read for it;
* `encode_of_decode`      the same for a whole text.
-/

namespace BundleLink.Utf8

/-- the bytes that a text is written by -/
def encode (text : String) : Bytes := text.toUTF8.data.toList

theorem encode_ofList (cs : List Char) :
    encode (String.ofList cs) = cs.flatMap String.utf8EncodeChar := by
  rw [encode, String.toUTF8_eq_toByteArray, String.toByteArray_ofList, List.utf8Encode,
    List.toList_data_toByteArray]

/-! ## one character -/

/-- what was read since the last complete character -/
inductive Reads : Bytes → Pending → Prop where
  | lead (b : UInt8) (p : Pending) (h : lead b = some p) : Reads [b] p
  | next (bs : Bytes) (p q : Pending) (b : UInt8) (reads : Reads bs p) (owed : p.owed ≠ 0)
      (h : p.next b = some q) : Reads (bs ++ [b]) q

theorem toNat_ofNat {n : Nat} (h : n.isValidChar) : (Char.ofNat n).val.toNat = n := by
  rw [Char.ofNat, dif_pos h]
  rfl

theorem ofNat_eq {b : UInt8} {n : Nat} (h : n = b.toNat) : UInt8.ofNat n = b := by
  rw [h, UInt8.ofNat_toNat]

theorem encode_one {n : Nat} {b : UInt8} (h : n = b.toNat) (hb : b.toNat < 128) :
    String.utf8EncodeChar (Char.ofNat n) = [b] := by
  have hn : (Char.ofNat n).val.toNat = n := toNat_ofNat (.inl (by omega))
  rw [String.utf8EncodeChar, hn, if_pos (by omega), ofNat_eq h]

theorem encode_two {n : Nat} {b c : UInt8} (hb : 0xC2 ≤ b.toNat) (hb' : b.toNat ≤ 0xDF)
    (hc : 0x80 ≤ c.toNat) (hc' : c.toNat ≤ 0xBF) (h : n = b.toNat % 32 * 64 + c.toNat % 64) :
    String.utf8EncodeChar (Char.ofNat n) = [b, c] := by
  have hn : (Char.ofNat n).val.toNat = n := toNat_ofNat (.inl (by omega))
  rw [String.utf8EncodeChar, hn, if_neg (by omega), if_pos (by omega), ofNat_eq (b := b) (by omega),
    ofNat_eq (b := c) (by omega)]

theorem encode_three {n : Nat} {b c d : UInt8} (hb : 0xE0 ≤ b.toNat) (hb' : b.toNat ≤ 0xEF)
    (hc : 0x80 ≤ c.toNat) (hc' : c.toNat ≤ 0xBF) (hd : 0x80 ≤ d.toNat) (hd' : d.toNat ≤ 0xBF)
    (hlow : b.toNat = 0xE0 → 0xA0 ≤ c.toNat) (hhigh : b.toNat = 0xED → c.toNat ≤ 0x9F)
    (h : n = (b.toNat % 16 * 64 + c.toNat % 64) * 64 + d.toNat % 64) :
    String.utf8EncodeChar (Char.ofNat n) = [b, c, d] := by
  have hvalid : n.isValidChar := by
    rw [Nat.isValidChar]
    omega
  have hn : (Char.ofNat n).val.toNat = n := toNat_ofNat hvalid
  rw [String.utf8EncodeChar, hn, if_neg (by omega), if_neg (by omega), if_pos (by omega),
    ofNat_eq (b := b) (by omega), ofNat_eq (b := c) (by omega), ofNat_eq (b := d) (by omega)]

theorem encode_four {n : Nat} {b c d e : UInt8} (hb : 0xF0 ≤ b.toNat) (hb' : b.toNat ≤ 0xF4)
    (hc : 0x80 ≤ c.toNat) (hc' : c.toNat ≤ 0xBF) (hd : 0x80 ≤ d.toNat) (hd' : d.toNat ≤ 0xBF)
    (he : 0x80 ≤ e.toNat) (he' : e.toNat ≤ 0xBF)
    (hlow : b.toNat = 0xF0 → 0x90 ≤ c.toNat) (hhigh : b.toNat = 0xF4 → c.toNat ≤ 0x8F)
    (h : n = ((b.toNat % 8 * 64 + c.toNat % 64) * 64 + d.toNat % 64) * 64 + e.toNat % 64) :
    String.utf8EncodeChar (Char.ofNat n) = [b, c, d, e] := by
  have hvalid : n.isValidChar := by
    rw [Nat.isValidChar]
    omega
  have hn : (Char.ofNat n).val.toNat = n := toNat_ofNat hvalid
  rw [String.utf8EncodeChar, hn, if_neg (by omega), if_neg (by omega), if_neg (by omega),
    ofNat_eq (b := b) (by omega), ofNat_eq (b := c) (by omega), ofNat_eq (b := d) (by omega),
    ofNat_eq (b := e) (by omega)]

/-- what a lead octet says: how many octets follow, the bounds of the next, and the first bits -/
theorem lead_eq_some {b : UInt8} {p : Pending} (h : lead b = some p) :
    (p.owed = 0 ∧ p.code = b.toNat ∧ b.toNat < 128) ∨
      (p.owed = 1 ∧ p.code = b.toNat % 32 ∧ 0xC2 ≤ b.toNat ∧ b.toNat ≤ 0xDF ∧
        p.low.toNat = 0x80 ∧ p.high.toNat = 0xBF) ∨
      (p.owed = 2 ∧ p.code = b.toNat % 16 ∧ 0xE0 ≤ b.toNat ∧ b.toNat ≤ 0xEF ∧
        0x80 ≤ p.low.toNat ∧ p.high.toNat ≤ 0xBF ∧ (b.toNat = 0xE0 → 0xA0 ≤ p.low.toNat) ∧
        (b.toNat = 0xED → p.high.toNat ≤ 0x9F)) ∨
      (p.owed = 3 ∧ p.code = b.toNat % 8 ∧ 0xF0 ≤ b.toNat ∧ b.toNat ≤ 0xF4 ∧
        0x80 ≤ p.low.toNat ∧ p.high.toNat ≤ 0xBF ∧ (b.toNat = 0xF0 → 0x90 ≤ p.low.toNat) ∧
        (b.toNat = 0xF4 → p.high.toNat ≤ 0x8F)) := by
  unfold lead at h
  simp only [UInt8.le_iff_toNat_le, UInt8.lt_iff_toNat_lt, ← UInt8.toNat_inj] at h
  have h1 : (0x7F : UInt8).toNat = 0x7F := rfl
  have h2 : (0xC2 : UInt8).toNat = 0xC2 := rfl
  have h3 : (0xDF : UInt8).toNat = 0xDF := rfl
  have h4 : (0xE0 : UInt8).toNat = 0xE0 := rfl
  have h5 : (0xED : UInt8).toNat = 0xED := rfl
  have h6 : (0xEF : UInt8).toNat = 0xEF := rfl
  have h7 : (0xF0 : UInt8).toNat = 0xF0 := rfl
  have h8 : (0xF3 : UInt8).toNat = 0xF3 := rfl
  have h9 : (0xF4 : UInt8).toNat = 0xF4 := rfl
  rw [h1, h2, h3, h4, h5, h6, h7, h8, h9] at h
  have l1 : (0x80 : UInt8).toNat = 0x80 := rfl
  have l2 : (0xBF : UInt8).toNat = 0xBF := rfl
  have l3 : (0xA0 : UInt8).toNat = 0xA0 := rfl
  have l4 : (0x9F : UInt8).toNat = 0x9F := rfl
  have l5 : (0x90 : UInt8).toNat = 0x90 := rfl
  have l6 : (0x8F : UInt8).toNat = 0x8F := rfl
  repeat' split at h
  all_goals cases h
  all_goals dsimp only
  all_goals omega

theorem next_eq_some {p q : Pending} {b : UInt8} (h : p.next b = some q) :
    q = ⟨p.owed - 1, 0x80, 0xBF, p.code * 64 + b.toNat % 64, p.seen + 1⟩ ∧
      p.low.toNat ≤ b.toNat ∧ b.toNat ≤ p.high.toNat := by
  unfold Pending.next at h
  split at h
  · rename_i hb
    exact ⟨(Option.some.inj h).symm, UInt8.le_iff_toNat_le.mp hb.1, UInt8.le_iff_toNat_le.mp hb.2⟩
  · cases h

theorem Reads.owed_add {bs : Bytes} {p : Pending} (h : Reads bs p) : p.owed + bs.length ≤ 4 := by
  induction h with
  | lead b p h =>
    have hlead := lead_eq_some h
    show p.owed + 1 ≤ 4
    omega
  | next bs p q b reads owed h ih =>
    obtain ⟨rfl, -, -⟩ := next_eq_some h
    rw [List.length_append]
    show p.owed - 1 + (bs.length + 1) ≤ 4
    omega

theorem Reads.length_pos {bs : Bytes} {p : Pending} (h : Reads bs p) : 0 < bs.length := by
  cases h with
  | lead b p h => exact Nat.succ_pos 0
  | next bs p q b reads owed h =>
    rw [List.length_append]
    exact Nat.succ_pos _

/-- a complete character is written by the bytes that were read for it -/
theorem Reads.encode {bs : Bytes} {p : Pending} (h : Reads bs p) (howed : p.owed = 0) :
    String.utf8EncodeChar (Char.ofNat p.code) = bs := by
  have low : (0x80 : UInt8).toNat = 0x80 := rfl
  have high : (0xBF : UInt8).toNat = 0xBF := rfl
  -- a character has at most four octets, and how many follow the first one decides between them
  cases h with
  | lead b p hb =>
    have hlead := lead_eq_some hb
    exact encode_one (by omega) (by omega)
  | next bs p q e reads he0 he =>
    obtain ⟨rfl, he1, he2⟩ := next_eq_some he
    dsimp only at howed ⊢
    cases reads with
    | lead b p hb =>
      have hlead := lead_eq_some hb
      exact encode_two (by omega) (by omega) (by omega) (by omega) (by omega)
    | next bs p q d reads hd0 hd =>
      obtain ⟨rfl, hd1, hd2⟩ := next_eq_some hd
      dsimp only at howed he0 he1 he2 ⊢
      rw [low] at he1
      rw [high] at he2
      cases reads with
      | lead b p hb =>
        have hlead := lead_eq_some hb
        exact encode_three (by omega) (by omega) (by omega) (by omega) (by omega) (by omega)
          (by omega) (by omega) (by omega)
      | next bs p q c reads hc0 hc =>
        obtain ⟨rfl, hc1, hc2⟩ := next_eq_some hc
        dsimp only at howed he0 hd0 hd1 hd2 ⊢
        rw [low] at hd1
        rw [high] at hd2
        cases reads with
        | lead b p hb =>
          have hlead := lead_eq_some hb
          exact encode_four (by omega) (by omega) (by omega) (by omega) (by omega) (by omega)
            (by omega) (by omega) (by omega) (by omega) (by omega)
        | next bs p q g reads hg0 hg =>
          -- four more octets would be one too many
          have howes := reads.owed_add
          have hpos := reads.length_pos
          obtain ⟨rfl, -, -⟩ := next_eq_some hg
          dsimp only at howed he0 hd0 hc0
          omega

/-! ## a text -/

/-- the bytes read since the last complete character fit the state -/
def Covers (pre : Bytes) : Option Pending → Prop
  | none => pre = []
  | some p => Reads pre p ∧ p.owed ≠ 0

theorem flatMap_of_decodeFrom (bs : Bytes) (start : Nat) (state : Option Pending)
    (acc cs : List Char) (h : decodeFrom start state acc bs = .ok cs) (pre : Bytes)
    (hpre : Covers pre state) :
    cs.flatMap String.utf8EncodeChar = acc.reverse.flatMap String.utf8EncodeChar ++ pre ++ bs := by
  have hfound (acc : List Char) (code : Nat) :
      (Char.ofNat code :: acc).reverse.flatMap String.utf8EncodeChar =
        acc.reverse.flatMap String.utf8EncodeChar ++ String.utf8EncodeChar (Char.ofNat code) := by
    rw [List.reverse_cons, List.flatMap_append, List.flatMap_singleton]
  induction bs generalizing start state acc pre with
  | nil =>
    cases state with
    | none =>
      have hnil : pre = [] := hpre
      rw [← Except.ok.inj h, hnil, List.append_nil, List.append_nil]
    | some p => cases h
  | cons b bs ih =>
    cases state with
    | none =>
      have hnil : pre = [] := hpre
      rw [decodeFrom] at h
      cases hb : lead b with
      | none =>
        rw [hb] at h
        cases h
      | some p =>
        rw [hb] at h
        dsimp only at h
        split at h
        · rename_i howed
          rw [ih _ _ _ h [] rfl, hfound, (Reads.lead b p hb).encode howed, hnil]
          simp
        · rename_i howed
          rw [ih _ _ _ h [b] ⟨.lead b p hb, howed⟩, hnil]
          simp
    | some p =>
      obtain ⟨hreads, hp⟩ := hpre
      rw [decodeFrom] at h
      cases hb : p.next b with
      | none =>
        rw [hb] at h
        cases h
      | some q =>
        rw [hb] at h
        dsimp only at h
        have hnext : Reads (pre ++ [b]) q := .next pre p q b hreads hp hb
        split at h
        · rename_i howed
          rw [ih _ _ _ h [] rfl, hfound, hnext.encode howed]
          simp
        · rename_i howed
          rw [ih _ _ _ h (pre ++ [b]) ⟨hnext, howed⟩]
          simp

/-- the text that is read from bytes is written by exactly these bytes -/
theorem encode_of_decode {bs : Bytes} {text : String} (h : decode bs = .ok text) :
    encode text = bs := by
  rw [decode] at h
  cases hd : decodeFrom 0 none [] bs with
  | error flaw =>
    rw [hd] at h
    cases h
  | ok cs =>
    rw [hd] at h
    have htext : String.ofList cs = text := Except.ok.inj h
    rw [← htext, encode_ofList, flatMap_of_decodeFrom bs 0 none [] cs hd [] rfl]
    rfl

end BundleLink.Utf8
