import BundleLink.Proofs.Chunking
import BundleLink.Proofs.Receiving

/-!
# The two loops of a receive

A receive first reads, again and again, and then takes what it has apart, piece by piece. The
channel may hand out bytes forever, and the bytes may be anything. Both loops end: each read uses
up room for raw bytes, or one of the empty reads that the channel has, and each piece takes at least
one of the raw bytes off, and no more than there are.

* `Reads`           a series of reads, with what becomes less in each;
* `reads_fill`      reading is such a series;
* `Reads.length_le` how many reads there can be;
* `Reads.length_take_lt`  how many bytes they can yield, after any number of them;
* `TakenApart`      raw bytes are taken apart, with what each piece takes off;
* `takenApart_scan` scanning does so;
* `TakenApart.length_le`, `TakenApart.rest_settled`  how many pieces there can be, and what is left.
-/

namespace BundleLink

/-! ## reading -/

section

variable {σ : Type} [Channel σ]

/-- Data is read in chunks of these bytes, at most `limit` in each, as long as there is room. The
last read finds no data, unless there is no room left. -/
inductive Reads (limit : Nat) : Nat → σ → List Bytes → Except IoError Bool → σ → Prop where
  | full (ch : σ) : Reads limit 0 ch [] (.ok false) ch
  | nothing {room : Nat} {ch ch' : σ} (free : 0 < room)
      (read : Channel.read limit ch = (.ok .nothing, ch')) :
      Reads limit room ch [] (.ok false) ch'
  | endOfStream {room : Nat} {ch ch' : σ} (free : 0 < room)
      (read : Channel.read limit ch = (.ok .endOfStream, ch')) :
      Reads limit room ch [] (.ok true) ch'
  | failed {room : Nat} {ch ch' : σ} {e : IoError} (free : 0 < room)
      (read : Channel.read limit ch = (.error e, ch')) :
      Reads limit room ch [] (.error e) ch'
  | data {room : Nat} {ch ch' last : σ} {bs : Bytes} {chunks : List Bytes}
      {ended : Except IoError Bool} (free : 0 < room)
      (read : Channel.read limit ch = (.ok (.data bs), ch')) (le : bs.length ≤ limit)
      (less : room - bs.length + Channel.lull ch' < room + Channel.lull ch)
      (more : Reads limit (room - bs.length) ch' chunks ended last) :
      Reads limit room ch (bs :: chunks) ended last

/-- What is read comes in front of what was read before. -/
theorem exists_reads {limit : Nat} (hlimit : 0 < limit) (room : Nat) (acc : List Bytes) (ch : σ) :
    ∃ chunks, (fill limit room acc ch).chunks = chunks.reverse ++ acc ∧
      Reads limit room ch chunks (fill limit room acc ch).ended
        (fill limit room acc ch).channel := by
  fun_induction fill limit room acc ch with
  | case1 room acc ch hroom e ch' hr => exact ⟨[], rfl, .failed hroom.1 hr⟩
  | case2 room acc ch hroom ch' hr => exact ⟨[], rfl, .nothing hroom.1 hr⟩
  | case3 room acc ch hroom ch' hr => exact ⟨[], rfl, .endOfStream hroom.1 hr⟩
  | case4 room acc ch hroom bs ch' hr ih =>
    obtain ⟨chunks, hchunks, hreads⟩ := ih
    have hle := Channel.length_read_le limit ch bs (by rw [hr])
    have hless : room - bs.length + Channel.lull ch' < room + Channel.lull ch := by
      have hlull := Channel.lull_read_le limit ch
      rw [hr] at hlull
      cases bs with
      | nil =>
        have hlt := Channel.lull_read_lt limit ch hlimit (by rw [hr])
        rw [hr] at hlt
        exact Nat.add_lt_add_left hlt room
      | cons b bs =>
        rw [List.length_cons]
        dsimp only at hlull
        omega
    refine ⟨bs :: chunks, ?_, .data hroom.1 hr hle hless hreads⟩
    rw [hchunks, List.reverse_cons, List.append_assoc]
    rfl
  | case5 room acc ch hroom =>
    have hzero : room = 0 := by omega
    subst hzero
    exact ⟨[], rfl, .full ch⟩

theorem reads_fill {limit : Nat} (hlimit : 0 < limit) (room : Nat) (ch : σ) :
    Reads limit room ch (fill limit room [] ch).chunks.reverse (fill limit room [] ch).ended
      (fill limit room [] ch).channel := by
  obtain ⟨chunks, hchunks, hreads⟩ := exists_reads hlimit room [] ch
  rwa [hchunks, List.append_nil, List.reverse_reverse]

namespace Reads

variable {limit room : Nat} {ch last : σ} {chunks : List Bytes} {ended : Except IoError Bool}

theorem length_le (h : Reads limit room ch chunks ended last) :
    chunks.length ≤ room + Channel.lull ch := by
  induction h with
  | full | nothing | endOfStream | failed => exact Nat.zero_le _
  | data _ _ _ less _ ih =>
    rw [List.length_cons]
    omega

theorem of_zero (h : Reads limit 0 ch chunks ended last) : chunks = [] := by
  cases h with
  | full | nothing | endOfStream | failed => rfl
  | data free => exact absurd free (Nat.lt_irrefl 0)

/-- Only the last chunk can go beyond the room that there is. -/
theorem length_take_lt (h : Reads limit room ch chunks ended last) (hlimit : 0 < limit) (m : Nat) :
    (chunks.take m).flatten.length < room + limit := by
  induction h generalizing m with
  | full | nothing | endOfStream | failed =>
    rw [List.take_nil]
    exact Nat.add_pos_right _ hlimit
  | @data room _ _ _ bs chunks _ free _ le _ more ih =>
    cases m with
    | zero => exact Nat.add_pos_right _ hlimit
    | succ m =>
      rw [List.take_succ_cons, List.flatten_cons, List.length_append]
      rcases Nat.lt_or_ge bs.length room with hinside | hbeyond
      · have hlater := ih m
        omega
      · rw [Nat.sub_eq_zero_of_le hbeyond] at more
        rw [more.of_zero, List.take_nil, List.flatten_nil, List.length_nil]
        omega

end Reads

end

/-! ## taking apart -/

namespace Wire

variable {layout : Layout} {raw rest : Bytes} {ps : List Piece}

/-- Pieces are taken off the raw bytes one after the other, each of them at least one byte and no
more than there are, until nothing is left or what is left is incomplete. -/
inductive TakenApart (layout : Layout) : Bytes → List Piece → Bytes → Prop where
  | settled {raw : Bytes} (h : raw = [] ∨ extract layout raw = .incomplete) :
      TakenApart layout raw [] raw
  | piece {raw rest : Bytes} {p : Piece} {ps : List Piece}
      (extracted : extract layout raw = p.extraction) (pos : 1 ≤ p.size)
      (le : p.size ≤ raw.length) (more : TakenApart layout (raw.drop p.size) ps rest) :
      TakenApart layout raw (p :: ps) rest

theorem takenApart_scan (layout : Layout) (raw : Bytes) :
    TakenApart layout raw (scan layout raw).1 (scan layout raw).2 := by
  refine scan_induction (P := fun raw r => TakenApart layout raw r.1 r.2) ?_ ?_ raw
  · exact fun raw he => .settled (.inr he)
  · exact fun raw p he hpos hle hlater => .piece he hpos hle hlater

namespace TakenApart

theorem length_le (h : TakenApart layout raw ps rest) : ps.length + rest.length ≤ raw.length := by
  induction h with
  | settled => exact Nat.le_of_eq (Nat.zero_add _)
  | piece _ pos le _ ih =>
    rw [List.length_drop] at ih
    rw [List.length_cons]
    omega

/-- what is left is not taken apart any further -/
theorem rest_settled (h : TakenApart layout raw ps rest) :
    rest = [] ∨ extract layout rest = .incomplete := by
  induction h with
  | settled h => exact h
  | piece _ _ _ _ ih => exact ih

end TakenApart

end Wire

end BundleLink
