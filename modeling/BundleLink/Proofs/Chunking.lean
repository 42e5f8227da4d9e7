import BundleLink.Proofs.Scanning

/-!
# Bytes that come in chunks

Raw bytes are taken apart each time that more of them have come. Malformed bytes are then dropped
in other portions than if all bytes had been there from the start, since the search for the next
marker sees only what has come so far. The fragments, the places where they stand and the rest are
the same nevertheless.

* `consumed_scan`    a scan takes off the bytes that it does not leave;
* `scan_rest`        there is nothing more in what a scan leaves;
* `feed`             a scan after each of several chunks;
* `feed_of_settled`  the same as at once, behind raw bytes that were taken apart before;
* `feed_flatten`     and from the start, whatever the chunks are.
-/

namespace BundleLink.Wire

/-- the number of bytes that pieces take up together -/
def consumed : List Piece → Nat
  | [] => 0
  | p :: ps => p.size + consumed ps

@[simp] theorem consumed_cons (p : Piece) (ps : List Piece) :
    consumed (p :: ps) = p.size + consumed ps := rfl

/-- the fragments among pieces that come one behind the other -/
theorem finds_pieces (offset : Nat) (ps qs : List Piece) :
    finds offset (ps ++ qs) = finds offset ps ++ finds (offset + consumed ps) qs := by
  induction ps generalizing offset with
  | nil => rfl
  | cons p ps ih =>
    rw [consumed_cons, ← Nat.add_assoc]
    cases p with
    | skipped n flaw => exact ih (offset + n)
    | fragment f n => exact congrArg (_ :: ·) (ih (offset + n))

/-- the extraction that takes a piece off -/
def Piece.extraction : Piece → Extraction
  | .fragment f n => .fragment f n
  | .skipped n flaw => .malformed n flaw

/-- A property of scans of all bytes holds if it holds where nothing can be taken off, and where it
holds of what is left when one piece was taken off. -/
theorem scan_induction {layout : Layout} {P : Bytes → List Piece × Bytes → Prop}
    (stop : ∀ raw, extract layout raw = .incomplete → P raw ([], raw))
    (piece : ∀ raw p, extract layout raw = p.extraction → 0 < p.size → p.size ≤ raw.length →
      P (raw.drop p.size) (scan layout (raw.drop p.size)) →
      P raw (p :: (scan layout (raw.drop p.size)).1, (scan layout (raw.drop p.size)).2))
    (raw : Bytes) : P raw (scan layout raw) := by
  induction h : raw.length using Nat.strongRecOn generalizing raw with
  | ind m ih =>
    subst h
    have hless {n : Nat} (hpos : 0 < n) (hle : n ≤ raw.length) :
        (raw.drop n).length < raw.length := by
      rw [List.length_drop]
      omega
    cases he : extract layout raw with
    | incomplete =>
      rw [scan_incomplete he]
      exact stop raw he
    | fragment f n =>
      have hpos := extract_fragment_pos he
      have hle := extract_fragment_le he
      rw [scan_fragment he]
      exact piece raw (.fragment f n) he hpos hle (ih _ (hless hpos hle) _ rfl)
    | malformed n flaw =>
      have hpos := extract_malformed_pos he
      have hle := extract_malformed_le he
      rw [scan_malformed he]
      exact piece raw (.skipped n flaw) he hpos hle (ih _ (hless hpos hle) _ rfl)

/-- No byte is lost: what is not left was taken off. -/
theorem consumed_scan (layout : Layout) (raw : Bytes) :
    consumed (scan layout raw).1 + (scan layout raw).2.length = raw.length := by
  refine scan_induction (P := fun raw r => consumed r.1 + r.2.length = raw.length) ?_ ?_ raw
  · intro raw _
    exact Nat.zero_add _
  · intro raw p _ _ hle hlater
    rw [List.length_drop] at hlater
    dsimp only
    rw [consumed_cons]
    omega

/-- Bytes that were taken apart are left as they are by another scan. -/
theorem scan_rest (layout : Layout) (raw : Bytes) :
    scan layout (scan layout raw).2 = ([], (scan layout raw).2) := by
  refine scan_induction (P := fun _ r => scan layout r.2 = ([], r.2)) ?_ ?_ raw
  · intro raw he
    exact scan_incomplete he
  · intro raw p _ _ _ hlater
    exact hlater

/-- A fragment takes up as many bytes as its wire form has. -/
theorem size_of_mem_scan {layout : Layout} {raw : Bytes} {f : Fragment} {n : Nat}
    (h : .fragment f n ∈ (scan layout raw).1) : n = f.wireLength layout := by
  revert h
  refine @scan_induction layout (fun _ r => .fragment f n ∈ r.1 → n = f.wireLength layout)
    ?_ ?_ raw
  · exact fun _ _ h => absurd h List.not_mem_nil
  · intro raw p hp _ _ hlater h
    rcases List.mem_cons.mp h with rfl | hrest
    · exact (extract_sound hp).2.1
    · exact hlater hrest

/-- The chunks are put behind the raw bytes one after the other, and what is there is taken apart
each time: all pieces, and the bytes that are left in the end. -/
def feed (layout : Layout) (raw : Bytes) : List Bytes → List Piece × Bytes
  | [] => ([], raw)
  | chunk :: chunks =>
    let (ps, rest) := scan layout (raw ++ chunk)
    let (qs, left) := feed layout rest chunks
    (ps ++ qs, left)

/-- Behind raw bytes from which nothing more can be taken, it does not matter in which chunks the
bytes come. -/
theorem feed_of_settled {layout : Layout} {raw : Bytes} (h : scan layout raw = ([], raw))
    (offset : Nat) (chunks : List Bytes) :
    finds offset (feed layout raw chunks).1 =
        finds offset (scan layout (raw ++ chunks.flatten)).1 ∧
      (feed layout raw chunks).2 = (scan layout (raw ++ chunks.flatten)).2 := by
  induction chunks generalizing raw offset with
  | nil =>
    rw [List.flatten_nil, List.append_nil, h]
    exact ⟨rfl, rfl⟩
  | cons chunk chunks ih =>
    have hcount := consumed_scan layout (raw ++ chunk)
    obtain ⟨hfinds, hleft⟩ := finds_append layout offset (raw ++ chunk) chunks.flatten
    -- the rest of the first scan is settled, so the other chunks can be scanned at once
    obtain ⟨hlater, hlater'⟩ := ih (scan_rest layout (raw ++ chunk))
      (offset + consumed (scan layout (raw ++ chunk)).1)
    have hoffset : offset + (raw ++ chunk).length - (scan layout (raw ++ chunk)).2.length =
        offset + consumed (scan layout (raw ++ chunk)).1 := by omega
    rw [hoffset] at hfinds
    rw [List.flatten_cons, ← List.append_assoc, hfinds, hleft, feed]
    dsimp only
    rw [finds_pieces, hlater, hlater']
    exact ⟨rfl, rfl⟩

/-- Bytes that come in chunks yield the fragments that they yield at once, and leave the same rest.
Each fragment is found once, at the place of the whole where it stands, wherever the chunks are
cut. -/
theorem feed_flatten (layout : Layout) (chunks : List Bytes) :
    fragments (feed layout [] chunks).1 = fragments (scan layout chunks.flatten).1 ∧
      (feed layout [] chunks).2 = (scan layout chunks.flatten).2 ∧
      finds 0 (feed layout [] chunks).1 = finds 0 (scan layout chunks.flatten).1 ∧
      Laid layout chunks.flatten 0 (finds 0 (feed layout [] chunks).1) := by
  obtain ⟨hfinds, hleft⟩ := feed_of_settled (scan_nil layout) 0 chunks
  rw [List.nil_append] at hfinds hleft
  refine ⟨?_, hleft, hfinds, ?_⟩
  · rw [← map_finds 0, ← map_finds 0, hfinds]
  · rw [hfinds]
    exact finds_scan layout [] chunks.flatten

end BundleLink.Wire
