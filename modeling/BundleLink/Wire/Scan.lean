import BundleLink.Wire.Extract

/-!
# Taking a byte stream apart

Extraction is repeated, each time dropping what was taken or what was malformed, until no byte is
left or the rest is the start of a fragment whose end is not there yet.

* `Piece`   a fragment, or malformed bytes that were dropped, each with its size;
* `scan`    the pieces of raw bytes and the rest;
* `extractions`  the first few extractions one by one, the last of which may be `incomplete`.
-/

namespace BundleLink.Wire

inductive Piece where
  | fragment (f : Fragment) (size : Nat)
  | skipped (size : Nat) (flaw : Flaw)
  deriving DecidableEq, Repr

/-- the number of bytes that a piece takes up -/
def Piece.size : Piece → Nat
  | .fragment _ n => n
  | .skipped n _ => n

def Piece.fragment? : Piece → Option Fragment
  | .fragment f _ => some f
  | .skipped _ _ => none

/-- continues after the pieces in `acc`, the last of which comes first -/
def scanFrom (layout : Layout) (acc : List Piece) (raw : Bytes) : List Piece × Bytes :=
  if _hne : raw = [] then (acc.reverse, raw)
  else
    match _h : extract layout raw with
    | .incomplete => (acc.reverse, raw)
    | .fragment f n => scanFrom layout (.fragment f n :: acc) (raw.drop n)
    | .malformed n flaw => scanFrom layout (.skipped n flaw :: acc) (raw.drop n)
termination_by raw.length
decreasing_by
  all_goals
    have := List.length_pos_iff.mpr _hne
    first
      | have := extract_fragment_pos _h; simp only [List.length_drop]; omega
      | have := extract_malformed_pos _h; simp only [List.length_drop]; omega

def scan (layout : Layout) (raw : Bytes) : List Piece × Bytes := scanFrom layout [] raw

/-- the first `limit` extractions, up to an incomplete one, and the bytes after them -/
def extractions (layout : Layout) : Nat → Bytes → List Extraction × Bytes
  | 0, raw => ([], raw)
  | limit + 1, raw =>
    if raw = [] then ([], raw)
    else
      match extract layout raw with
      | .incomplete => ([.incomplete], raw)
      | .fragment f n =>
        let (xs, rest) := extractions layout limit (raw.drop n)
        (.fragment f n :: xs, rest)
      | .malformed n flaw =>
        let (xs, rest) := extractions layout limit (raw.drop n)
        (.malformed n flaw :: xs, rest)

/-- the fragments in front of the first piece that is none -/
def leading (layout : Layout) (raw : Bytes) : List Fragment :=
  ((scan layout raw).1.map Piece.fragment?).takeWhile Option.isSome |>.filterMap id

/-- the fragments among pieces -/
def fragments (ps : List Piece) : List Fragment := ps.filterMap Piece.fragment?

@[simp] theorem fragments_nil : fragments [] = [] := rfl

@[simp] theorem fragments_append (ps qs : List Piece) :
    fragments (ps ++ qs) = fragments ps ++ fragments qs := List.filterMap_append

@[simp] theorem scanFrom_nil (layout : Layout) (acc : List Piece) :
    scanFrom layout acc [] = (acc.reverse, []) := by
  rw [scanFrom]
  simp

@[simp] theorem scan_nil (layout : Layout) : scan layout [] = ([], []) := by simp [scan]

end BundleLink.Wire
