import BundleLink.Link.Receive
import BundleLink.Proofs.Filling

/-!
# What an entry makes of a fragment

As long as a link sends no bundles of its own and can compute all its deadlines, what it does about
a fragment depends on the entry for its key and on nothing else: neither on other entries, nor on
the clock, the traffic or the lag.

* `Assembly.timeless`       an entry whose moments mean nothing;
* `Reaction`                what the peer or the application gets to see;
* `Assembly.react`          the entry and the reactions after a fragment, `Assembly.reactAll` after
  several;
* `Filled.missing_le`       no entry waits for more fragments than there can be.
-/

namespace BundleLink

namespace Assembly

variable {layout : Layout} {k : Key} {a b : Assembly} {f : Fragment}

theorem Filled.missing_le (h : Filled k a) : a.missing.getD 0 ≤ Fragment.maxCount + 1 := by
  have hdeclared := h.declared_le
  rw [missing]
  cases hn : a.declared with
  | none => exact Nat.zero_le _
  | some n =>
    rw [hn] at hdeclared
    exact Nat.le_trans (Nat.sub_le _ _) (Nat.succ_le_succ hdeclared)

/-! ## moments -/

def timeless (a : Assembly) : Assembly := { a with lastArrival := .start, deadline := .start }

theorem place_timeless (a : Assembly) (i : Nat) (f : Fragment) :
    place a.timeless i f = ((place a i f).1, (place a i f).2.timeless) := by
  have hat : a.timeless.at? i = a.at? i := rfl
  rw [place, place, hat]
  cases a.at? i <;> rfl

/-- inserting looks at no moment and changes none -/
theorem insert_timeless (a : Assembly) (f : Fragment) :
    a.timeless.insert f = ((a.insert f).1, (a.insert f).2.timeless) := by
  rw [insert, insert]
  split
  · rfl
  · split
    · rw [insertHeader, insertHeader]
      split
      · rfl
      · have hslots : a.timeless.slots = a.slots := rfl
        have hdeclared : a.timeless.declared = a.declared := rfl
        rw [hslots, hdeclared]
        dsimp only
        split
        · rfl
        · split
          · split
            · rfl
            · exact place_timeless a 0 f
          · exact place_timeless { a with declared := some (Width.payloadLength f.length) } 0 f
    · have hdeclared : a.timeless.declared = a.declared := rfl
      rw [insertData, insertData, hdeclared]
      split
      · rfl
      · exact place_timeless a _ f

theorem insert_timeless_of {insertion : Insertion} (h : a.insert f = (insertion, b)) :
    a.timeless.insert f = (insertion, b.timeless) := by
  rw [insert_timeless, h]

/-! ## reactions -/

end Assembly

/-- what the peer or the application gets to see of a bundle -/
inductive Reaction where
  | ack
  | nak
  | bundle (bytes : Bytes)
  deriving DecidableEq, Repr

namespace Assembly

/-- the bundle is given up, and the peer is told so if the key is one that it may have given -/
def refuse (k : Key) : Option Assembly × List Reaction := (none, if k.isProper then [.nak] else [])

/-- a fragment for a bundle under assembly -/
def gather (layout : Layout) (f : Fragment) (asm : Assembly) : Option Assembly × List Reaction :=
  match asm.insert f with
  | (.duplicate, asm) => (some asm, [])
  | (.invalid _, _) => refuse f.key
  | (.added, asm) =>
    if asm.isCollected then
      match Bundle.join layout asm.fragments with
      | .ok bundle =>
        (some { asm with slots := #[], present := 0, complete := true, acked := true },
          [.ack, .bundle bundle])
      | .error _ => refuse f.key
    else (some asm, [])

/-- the entry for the key of a fragment, and the reactions, after the fragment -/
def react (layout : Layout) (f : Fragment) (o : Option Assembly) :
    Option Assembly × List Reaction :=
  if f.isControl then (if f.length < Fragment.ackLength then o else none, [])
  else if f.number = 0 ∧ f.length ≤ 0 then (o, [])
  else
    match o with
    | none => gather layout f (empty .start .start)
    | some asm =>
      if asm.complete then (some asm, if asm.acked then [.ack] else []) else gather layout f asm

/-- the same after several fragments with one key -/
def reactAll (layout : Layout) : List Fragment → Option Assembly → Option Assembly × List Reaction
  | [], o => (o, [])
  | f :: fs, o =>
    let (o, reactions) := react layout f o
    let (o, later) := reactAll layout fs o
    (o, reactions ++ later)

theorem reactAll_concat (layout : Layout) (fs : List Fragment) (f : Fragment)
    (o : Option Assembly) :
    reactAll layout (fs ++ [f]) o =
      ((react layout f (reactAll layout fs o).1).1,
        (reactAll layout fs o).2 ++ (react layout f (reactAll layout fs o).1).2) := by
  induction fs generalizing o with
  | nil =>
    show (_, _ ++ []) = (_, [] ++ _)
    rw [List.append_nil, List.nil_append]
    rfl
  | cons g fs ih =>
    rw [List.cons_append, reactAll, reactAll]
    dsimp only
    rw [ih, List.append_assoc]

end Assembly

end BundleLink
