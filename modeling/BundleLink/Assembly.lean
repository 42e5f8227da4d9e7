import BundleLink.Fragment
import BundleLink.Time.Span
import BundleLink.Width

/-!
# Bundles under assembly

Fragments of a bundle arrive in any order. They are kept in slots, one for each number, which are
added as far as the numbers seen so far require; how many slots there will be is known once the
header is there.

* `Assembly`              the slots, and what is known about the bundle;
* `Assembly.insert`       puts a fragment into its slot, unless the slot is taken (`duplicate`) or
  the fragment contradicts what is known (`invalid`, with a `Misfit`);
* `Assembly.missing`      how many fragments are still to come, once this is known;
* `Assembly.isCollected`  none is;
* `Assembly.release`      hands the fragments out and leaves the slots empty.

A finished bundle stays for a while without its fragments, so that fragments that arrive once more
are recognised.
-/

namespace BundleLink

/-- why a fragment belongs to no well-formed bundle -/
inductive Misfit where
  | negativeNumber (number : Int32)
  | noCount (length : Int16)
  | tooFew (declared greatest : Nat)
  | otherCount (declared previous : Nat)
  | beyond (number limit : Nat)
  deriving DecidableEq, Repr

def Misfit.message : Misfit → String
  | .negativeNumber number => s!"negative fragment id {number}"
  | .noCount length => s!"header declares {length} fragments"
  | .tooFew declared greatest =>
    s!"header declares {declared} fragments, but fragment #{greatest} was received"
  | .otherCount declared previous =>
    s!"duplicate header declares {declared} fragments instead of {previous}"
  | .beyond number limit => s!"fragment #{number} exceeds the bundle's {limit} fragments"

inductive Insertion where
  | added
  | duplicate
  | invalid (why : Misfit)
  deriving DecidableEq, Repr

structure Assembly where
  /-- the fragment with number `i` is in slot `i` -/
  slots : Array (Option Fragment)
  /-- the number of slots taken -/
  present : Nat
  /-- the number of data fragments, once the header is there -/
  declared : Option Nat
  /-- when a fragment was last added -/
  lastArrival : Moment
  /-- when the bundle is expected to be whole, and until when it is kept afterwards -/
  deadline : Moment
  /-- all fragments were there and made up a bundle -/
  complete : Bool
  /-- the sender was told so -/
  acked : Bool
  deriving Repr

namespace Assembly

def empty (now deadline : Moment) : Assembly := ⟨#[], 0, none, now, deadline, false, false⟩

/-- the slots, extended as far as slot `i` -/
def extend (slots : Array (Option Fragment)) (i : Nat) : Array (Option Fragment) :=
  if slots.size ≤ i then slots ++ Array.replicate (i + 1 - slots.size) none else slots

/-- the fragment in slot `i` -/
def at? (a : Assembly) (i : Nat) : Option Fragment := a.slots[i]?.join

/-- puts a fragment into slot `i` unless it is taken -/
def place (a : Assembly) (i : Nat) (f : Fragment) : Insertion × Assembly :=
  match a.at? i with
  | some _ => (.duplicate, a)
  | none =>
    (.added,
      { a with
        slots := (extend a.slots i).setIfInBounds i (some f)
        present := a.present + 1 })

/-- puts a header into slot 0, unless the count that it declares contradicts what is known -/
def insertHeader (a : Assembly) (f : Fragment) : Insertion × Assembly :=
  if f.length ≤ 0 then (.invalid (.noCount f.length), a)
  else
    let declared := Width.payloadLength f.length
    if declared + 1 < a.slots.size then (.invalid (.tooFew declared (a.slots.size - 1)), a)
    else
      match a.declared with
      | some previous =>
        if previous ≠ declared then (.invalid (.otherCount declared previous), a)
        else place a 0 f
      | none => place { a with declared := some declared } 0 f

/-- puts a data fragment into slot `i`, unless the bundle has no such slot -/
def insertData (a : Assembly) (i : Nat) (f : Fragment) : Insertion × Assembly :=
  let limit := a.declared.getD Fragment.maxCount
  if limit < i then (.invalid (.beyond i limit), a) else place a i f

def insert (a : Assembly) (f : Fragment) : Insertion × Assembly :=
  if f.number < 0 then (.invalid (.negativeNumber f.number), a)
  else if f.number = 0 then insertHeader a f
  else insertData a f.number.toInt.toNat f

def missing (a : Assembly) : Option Nat := a.declared.map fun n => n + 1 - a.present

def isCollected (a : Assembly) : Bool := a.missing == some 0

/-- the fragments in the slots, in order -/
def fragments (a : Assembly) : List Fragment := a.slots.toList.filterMap id

def release (a : Assembly) : List Fragment × Assembly :=
  (a.fragments, { a with slots := #[], present := 0 })

@[simp] theorem fragments_empty (now deadline : Moment) : (empty now deadline).fragments = [] := rfl

@[simp] theorem fragments_release (a : Assembly) : a.release.1 = a.fragments := rfl

/-- a duplicate changes nothing -/
theorem place_duplicate {a b : Assembly} {i : Nat} {f : Fragment}
    (h : place a i f = (.duplicate, b)) : b = a := by
  unfold place at h
  split at h <;> cases h
  rfl

end Assembly

end BundleLink
