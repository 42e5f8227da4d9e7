/-!
# The roster of open links

Links are numbered in the order in which they are opened, and are on the roster until they close.

* `Roster.enrol`   the next number, which is put at the end of the roster;
* `Roster.strike`  takes a number off, whatever its place;
* `Roster.at?`     the link at a position, for going round them in turn.
-/

namespace BundleLink

structure Roster where
  /-- The number of the next link. No roster gives out so many that the width of this counter would
  matter, so it has none. -/
  nextId : Nat
  /-- the links in the order of opening -/
  ids : List Nat
  deriving DecidableEq, Repr

namespace Roster

def empty : Roster := ⟨0, []⟩

def enrol (r : Roster) : Nat × Roster := (r.nextId, ⟨r.nextId + 1, r.ids ++ [r.nextId]⟩)

def strike (r : Roster) (id : Nat) : Roster := { r with ids := r.ids.filter (· ≠ id) }

def size (r : Roster) : Nat := r.ids.length

def isEmpty (r : Roster) : Bool := r.ids.isEmpty

/-- the link at a position; positions shift when links close -/
def at? (r : Roster) (i : Nat) : Option Nat := r.ids[i]?

@[simp] theorem ids_enrol (r : Roster) : r.enrol.2.ids = r.ids ++ [r.nextId] := rfl

theorem mem_ids_strike {r : Roster} {i j : Nat} : i ∈ (r.strike j).ids ↔ i ∈ r.ids ∧ i ≠ j := by
  simp [strike]

end Roster

end BundleLink
