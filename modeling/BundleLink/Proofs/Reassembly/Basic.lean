import BundleLink.Proofs.Parts

/-!
# What should become of a mixture of fragments

Fragments of several bundles arrive in any order, some of them more than once and others never. A
bundle becomes ready with the fragment that is the last one of it to be seen, and this fragment and
all those of the bundle that follow it are answered by an ack.

* `Family`       bundles with different keys;
* `Family.deliveries`, `Family.acks`  what becomes ready, and what is answered, in order;
* `deliveries_append`, `acks_append`  one sequence of fragments after the other;
* `mem_deliveries`, `nodup_deliveries`  all bundles that are there completely become ready, each of
  them once.
-/

namespace BundleLink

/-- The bundles that a sender cut in a layout, each with a fragment size of its own. -/
structure Family (layout : Layout) where
  parcels : List Parcel
  split : ∀ m ∈ parcels, ∃ size, Bundle.split layout size m.key m.buffer = .ok m.parts
  distinct : parcels.Pairwise fun m m' => m.key ≠ m'.key

/-- all fragments are among those seen -/
def Parcel.whole (m : Parcel) (seen : List Fragment) : Bool := m.parts.all (· ∈ seen)

theorem Parcel.whole_iff {m : Parcel} {seen : List Fragment} :
    m.whole seen = true ↔ ∀ g ∈ m.parts, g ∈ seen := by
  simp [whole]

theorem Parcel.whole_eq_false {m : Parcel} {seen : List Fragment} :
    m.whole seen = false ↔ ¬ ∀ g ∈ m.parts, g ∈ seen := by
  rw [← Bool.not_eq_true, whole_iff]

theorem Bundle.Parts.not_whole {layout : Layout} {m : Parcel}
    (h : Parts layout m.key m.buffer m.parts) : m.whole [] = false := by
  rw [Parcel.whole_eq_false]
  intro hall
  have h2 := h.two_le
  cases hparts : m.parts with
  | nil =>
    rw [hparts] at h2
    exact absurd h2 (by decide)
  | cons f gs => exact absurd (hall f (by rw [hparts]; exact List.mem_cons_self)) (by simp)

theorem Parcel.whole_mono {m : Parcel} {seen seen' : List Fragment} (h : m.whole seen = true)
    (hsub : seen ⊆ seen') : m.whole seen' = true :=
  whole_iff.mpr fun g hg => hsub (whole_iff.mp h g hg)

namespace Family

variable {layout : Layout} {m : Parcel} {f : Fragment} {seen fs : List Fragment}

/-- the bundle that a fragment belongs to -/
def owner (family : Family layout) (f : Fragment) : Option Parcel :=
  family.parcels.find? fun m => m.key = f.key

/-- the bundle that a fragment completes -/
def completed (family : Family layout) (seen : List Fragment) (f : Fragment) : List Parcel :=
  ((family.owner f).filter fun m => !m.whole seen && m.whole (f :: seen)).toList

/-- the bundle that a fragment belongs to, if it is there completely -/
def answered (family : Family layout) (seen : List Fragment) (f : Fragment) : List Parcel :=
  ((family.owner f).filter fun m => m.whole (f :: seen)).toList

/-- the bundles that fragments complete one after the other, if others were seen before -/
def deliveries (family : Family layout) (seen : List Fragment) : List Fragment → List Parcel
  | [] => []
  | f :: fs => family.completed seen f ++ family.deliveries (f :: seen) fs

/-- the acks that answer fragments one after the other, if others were seen before -/
def acks (family : Family layout) (seen : List Fragment) : List Fragment → List Fragment
  | [] => []
  | f :: fs =>
    (family.answered seen f).map (fun m => Fragment.ack m.key) ++ family.acks (f :: seen) fs

variable (family : Family layout)

theorem parts (hm : m ∈ family.parcels) : Bundle.Parts layout m.key m.buffer m.parts := by
  obtain ⟨size, hsplit⟩ := family.split m hm
  exact .of_split hsplit

theorem mem_of_owner (h : family.owner f = some m) : m ∈ family.parcels ∧ m.key = f.key := by
  refine ⟨List.mem_of_find?_eq_some h, ?_⟩
  have hkey := List.find?_some h
  exact of_decide_eq_true hkey

theorem owner_eq (hm : m ∈ family.parcels) (hf : f ∈ m.parts) : family.owner f = some m := by
  have hkey : m.key = f.key := ((family.parts hm).key f hf).symm
  cases howner : family.owner f with
  | none =>
    have hnone := List.find?_eq_none.mp howner m hm
    exact absurd hkey (by simpa using hnone)
  | some m' =>
    obtain ⟨hm', hkey'⟩ := family.mem_of_owner howner
    rw [Parcel.eq_of_key family.distinct hm' hm (hkey'.trans hkey.symm)]

/-! ## one fragment -/

theorem completed_eq (seen : List Fragment) (hm : m ∈ family.parcels) (hf : f ∈ m.parts) :
    family.completed seen f = if !m.whole seen && m.whole (f :: seen) then [m] else [] := by
  rw [completed, family.owner_eq hm hf, Option.filter_some]
  split <;> rfl

theorem answered_eq (seen : List Fragment) (hm : m ∈ family.parcels) (hf : f ∈ m.parts) :
    family.answered seen f = if m.whole (f :: seen) then [m] else [] := by
  rw [answered, family.owner_eq hm hf, Option.filter_some]
  split <;> rfl

theorem mem_completed : m ∈ family.completed seen f ↔
    family.owner f = some m ∧ m.whole seen = false ∧ m.whole (f :: seen) = true := by
  rw [completed, Option.mem_toList, Option.filter_eq_some_iff]
  simp

/-- a fragment completes no bundle but its own -/
theorem whole_cons (hm : m ∈ family.parcels) (hf : family.owner f ≠ some m) :
    m.whole (f :: seen) = m.whole seen := by
  rw [Bool.eq_iff_iff, Parcel.whole_iff, Parcel.whole_iff]
  apply forall_congr'
  intro g
  apply forall_congr'
  intro hg
  have hne : g ≠ f := by
    rintro rfl
    exact hf (family.owner_eq hm hg)
  simp [hne]

/-! ## sequences of fragments -/

theorem deliveries_append (seen xs ys : List Fragment) : family.deliveries seen (xs ++ ys) =
    family.deliveries seen xs ++ family.deliveries (xs.reverse ++ seen) ys := by
  induction xs generalizing seen with
  | nil => rfl
  | cons f xs ih =>
    rw [List.cons_append, deliveries, deliveries, ih, List.reverse_cons, List.append_assoc,
      List.append_assoc]
    rfl

theorem acks_append (seen xs ys : List Fragment) : family.acks seen (xs ++ ys) =
    family.acks seen xs ++ family.acks (xs.reverse ++ seen) ys := by
  induction xs generalizing seen with
  | nil => rfl
  | cons f xs ih =>
    rw [List.cons_append, acks, acks, ih, List.reverse_cons, List.append_assoc, List.append_assoc]
    rfl

/-- the bundles that become ready are those that were not there completely before and are then -/
theorem mem_deliveries : m ∈ family.deliveries seen fs ↔
    m ∈ family.parcels ∧ m.whole seen = false ∧ m.whole (fs.reverse ++ seen) = true := by
  induction fs generalizing seen with
  | nil =>
    refine ⟨fun h => (nomatch h), ?_⟩
    rintro ⟨_, hnot, hwhole⟩
    rw [List.reverse_nil, List.nil_append, hnot] at hwhole
    cases hwhole
  | cons f fs ih =>
    have hsub : f :: seen ⊆ fs.reverse ++ f :: seen := List.subset_append_right _ _
    rw [deliveries, List.mem_append, ih, mem_completed, List.reverse_cons, List.append_assoc,
      List.cons_append, List.nil_append]
    constructor
    · rintro (⟨howner, hnot, hwhole⟩ | ⟨hm, hnot, hwhole⟩)
      · exact ⟨(family.mem_of_owner howner).1, hnot, Parcel.whole_mono hwhole hsub⟩
      · refine ⟨hm, ?_, hwhole⟩
        cases hbefore : m.whole seen with
        | false => rfl
        | true =>
          rw [Parcel.whole_mono hbefore (List.subset_cons_self f seen)] at hnot
          exact hnot
    · rintro ⟨hm, hnot, hwhole⟩
      cases hnow : m.whole (f :: seen) with
      | false => exact .inr ⟨hm, rfl, hwhole⟩
      | true =>
        left
        refine ⟨?_, hnot, rfl⟩
        by_cases howner : family.owner f = some m
        · exact howner
        · rw [family.whole_cons hm howner, hnot] at hnow
          cases hnow

theorem nodup_deliveries : (family.deliveries seen fs).Nodup := by
  induction fs generalizing seen with
  | nil => exact List.nodup_nil
  | cons f fs ih =>
    refine List.nodup_append.mpr ⟨?_, ih, ?_⟩
    · rw [completed]
      cases Option.filter _ (family.owner f) with
      | none => exact List.nodup_nil
      | some m => exact List.nodup_cons.mpr ⟨List.not_mem_nil, List.nodup_nil⟩
    · intro m hm m' hm' heq
      subst heq
      have hwhole := (family.mem_completed.mp hm).2.2
      rw [(family.mem_deliveries.mp hm').2.1] at hwhole
      cases hwhole

end Family

end BundleLink
