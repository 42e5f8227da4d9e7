import BundleLink.Proofs.Joining
import BundleLink.Proofs.Scanning
import BundleLink.Proofs.Session.Deeds
import BundleLink.Proofs.Turns

/-!
# What a session heard, and what it made of it

Next to a session a chronicle is written. It holds all bytes that receives read, and one note for
each fragment that was handled: where it stands in these bytes, whether it began a new entry for its
key, and which bundle it made ready. Nothing in the session depends on the chronicle.

* `Note`, `Attached.notes`   the notes, in the order in which the fragments are handled;
* `Chronicle`, `Session.chronicle`  bytes and notes of a run;
* `Stretch`                  the notes from the one that began the entry of a key on;
* `Origin`                   the notes of the header and the data fragments of one delivery,
  `Origin.Genuine` what their fragments are like, `Origin.From` where in the chronicle they are;
* `Origins`                  the origins of all deliveries, no two of which share a note;
* `Sourced`                  the entry of a key holds what its notes say, with `Sourced.grow`.
-/

namespace BundleLink

/-- one fragment that was handled -/
structure Note extends Wire.Find where
  /-- the fragment began a new entry for its key -/
  created : Bool
  /-- the bundle that was made ready with it -/
  bundle : Option Bytes
  deriving DecidableEq, Repr

namespace Attached

variable {σ : Type} [Channel σ]

/-- the bytes that a receive reads -/
def input (a : Attached σ) : Bytes := a.intake.chunks.reverse.flatten

/-- what is noted of a fragment that is handled next -/
def note (now : Moment) (offset : Nat) (f : Fragment) (a : Attached σ) : Note :=
  let b := (handle f now (a.arrived now)).after
  { offset := offset
    fragment := f
    created := (a.link.inbound.get? f.key).isNone && (b.link.inbound.get? f.key).isSome
    bundle := (b.link.ready.drop a.link.ready.length).head? }

/-- the notes of the fragments among pieces, up to the first failure -/
def notes (now : Moment) (offset : Nat) : List Wire.Piece → Attached σ → List Note
  | [], _ => []
  | .skipped size flaw :: ps, a =>
    notes now (offset + size) ps (a.warn (.dropped size a.link.description flaw))
  | .fragment f size :: ps, a =>
    a.note now offset f ::
      match handle f now (a.arrived now) with
      | .ok () b => notes now (offset + size) ps b
      | .error _ _ => []

theorem notes_isPrefix (now : Moment) (offset : Nat) (ps : List Wire.Piece) (a : Attached σ) :
    (notes now offset ps a).map Note.toFind <+: Wire.finds offset ps := by
  induction ps generalizing offset a with
  | nil => exact List.nil_prefix
  | cons p ps ih =>
    cases p with
    | skipped size flaw => exact ih (offset + size) _
    | fragment f size =>
      rw [notes, List.map_cons, Wire.finds]
      apply List.cons_prefix_cons.mpr
      refine ⟨rfl, ?_⟩
      split
      · exact ih (offset + size) _
      · exact List.nil_prefix

end Attached

structure Chronicle where
  /-- the bytes that were read -/
  heard : Bytes
  notes : List Note

def Chronicle.blank : Chronicle := ⟨[], []⟩

/-- the chronicle after a receive; the bytes that were left over before are the last ones heard -/
def Chronicle.receive {σ : Type} [Channel σ] (c : Chronicle) (now : Moment) (a : Attached σ) :
    Chronicle where
  heard := c.heard ++ a.input
  notes := c.notes ++
    match a.intake.ended with
    | .ok _ => Attached.notes now (c.heard.length - a.link.raw.length) a.pieces a.loaded
    | .error _ => []

namespace Session

variable {σ : Type} [Channel σ]

/-- what an event adds to the chronicle; a link that is of no use any more does not listen -/
def record (s : Session σ) (c : Chronicle) : Event → Chronicle
  | .act .receive now =>
    if s.party.link.connected && !s.party.halted then c.receive now s.attached else c
  | _ => c

/-- the chronicle after a run that starts with the chronicle `c` -/
def chronicle (s : Session σ) (c : Chronicle) : List Event → Chronicle
  | [] => c
  | e :: es => (s.step e).chronicle (s.record c e) es

end Session

/-! ## origins -/

/-- the note is about the fragment with that number of the bundle -/
def Note.isFor (k : Key) (i : Nat) (n : Note) : Bool :=
  n.fragment.key == k && n.fragment.isPart && n.fragment.slot == i

theorem Note.isFor_iff {k : Key} {i : Nat} {n : Note} :
    n.isFor k i = true ↔ n.fragment.key = k ∧ n.fragment.isPart = true ∧ n.fragment.slot = i := by
  rw [isFor, Bool.and_eq_true, Bool.and_eq_true, beq_iff_eq, beq_iff_eq, and_assoc]

/-- The notes start where the entry for the key was last begun. -/
inductive Stretch (k : Key) : List Note → Prop
  | mk (first : Note) (rest : List Note) (key : first.fragment.key = k)
      (created : first.created = true)
      (last : ∀ n ∈ rest, n.fragment.key = k → n.created = false) : Stretch k (first :: rest)

theorem Stretch.append {k : Key} {w : List Note} (h : Stretch k w) {x : Note}
    (hx : x.fragment.key = k → x.created = false) : Stretch k (w ++ [x]) := by
  obtain ⟨first, rest, hkey, hcreated, hlast⟩ := h
  refine ⟨first, rest ++ [x], hkey, hcreated, ?_⟩
  intro n hn
  rcases List.mem_append.mp hn with hn | hn
  · exact hlast n hn
  · rw [List.mem_singleton.mp hn]
    exact hx

/-- what a delivered bundle was made from -/
structure Origin where
  key : Key
  header : Note
  data : List Note
  bundle : Bytes

namespace Origin

/-- all notes of a delivery -/
def notes (o : Origin) : List Note := o.header :: o.data

/-- The notes are about a header and the data fragments that it declares, all with one key, and the
payloads of the data fragments, in order, are the bundle. -/
structure Genuine (layout : Layout) (o : Origin) : Prop where
  key : ∀ n ∈ o.notes, n.fragment.key = o.key
  sound : Bundle.Sound layout o.header.fragment (o.data.map (·.fragment))
  bundle : o.bundle = Bundle.payloads (o.data.map (·.fragment))

/-- Of the notes since the entry for the key was last begun, up to the one that made the bundle
ready, header and data are the first ones of their numbers. -/
def From (ns : List Note) (o : Origin) : Prop :=
  ∃ past w later, ns = past ++ w ++ later ∧ Stretch o.key w ∧
    (∃ n, w.getLast? = some n ∧ n.fragment.key = o.key ∧ n.bundle = some o.bundle) ∧
    w.find? (Note.isFor o.key 0) = some o.header ∧
    ∀ i n, o.data[i]? = some n → w.find? (Note.isFor o.key (i + 1)) = some n

theorem From.append {ns : List Note} {o : Origin} (h : o.From ns) (more : List Note) :
    o.From (ns ++ more) := by
  obtain ⟨past, w, later, hns, hw, hlast, hheader, hdata⟩ := h
  exact ⟨past, w, later ++ more, by rw [hns, List.append_assoc _ _ more], hw, hlast, hheader, hdata⟩

/-- a note among the notes of an origin, and the number that it is for -/
theorem From.mem {ns : List Note} {o : Origin} (h : o.From ns) {n : Note} (hn : n ∈ o.notes) :
    n ∈ ns ∧ n.fragment.key = o.key := by
  obtain ⟨past, w, later, rfl, -, -, hheader, hdata⟩ := h
  have hfound {i : Nat} (hi : w.find? (Note.isFor o.key i) = some n) :
      n ∈ past ++ w ++ later ∧ n.fragment.key = o.key :=
    ⟨List.mem_append_left _ (List.mem_append_right _ (List.mem_of_find?_eq_some hi)),
      (Note.isFor_iff.mp (List.find?_some hi)).1⟩
  rcases List.mem_cons.mp hn with rfl | hn
  · exact hfound hheader
  · obtain ⟨i, hi⟩ := List.mem_iff_getElem?.mp hn
    exact hfound (hdata i n hi)

/-- the notes of one delivery are different ones, since their numbers are -/
theorem From.nodup {ns : List Note} {o : Origin} (h : o.From ns) : o.notes.Nodup := by
  obtain ⟨past, w, later, -, -, -, hheader, hdata⟩ := h
  have hslot {i : Nat} {n : Note} (hi : w.find? (Note.isFor o.key i) = some n) :
      n.fragment.slot = i := (Note.isFor_iff.mp (List.find?_some hi)).2.2
  rw [notes, List.nodup_cons]
  constructor
  · intro hmem
    obtain ⟨i, hi⟩ := List.mem_iff_getElem?.mp hmem
    have h0 := hslot hheader
    rw [hslot (hdata i _ hi)] at h0
    omega
  · rw [List.Nodup, List.pairwise_iff_getElem]
    intro i j hi hj hij heq
    have h1 := hslot (hdata i _ (List.getElem?_eq_getElem hi))
    rw [heq, hslot (hdata j _ (List.getElem?_eq_getElem hj))] at h1
    omega

end Origin

/-- The origins of all deliveries so far. -/
structure Origins (layout : Layout) (ns : List Note) (os : List Origin) : Prop where
  genuine : ∀ o ∈ os, o.Genuine layout ∧ o.From ns
  apart : (os.flatMap Origin.notes).Nodup

namespace Origins

variable {layout : Layout} {ns : List Note} {os : List Origin} {o : Origin}

theorem none (layout : Layout) (ns : List Note) : Origins layout ns [] :=
  ⟨fun _ ho => absurd ho List.not_mem_nil, .nil⟩

theorem append (h : Origins layout ns os) (more : List Note) : Origins layout (ns ++ more) os :=
  ⟨fun o ho => ⟨(h.genuine o ho).1, (h.genuine o ho).2.append more⟩, h.apart⟩

theorem mem (h : Origins layout ns os) {n : Note} (hn : n ∈ os.flatMap Origin.notes) : n ∈ ns := by
  obtain ⟨o, ho, hno⟩ := List.mem_flatMap.mp hn
  exact ((h.genuine o ho).2.mem hno).1

theorem concat (h : Origins layout ns os) (hgenuine : o.Genuine layout) (hfrom : o.From ns)
    (hnew : ∀ n ∈ o.notes, n ∉ os.flatMap Origin.notes) : Origins layout ns (os ++ [o]) := by
  refine ⟨?_, ?_⟩
  · intro o' ho'
    rcases List.mem_append.mp ho' with ho' | ho'
    · exact h.genuine o' ho'
    · rw [List.mem_singleton.mp ho']
      exact ⟨hgenuine, hfrom⟩
  · rw [List.flatMap_append, List.flatMap_singleton, List.nodup_append]
    refine ⟨h.apart, hfrom.nodup, ?_⟩
    intro n hn m hm heq
    exact hnew m hm (heq ▸ hn)

end Origins

/-! ## entries under way -/

/-- Each slot of the assembly holds the fragment of the first note for its number since the entry
for the key was begun, and none of these notes was used for a delivery. -/
def Sourced (ns : List Note) (os : List Origin) (k : Key) (asm : Assembly) : Prop :=
  ∃ past w, ns = past ++ w ∧ Stretch k w ∧
    (∀ i, asm.at? i = (w.find? (Note.isFor k i)).map (·.fragment)) ∧
    ∀ n ∈ w, n.fragment.key = k → n ∉ os.flatMap Origin.notes

namespace Sourced

variable {layout : Layout} {now : Moment} {ns : List Note} {os os' : List Origin} {k : Key}
  {asm b : Assembly} {x : Note} {o : Option Assembly}

/-- only what the slots hold matters -/
theorem congr (h : Sourced ns os k asm) (hat : ∀ i, b.at? i = asm.at? i) : Sourced ns os k b := by
  obtain ⟨past, w, hns, hw, hslot, hunused⟩ := h
  exact ⟨past, w, hns, hw, fun i => (hat i).trans (hslot i), hunused⟩

/-- a fragment that no slot takes -/
theorem skip (h : Sourced ns os k asm)
    (hx : x.fragment.key = k → x.created = false ∧
      (x.fragment.isPart = true → ∃ g, asm.at? x.fragment.slot = some g))
    (hunused : ∀ n, n.fragment.key = k → n ∈ os'.flatMap Origin.notes →
      n ∈ os.flatMap Origin.notes)
    (hfresh : x.fragment.key = k → x ∉ os'.flatMap Origin.notes) :
    Sourced (ns ++ [x]) os' k asm := by
  obtain ⟨past, w, rfl, hw, hslot, hold⟩ := h
  refine ⟨past, w ++ [x], List.append_assoc _ _ _, hw.append fun hk => (hx hk).1, ?_, ?_⟩
  · intro i
    rw [hslot, List.find?_append]
    cases hfound : w.find? (Note.isFor k i) with
    | some n => rfl
    | none =>
      have hnot : x.isFor k i = false := by
        rw [Bool.eq_false_iff]
        intro hfor
        obtain ⟨hkey, hpart, rfl⟩ := Note.isFor_iff.mp hfor
        obtain ⟨g, hg⟩ := (hx hkey).2 hpart
        rw [hslot, hfound] at hg
        cases hg
      rw [List.find?_singleton, hnot]
      rfl
  · intro n hn hk hused
    rcases List.mem_append.mp hn with hn | hn
    · exact hold n hn hk (hunused n hk hused)
    · rw [List.mem_singleton.mp hn] at hk hused
      exact hfresh hk hused

/-- a fragment that goes into a free slot -/
theorem grow {asm grown : Assembly} (hbegins : Attached.Begins now o asm)
    (hentry : ∀ asm, o = some asm → asm.complete = false → Sourced ns os x.fragment.key asm)
    (hpart : x.fragment.isPart = true) (hinserted : asm.insert x.fragment = (.added, grown))
    (hcreated : x.created = o.isNone) (hfresh : x ∉ os.flatMap Origin.notes) :
    Sourced (ns ++ [x]) os x.fragment.key grown := by
  obtain ⟨hfree, hgrown, -⟩ := Assembly.insert_added hinserted
  have hself (i : Nat) : x.isFor x.fragment.key i = decide (i = x.fragment.slot) := by
    rw [Note.isFor, beq_self_eq_true, hpart, Bool.true_and, Bool.true_and, Bool.eq_iff_iff,
      beq_iff_eq, decide_eq_true_iff, eq_comm]
  cases hbegins with
  | new deadline =>
    refine ⟨ns, [x], rfl, ⟨x, [], rfl, hcreated,
      fun _ hn => absurd hn List.not_mem_nil⟩, ?_, ?_⟩
    · intro i
      rw [hgrown, List.find?_singleton, hself]
      by_cases hi : i = x.fragment.slot
      · simp [hi]
      · simp [hi]
    · intro n hn _
      rw [List.mem_singleton.mp hn]
      exact hfresh
  | underway _ hopen =>
    obtain ⟨past, w, rfl, hw, hslot, hold⟩ := hentry asm rfl hopen
    refine ⟨past, w ++ [x], List.append_assoc _ _ _, hw.append fun _ => hcreated, ?_, ?_⟩
    · intro i
      rw [hgrown, List.find?_append, List.find?_singleton, hself]
      by_cases hi : i = x.fragment.slot
      · rw [hslot, Option.map_eq_none_iff] at hfree
        rw [hi, hfree]
        simp
      · rw [hslot]
        simp [hi]
    · intro n hn hk
      rcases List.mem_append.mp hn with hn | hn
      · exact hold n hn hk
      · rw [List.mem_singleton.mp hn]
        exact hfresh

end Sourced

end BundleLink
