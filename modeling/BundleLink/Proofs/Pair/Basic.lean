import BundleLink.Channel.Duplex
import BundleLink.Link.Receive
import BundleLink.Link.Write
import BundleLink.Proofs.Utf8

/-!
# Two links on the ends of one memory channel

The applications at both ends work on their links in any order, one operation at a time, while time
goes by. Besides the links it is recorded which buffers each application had accepted and which
bundles it got.

* `Party`           a link and the record of its application;
* `Pair`            both parties, their memory channel and the clock;
* `Pair.Operation`  what an application can do, `Pair.Event` that, and what happens to both;
* `Pair.run`        the pair after a series of events;
* `Apart`           the generations of the two sides do not meet.

A fault stops the party that met it: from then on its application can only read what is ready, or
declare the link closed.
-/

namespace BundleLink

theorem Side.description_inj {s t : Side} (h : s.description = t.description) : s = t := by
  cases s <;> cases t <;> first | rfl | exact absurd h (by decide)

theorem Side.opposite_ne (s : Side) : s.opposite ≠ s := by cases s <;> exact nofun

theorem Side.eq_or_opposite (s t : Side) : t = s ∨ t = s.opposite := by
  cases s <;> cases t <;> first | exact .inl rfl | exact .inr rfl

structure Party where
  link : Link
  /-- an operation met a fault -/
  halted : Bool
  /-- the bundles that the application read, the oldest one first -/
  taken : List Bytes
  /-- the buffers of the writes that succeeded, the oldest one first -/
  accepted : List Bytes

/-- the bundles received so far: those that were read, and those that are ready -/
def Party.delivered (x : Party) : List Bytes := x.taken ++ x.link.ready

/-- the party after a read with this result -/
def Party.gets (x : Party) : Except LinkError (Option Bytes) × Link → Party
  | (.ok (some bundle), l) => { x with link := l, taken := x.taken ++ [bundle] }
  | (_, l) => { x with link := l }

theorem Party.gets_eq (x : Party) (r : Except LinkError (Option Bytes) × Link) :
    (x.gets r).link = r.2 ∧ (x.gets r).halted = x.halted := by
  rcases r with ⟨_ | _ | _, l⟩ <;> exact ⟨rfl, rfl⟩

/-- the party after a move to the next generation, if there is one -/
def Party.advance (x : Party) : Party :=
  match x.link.advanceGeneration with
  | (.ok _, l) => { x with link := l }
  | (.error _, l) => { x with link := l, halted := true }

theorem Party.advance_of_ne {x : Party} (h : x.link.generation ≠ Link.lastGeneration) :
    x.advance = { x with link := { x.link with generation := x.link.generation + 1 } } := by
  rw [advance, Link.advanceGeneration, if_neg h]

theorem Party.advance_of_last {x : Party} (h : x.link.generation = Link.lastGeneration) :
    x.advance = { x with halted := true } := by
  rw [advance, Link.advanceGeneration, if_pos h]

theorem Party.advance_eq (x : Party) :
    x.advance = { x with link := { x.link with generation := x.link.generation + 1 } } ∨
      x.advance = { x with halted := true } := by
  by_cases h : x.link.generation = Link.lastGeneration
  · exact .inr (advance_of_last h)
  · exact .inl (advance_of_ne h)

/-- what holds of a state, and of what becomes of it if no fault has stopped the party -/
theorem Party.unless_halted {α : Type} {P : α → Prop} {x : Party} {a b : α} (ha : P a)
    (hb : x.halted = false → P b) : P (if x.halted then a else b) := by
  split
  · exact ha
  · rename_i hhalted
    exact hb (Bool.eq_false_iff.mpr hhalted)

structure Pair where
  now : Moment
  duplex : Duplex
  party : Side → Party

/-- The generation `h` is reached from `g` by advancing at most `n` times. -/
def Reached (g : UInt64) (n : Nat) (h : UInt64) : Prop := ∃ i, i ≤ n ∧ h = g + UInt64.ofNat i

theorem advanced_add (g : UInt64) (i : Nat) :
    g + 1 + UInt64.ofNat i = g + UInt64.ofNat (i + 1) := by
  rw [UInt64.ofNat_add, UInt64.add_assoc, UInt64.add_comm 1]
  rfl

/-- From the generations that the two sides start with, neither of them comes to generation 0, nor
both of them to the same one, if each side advances its own that often. -/
structure Apart (generation : Side → UInt64) (advances : Side → Nat) : Prop where
  ne_zero : ∀ s g, Reached (generation s) (advances s) g → g ≠ 0
  disjoint : ∀ g, Reached (generation .first) (advances .first) g →
    ¬ Reached (generation .second) (advances .second) g

theorem Reached.toNat_le {g h : UInt64} {n : Nat} (hr : Reached g n h)
    (hn : g.toNat + n < UInt64.size) : g.toNat ≤ h.toNat ∧ h.toNat ≤ g.toNat + n := by
  obtain ⟨i, hi, rfl⟩ := hr
  have hsum : (g + UInt64.ofNat i).toNat = g.toNat + i := by
    have hsmall : i < UInt64.size := by omega
    have hroom : g.toNat + i < UInt64.size := by omega
    rw [UInt64.toNat_add, UInt64.toNat_ofNat_of_lt' hsmall, Nat.mod_eq_of_lt hroom]
  omega

theorem Apart.of_lt {generation : Side → UInt64} {advances : Side → Nat}
    (hfirst : 0 < (generation .first).toNat)
    (hsecond : (generation .first).toNat + advances .first < (generation .second).toNat)
    (hlimit : (generation .second).toNat + advances .second < UInt64.size) :
    Apart generation advances := by
  constructor
  · intro s g hg h0
    subst h0
    cases s with
    | first => exact absurd (hg.toNat_le (by omega)).1 (Nat.not_le.mpr hfirst)
    | second =>
      have hle : (generation .second).toNat ≤ 0 := (hg.toNat_le hlimit).1
      omega
  · intro g hg hg'
    have hle := (hg.toNat_le (by omega)).2
    have hle' := (hg'.toNat_le hlimit).1
    omega

/-- A side that does not come to generation 0 does not come to the end of all generations either. -/
theorem Apart.toNat_add_le {generation : Side → UInt64} {advances : Side → Nat}
    (h : Apart generation advances) (s : Side) :
    (generation s).toNat + advances s ≤ Link.lastGeneration.toNat := by
  refine Nat.le_of_not_lt fun hlt => ?_
  have hlast : Link.lastGeneration.toNat + 1 = UInt64.size := rfl
  have hg := (generation s).toNat_lt_size
  refine h.ne_zero s _ ⟨UInt64.size - (generation s).toNat, by omega, rfl⟩ (UInt64.toNat.inj ?_)
  rw [UInt64.toNat_add, UInt64.toNat_ofNat', Nat.add_mod_mod, Nat.add_sub_of_le (Nat.le_of_lt hg)]
  rfl

/-- generations that the two sides can start with, some way apart -/
def spaced : Side → UInt64
  | .first => 1
  | .second => 5

namespace Pair

inductive Operation where
  | write (buffer : Bytes) (flushNow : Bool)
  | writeText (text : String) (flushNow : Bool)
  | receive
  | read
  | readInto (buffer : Bytes)
  | readText
  | setFragmentSize (size : Nat)
  | advanceGeneration
  | close

inductive Event where
  /-- an operation at one side -/
  | act (s : Side) (op : Operation)
  /-- both links change their layout, which they only do while no bytes are on their way -/
  | switchLayout (layout : Layout)
  /-- time goes by -/
  | pass (d : Span)

/-- two links that were just opened -/
def opened (now : Moment) (id : Side → Nat) (settings : Side → Settings)
    (generation : Side → UInt64) : Pair where
  now := now
  duplex := .empty
  party s :=
    { link := .opened (id s) s.description (settings s) (generation s) now
      halted := false
      taken := []
      accepted := [] }

/-- the link of a side, with its end of the memory channel -/
def attached (p : Pair) (s : Side) : Attached End := ⟨(p.party s).link, ⟨s, p.duplex⟩⟩

def put (p : Pair) (s : Side) (x : Party) (d : Duplex) : Pair :=
  { p with duplex := d, party := fun t => if t = s then x else p.party t }

/-- what an operation of a side on its channel leaves; `buffers` count as accepted if it succeeds -/
def settle (p : Pair) (s : Side) (buffers : List Bytes) : Outcome End Unit → Pair
  | .ok () a =>
    p.put s { p.party s with link := a.link, accepted := (p.party s).accepted ++ buffers }
      a.channel.duplex
  | .error (.error _) a => p.put s { p.party s with link := a.link } a.channel.duplex
  | .error (.fault _) a =>
    p.put s { p.party s with link := a.link, halted := true } a.channel.duplex

/-- an operation that needs the state of the protocol, which a fault makes inaccessible -/
def work (p : Pair) (s : Side) : Operation → Pair
  | .write buffer flushNow =>
    p.settle s [buffer] ((p.attached s).write buffer flushNow p.now)
  | .writeText text flushNow =>
    p.settle s [Utf8.encode text] ((p.attached s).write (Utf8.encode text) flushNow p.now)
  | .receive => p.settle s [] ((p.attached s).receive p.now)
  | .setFragmentSize size =>
    p.put s { p.party s with link := ((p.party s).link.setFragmentSize size).2 } p.duplex
  | .advanceGeneration => p.put s (p.party s).advance p.duplex
  | .close =>
    p.put s { p.party s with link := (p.attached s).close.link }
      (p.attached s).close.channel.duplex
  | _ => p

def act (p : Pair) (s : Side) (op : Operation) : Pair :=
  let x := p.party s
  match op with
  | .read => p.put s (x.gets x.link.read) p.duplex
  | .readInto buffer =>
    let (r, out, l) := x.link.readInto buffer
    p.put s (x.gets (r.map (Option.map fun n => out.take n), l)) p.duplex
  | .readText =>
    let (r, l) := x.link.readText
    p.put s (x.gets (r.map (Option.map Utf8.encode), l)) p.duplex
  | .close =>
    if x.halted then p.put s { x with link := { x.link with connected := false } } p.duplex
    else p.work s op
  | op => if x.halted then p else p.work s op

/-- no bytes are on their way, and both sides are at work -/
def isQuiet (p : Pair) : Bool :=
  p.duplex.forth.toBytes.isEmpty && p.duplex.back.toBytes.isEmpty
    && (p.party .first).link.raw.isEmpty && (p.party .second).link.raw.isEmpty
    && !(p.party .first).halted && !(p.party .second).halted

/-- An event that can not happen changes nothing. -/
def step (p : Pair) : Event → Pair
  | .act s op => p.act s op
  | .switchLayout layout =>
    if p.isQuiet then
      { p with
        party := fun s => { p.party s with link := (p.party s).link.setLayout layout } }
    else p
  | .pass d =>
    match p.now.add d with
    | .ok now => { p with now := now }
    | .error _ => p

def run (p : Pair) (es : List Event) : Pair := es.foldl step p

/-- how often a side advances its generation -/
def advances (s : Side) (es : List Event) : Nat :=
  es.countP fun
    | .act t .advanceGeneration => t = s
    | _ => false

@[simp] theorem party_put (p : Pair) (s : Side) (x : Party) (d : Duplex) :
    (p.put s x d).party s = x := if_pos rfl

@[simp] theorem party_put_opposite (p : Pair) (s : Side) (x : Party) (d : Duplex) :
    (p.put s x d).party s.opposite = p.party s.opposite := by cases s <;> rfl

theorem put_self (p : Pair) (s : Side) : p.put s (p.party s) p.duplex = p := by
  have hparty : (fun t => if t = s then p.party s else p.party t) = p.party := by
    funext t
    split
    · rename_i h
      rw [h]
    · rfl
  rw [put, hparty]

@[simp] theorem duplex_put (p : Pair) (s : Side) (x : Party) (d : Duplex) :
    (p.put s x d).duplex = d := rfl

end Pair

end BundleLink
