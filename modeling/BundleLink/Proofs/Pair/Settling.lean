import BundleLink.Proofs.Pair.Steady

/-!
# Two links come to rest

When both applications do nothing but receive, each receive handles fragments and may write acks,
which the peer has to handle in turn. What is left to do gets less nevertheless: an ack is only
written for a fragment that asks for it, or for a bundle that is outbound no longer. Once nothing is
left, all bundles are delivered, nobody waits for anything, and receives change nothing.

* `Pair.receiveAt`, `Pair.rounds`, `Pair.Succeed`  series of receives;
* `Pair.load`          what is left to do, and `Handles.load_lt` that a receive makes it less;
* `Pair.Drained`       nothing is left to do;
* `Pair.Settled`       and receives change nothing at all;
* `Pair.settles`       the result.
-/

namespace BundleLink

open Link (Calm)

/-! ## receiving nothing -/

theorem Pipe.read_nothing {p : Pipe} (h : p.toBytes = []) (hopen : p.closed = false) (n : Nat) :
    p.read n = (.nothing, .empty) := by
  have hsettled : p.settle = .empty := by
    have hfront := p.front_settle
    have hback := p.back_settle
    have hclosed := p.closed_settle
    rw [h] at hfront
    rw [hopen] at hclosed
    show p.settle = ⟨[], [], false⟩
    rw [← hfront, ← hback, ← hclosed]
  rw [read, hsettled]
  rfl

namespace Attached

/-- with no bundle under assembly and none outbound, the clock does not matter -/
theorem conclude_nothing {σ : Type} {a : Attached σ} (houtbound : a.link.outbound = .empty)
    (hinbound : a.link.inbound = .empty) (now : Moment) : conclude now false 0 a = .ok () a := by
  have hpurge : a.purge now = a := by
    rw [purge, hinbound]
    show ({ a with link := { a.link with inbound := .empty, log := a.link.log } } : Attached σ) = a
    rw [← hinbound]
  have hwaiting : a.link.isWaiting = false := by
    rw [Link.isWaiting, houtbound, hinbound]
    rfl
  rw [conclude]
  dsimp only
  rw [hpurge, hwaiting]
  rfl

/-- after a read that found nothing -/
def listened (a : Attached End) : Attached End where
  link := { a.link with traffic := a.link.traffic.bytesArrived 0 }
  channel := { a.channel with duplex := a.channel.duplex.setInbound a.channel.side .empty }

/-- A link that has nothing and waits for nothing finds nothing. -/
theorem receive_nothing {a : Attached End} (hopen : a.link.connected = true)
    (hvalid : a.link.settings.Valid) (hraw : a.link.raw = [])
    (houtbound : a.link.outbound = .empty) (hinbound : a.link.inbound = .empty)
    (hbytes : (a.channel.duplex.inbound a.channel.side).toBytes = [])
    (hclosed : (a.channel.duplex.inbound a.channel.side).closed = false) (now : Moment) :
    a.receive now = .ok () a.listened := by
  have hroom : 0 < a.link.settings.rawLimit - a.link.raw.length ∧
      0 < a.link.settings.readChunk := by
    have hchunk := hvalid.readChunk_pos
    have hlimit := ((Settings.valid_iff _).mp hvalid).2.2.1
    rw [hraw, List.length_nil]
    omega
  have hread : Channel.read a.link.settings.readChunk a.channel =
      (.ok .nothing, a.listened.channel) := by
    show (Except.ok ((a.channel.duplex.inbound a.channel.side).read _).1, ({ a.channel with
      duplex := a.channel.duplex.setInbound a.channel.side
        ((a.channel.duplex.inbound a.channel.side).read _).2 } : End)) = _
    rw [Pipe.read_nothing hbytes hclosed]
    rfl
  have hintake : a.intake = ⟨[], .ok false, a.listened.channel⟩ := by
    rw [intake, fill, dif_pos hroom, hread]
  have hfilled : a.filled = a.listened := by
    rw [filled, hintake]
    show (⟨{ a.link with raw := a.link.raw ++ [], traffic := _ }, _⟩ : Attached End) = _
    rw [List.append_nil]
    rfl
  have htaken : takeApart now a.listened = .ok 0 a.listened := by
    rw [takeApart, listened]
    dsimp only
    rw [hraw, Wire.scan_nil]
    rfl
  rw [receive, if_pos hopen, receiveBundles, fillRaw_ok (by rw [hintake])]
  dsimp only
  rw [hfilled, htaken]
  dsimp only
  rw [conclude_nothing (a := a.listened) houtbound hinbound]
  rfl

/-- the second time nothing changes any more -/
theorem listened_listened (a : Attached End) : a.listened.listened = a.listened := by
  have htally (t : Tally) : (t.add 0).add 0 = t.add 0 := by
    rw [Tally.add, Tally.add, Nat.add_zero, Nat.add_zero, Nat.min_assoc, Nat.min_self]
  obtain ⟨l, side, d⟩ := a
  cases side with
  | first => simp only [listened, Traffic.bytesArrived, htally, Duplex.setInbound]; rfl
  | second => simp only [listened, Traffic.bytesArrived, htally, Duplex.setInbound]; rfl

end Attached

theorem Duplex.setInbound_comm (d : Duplex) (s : Side) (q r : Pipe) :
    (d.setInbound s q).setInbound s.opposite r = (d.setInbound s.opposite r).setInbound s q := by
  cases s <;> rfl

namespace Pair

/-! ## series of receives -/

/-- the pair after receives at these sides, one after the other -/
def receiveAt (p : Pair) (sides : List Side) : Pair := p.run (sides.map fun s => .act s .receive)

/-- rounds of one receive at each side; `order` says which of them is the first one in each round -/
def rounds (order : List Side) : List Side := order.flatMap fun s => [s, s.opposite]

/-- none of these receives fails, nor is made impossible by a fault -/
def Succeed : Pair → List Side → Prop
  | _, [] => True
  | p, s :: sides =>
    (p.party s).halted = false ∧ (∃ a, (p.attached s).receive p.now = .ok () a) ∧
      Succeed (p.act s .receive) sides

/-- With both sides at rest, nothing is left to do. -/
structure Settled (p : Pair) : Prop where
  delivered : ∀ s, (p.party s.opposite).delivered = (p.party s).accepted
  outbound : ∀ s, (p.party s).link.outbound = .empty
  inbound : ∀ s, (p.party s).link.inbound = .empty
  raw : ∀ s, (p.party s).link.raw = []
  duplex : p.duplex = .empty
  running : ∀ s, (p.party s).halted = false
  /-- a receive succeeds, writes nothing and changes nothing -/
  rest : ∀ s, (p.attached s).receive p.now = .ok () (p.attached s)

variable {p : Pair} {s : Side}

theorem receiveAt_append (p : Pair) (order later : List Side) :
    p.receiveAt (order ++ later) = (p.receiveAt order).receiveAt later := by
  rw [receiveAt, List.map_append, run, List.foldl_append]
  rfl

theorem succeed_append (p : Pair) (order later : List Side) :
    p.Succeed (order ++ later) ↔ p.Succeed order ∧ (p.receiveAt order).Succeed later := by
  induction order generalizing p with
  | nil => exact ⟨fun h => ⟨trivial, h⟩, fun h => h.2⟩
  | cons s order ih =>
    show (_ ∧ _ ∧ (p.act s .receive).Succeed (order ++ later)) ↔ _
    rw [ih]
    exact ⟨fun ⟨h1, h2, h3, h4⟩ => ⟨⟨h1, h2, h3⟩, h4⟩, fun ⟨⟨h1, h2, h3⟩, h4⟩ => ⟨h1, h2, h3, h4⟩⟩

theorem Settled.act (h : Settled p) (s : Side) : p.act s .receive = p := by
  rw [act_receive (h.running s), h.rest s]
  show p.put s { p.party s with accepted := (p.party s).accepted ++ [] } p.duplex = p
  rw [List.append_nil]
  exact put_self p s

/-- two links that have settled stay as they are, however often they receive -/
theorem Settled.receiveAt (h : Settled p) (sides : List Side) :
    p.Succeed sides ∧ p.receiveAt sides = p := by
  induction sides with
  | nil => exact ⟨trivial, rfl⟩
  | cons s sides ih =>
    show (_ ∧ _ ∧ (p.act s .receive).Succeed sides) ∧ (p.act s .receive).receiveAt sides = p
    rw [h.act s]
    exact ⟨⟨h.running s, ⟨_, h.rest s⟩, ih.1⟩, ih.2⟩

end Pair

/-! ## nothing left to do -/

/-- nothing to take apart, and nothing to wait for -/
structure Party.Drained (x : Party) : Prop where
  active : x.Active
  valid : x.link.settings.Valid
  outbound : x.link.outbound = .empty
  inbound : x.link.inbound = .empty
  raw : x.link.raw = []

theorem Party.Drained.counted {x : Party} (h : x.Drained) (traffic : Traffic) :
    Party.Drained { x with link := { x.link with traffic := traffic } } :=
  ⟨h.active, h.valid, h.outbound, h.inbound, h.raw⟩

namespace Pair

variable {p : Pair} {s : Side}

/-- No bytes are on their way, and nobody waits for anything. -/
structure Drained (p : Pair) : Prop where
  party : ∀ s, (p.party s).Drained
  delivered : ∀ s, (p.party s.opposite).delivered = (p.party s).accepted
  bytes : ∀ s, (p.duplex.outbound s).toBytes = []
  unclosed : ∀ s, (p.duplex.outbound s).closed = false

/-- a read has found nothing since something was there -/
def Resting (p : Pair) (s : Side) : Prop := (p.attached s).listened = p.attached s

theorem Drained.receive (h : Drained p) (s : Side) :
    (p.attached s).receive p.now = .ok () (p.attached s).listened :=
  Attached.receive_nothing (a := p.attached s) (h.party s).active.1 (h.party s).valid
    (h.party s).raw (h.party s).outbound (h.party s).inbound (h.bytes s.opposite)
    (h.unclosed s.opposite) p.now

/-- what a receive leaves when nothing was left to do -/
structure Rests (p : Pair) (s : Side) (p' : Pair) : Prop where
  drained : Drained p'
  resting : Resting p' s
  still : Resting p s.opposite → Resting p' s.opposite

theorem Drained.act (h : Drained p) (s : Side) : Rests p s (p.act s .receive) := by
  have hact : p.act s .receive = p.settle s [] (.ok () (p.attached s).listened) := by
    rw [act_receive (h.party s).active.2, h.receive]
  have hparty : (p.act s .receive).party s =
      { p.party s with link := (p.attached s).listened.link } := by
    rw [hact, settle, party_put, List.append_nil]
  have hopposite : (p.act s .receive).party s.opposite = p.party s.opposite := by
    rw [hact, party_settle_opposite]
  have hduplex : (p.act s .receive).duplex = p.duplex.setInbound s .empty := by
    rw [hact, duplex_settle]
    rfl
  have hpipe (u : Side) : (p.act s .receive).duplex.outbound u = p.duplex.outbound u ∨
      (p.act s .receive).duplex.outbound u = .empty := by
    rw [hduplex, Duplex.setInbound, Duplex.outbound_set]
    split
    · exact .inr rfl
    · exact .inl rfl
  refine ⟨⟨fun u => ?_, fun u => ?_, fun u => ?_, fun u => ?_⟩, ?_, fun hresting => ?_⟩
  · rcases Side.eq_or_opposite s u with rfl | rfl
    · rw [hparty]
      exact (h.party _).counted _
    · rw [hopposite]
      exact h.party _
  · rcases Side.eq_or_opposite s u with rfl | rfl
    · rw [hopposite, hparty]
      exact h.delivered _
    · rw [Side.opposite_opposite, hopposite, hparty]
      have hdelivered := h.delivered s.opposite
      rw [Side.opposite_opposite] at hdelivered
      exact hdelivered
  · rcases hpipe u with hu | hu
    · rw [hu]
      exact h.bytes u
    · rw [hu]
      rfl
  · rcases hpipe u with hu | hu
    · rw [hu]
      exact h.unclosed u
    · rw [hu]
      rfl
  · have hsame : (p.act s .receive).attached s = (p.attached s).listened := by
      rw [hact]
      exact attached_settle (r := .ok () (p.attached s).listened) rfl
    rw [Resting, hsame, Attached.listened_listened]
  · have hlink := congrArg Attached.link hresting
    have hempty : p.duplex.setInbound s.opposite .empty = p.duplex :=
      congrArg (fun a : Attached End => a.channel.duplex) hresting
    rw [Resting, attached, hopposite, hduplex]
    show (⟨(p.attached s.opposite).listened.link, ⟨s.opposite,
      (p.duplex.setInbound s .empty).setInbound s.opposite .empty⟩⟩ : Attached End) = _
    rw [hlink, Duplex.setInbound_comm, hempty]
    rfl

/-- Once nothing is left to do, one more round is enough. -/
theorem Drained.round (h : Drained p) (s : Side) :
    p.Succeed [s, s.opposite] ∧ Settled (p.receiveAt [s, s.opposite]) := by
  have hfirst := h.act s
  have hsecond := hfirst.drained.act s.opposite
  have hrunning (u : Side) := (hfirst.drained.party u).active.2
  refine ⟨⟨(h.party s).active.2, ⟨_, h.receive s⟩, hrunning s.opposite,
    ⟨_, hfirst.drained.receive s.opposite⟩, trivial⟩, ?_⟩
  have hend := hsecond.drained
  have hresting (u : Side) : Resting ((p.act s .receive).act s.opposite .receive) u := by
    have hagain := hsecond.still
    rw [Side.opposite_opposite] at hagain
    rcases Side.eq_or_opposite s u with rfl | rfl
    · exact hagain hfirst.resting
    · exact hsecond.resting
  show Settled ((p.act s .receive).act s.opposite .receive)
  generalize (p.act s .receive).act s.opposite .receive = q at hend hresting
  refine ⟨hend.delivered, fun u => (hend.party u).outbound, fun u => (hend.party u).inbound,
    fun u => (hend.party u).raw, ?_, fun u => (hend.party u).active.2, fun u => ?_⟩
  · have hempty (u : Side) : q.duplex.setInbound u .empty = q.duplex :=
      congrArg (fun a : Attached End => a.channel.duplex) (hresting u)
    rw [← hempty .first, ← hempty .second]
    rfl
  · rw [hend.receive, hresting u]

/-! ## what is left to do -/

variable {gens : Side → UInt64 → Prop} {layout : Layout} {now : Moment} {start : Side → Link}
  {p' : Pair} {t t' : Side → Trail}

/-- no fragment is still to be handled -/
def AllHandled (t : Side → Trail) : Prop := ∀ s, (t s).todo = []

/-- the fragments that a side has to handle, and the acks that it can write at most -/
def cost (p : Pair) (t : Side → Trail) (s : Side) : Nat :=
  (t s).todo.length + (t s).todo.countP Fragment.asks + (p.party s).link.outbound.size

def load (p : Pair) (t : Side → Trail) : Nat := cost p t .first + cost p t .second

theorem load_eq (p : Pair) (t : Side → Trail) (s : Side) :
    load p t = cost p t s + cost p t s.opposite := by
  cases s with
  | first => rfl
  | second => exact Nat.add_comm _ _

/-- unless nothing was there, a receive handles something -/
theorem Handles.fewer (h : Handles gens layout now start p t s p' t') (hsome : (t s).todo ≠ []) :
    (t' s).todo.length < (t s).todo.length := by
  obtain ⟨done, ks, hdone, hnone, -⟩ := h.progress
  have hpos : 0 < done.length := by
    refine List.length_pos_iff.mpr fun hnil => hsome ?_
    rw [hdone, hnil, hnone hnil]
    rfl
  rw [hdone, List.length_append]
  omega

theorem Handles.idle (h : Handles gens layout now start p t s p' t') (hnone : (t s).todo = [])
    (u : Side) : (t' u).todo = (t u).todo := by
  obtain ⟨done, ks, hdone, -, hfew, hacks, -⟩ := h.progress
  have hsplit : done = [] ∧ (t' s).todo = [] := by
    rw [hnone] at hdone
    exact List.append_eq_nil_iff.mp hdone.symm
  obtain ⟨rfl, hrest⟩ := hsplit
  obtain rfl : ks = [] := List.eq_nil_of_length_eq_zero (Nat.le_zero.mp hfew)
  rcases Side.eq_or_opposite s u with rfl | rfl
  · rw [hrest, hnone]
  · rw [hacks]
    exact List.append_nil _

/-- every fragment that is handled makes the load less -/
theorem Handles.load_add (h : Handles gens layout now start p t s p' t') :
    load p' t' + (t s).todo.length ≤ load p t + (t' s).todo.length := by
  obtain ⟨done, ks, hdone, -, -, hacks, hcost⟩ := h.progress
  have hasks : (ks.map Fragment.ack).countP Fragment.asks = 0 := by
    apply countP_asks_answers
    intro f hf
    obtain ⟨k, -, rfl⟩ := List.mem_map.mp hf
    exact ⟨k, .inl rfl⟩
  rw [load_eq p' t' s, load_eq p t s, cost, cost, cost, cost, hacks, h.opposite, hdone]
  simp only [List.length_append, List.countP_append, List.length_map, hasks]
  omega

theorem Handles.load_lt (h : Handles gens layout now start p t s p' t')
    (hsome : (t s).todo ≠ []) : load p' t' < load p t := by
  have hfewer := h.fewer hsome
  have hload := h.load_add
  omega

theorem Handles.load_le (h : Handles gens layout now start p t s p' t') :
    load p' t' ≤ load p t := by
  by_cases hnone : (t s).todo = []
  · have hload := h.load_add
    rw [h.idle hnone s] at hload
    omega
  · exact Nat.le_of_lt (h.load_lt hnone)

/-- What a series of receives comes to: in `n` steps everything is handled, or the load is less by
as much. -/
structure Clears (gens : Side → UInt64 → Prop) (layout : Layout) (now : Moment)
    (start : Side → Link) (p : Pair) (t : Side → Trail) (sides : List Side) (n : Nat)
    (t' : Side → Trail) : Prop where
  steady : Steady gens layout now start (p.receiveAt sides) t'
  succeed : p.Succeed sides
  handled : AllHandled t → AllHandled t'
  less : AllHandled t' ∨ load (p.receiveAt sides) t' + n ≤ load p t

theorem Clears.append {sides later : List Side} {n m : Nat} {t'' : Side → Trail}
    (h : Clears gens layout now start p t sides n t')
    (h' : Clears gens layout now start (p.receiveAt sides) t' later m t'') :
    Clears gens layout now start p t (sides ++ later) (n + m) t'' := by
  refine ⟨?_, (succeed_append p sides later).mpr ⟨h.succeed, h'.succeed⟩,
    fun hall => h'.handled (h.handled hall), ?_⟩
  · rw [receiveAt_append]
    exact h'.steady
  · rw [receiveAt_append]
    rcases h.less with hall | hless
    · exact .inl (h'.handled hall)
    · rcases h'.less with hall | hless'
      · exact .inl hall
      · right
        omega

/-- One receive at each side handles something, unless everything is handled already. -/
theorem Steady.round (hcalm : ∀ s n, Calm (start s) now n)
    (h : Steady gens layout now start p t) (s : Side) :
    ∃ t', Clears gens layout now start p t [s, s.opposite] 1 t' := by
  obtain ⟨t', hfirst⟩ := h.receive hcalm s
  obtain ⟨t'', hsecond⟩ := hfirst.steady.receive hcalm s.opposite
  refine ⟨t'', hsecond.steady, ⟨(h.party s).active.2, hfirst.succeeds,
    (hfirst.steady.party _).active.2, hsecond.succeeds, trivial⟩, fun hall u => ?_, ?_⟩
  · have hsame := hfirst.idle (hall s)
    rw [hsecond.idle (by rw [hsame, hall]), hsame, hall]
  · show AllHandled t'' ∨ load ((p.act s .receive).act s.opposite .receive) t'' + 1 ≤ load p t
    by_cases hs : (t s).todo = []
    · have hsame := hfirst.idle hs
      by_cases hs' : (t s.opposite).todo = []
      · left
        intro u
        rw [hsecond.idle (by rw [hsame, hs']), hsame]
        rcases Side.eq_or_opposite s u with rfl | rfl
        · exact hs
        · exact hs'
      · have hlt := hsecond.load_lt (by rw [hsame]; exact hs')
        have hle := hfirst.load_le
        right
        omega
    · have hlt := hfirst.load_lt hs
      have hle := hsecond.load_le
      right
      omega

theorem Steady.rounds (hcalm : ∀ s n, Calm (start s) now n)
    (h : Steady gens layout now start p t) (order : List Side) :
    ∃ t', Clears gens layout now start p t (rounds order) order.length t' := by
  induction order generalizing p t with
  | nil => exact ⟨t, h, trivial, id, .inr (Nat.le_refl _)⟩
  | cons s order ih =>
    obtain ⟨t', hround⟩ := h.round hcalm s
    obtain ⟨t'', hrest⟩ := ih hround.steady
    refine ⟨t'', ?_⟩
    rw [List.length_cons, Nat.add_comm]
    exact hround.append hrest

/-- With everything handled, nobody waits for anything. -/
theorem Steady.drained (h : Steady gens layout now start p t) (hgens : Separate gens)
    (hall : AllHandled t) : Drained p := by
  have hlane (s : Side) : Lane layout now (p.party s.opposite) (p.party s)
      (p.duplex.outbound s.opposite).toBytes (t s) := h.lane s
  have hpending (s : Side) : (t s).pending = [] := by
    have hcursor := (hlane s).passage.cursor
    rw [hall s] at hcursor
    exact hcursor.pending_nil.1
  have hstream (s : Side) : (p.party s).link.raw = [] ∧
      (p.duplex.outbound s.opposite).toBytes = [] := by
    have hbytes := (hlane s).stream
    rw [hall s] at hbytes
    exact List.append_eq_nil_iff.mp hbytes
  have htables (s : Side) (k : Key) : (p.party s).link.outbound.get? k = none ∧
      (p.party s.opposite).link.inbound.get? k = none := by
    have hbalance := h.balance hgens s
    rw [hpending, hpending] at hbalance
    exact hbalance.settled k
  refine ⟨fun s => ⟨(h.party s).active, (h.party s).valid, ?_, ?_, (hstream s).1⟩, fun s => ?_,
    fun s => ?_, h.unclosed⟩
  · exact Table.eq_empty fun k => (htables s k).1
  · have hopposite := htables s.opposite
    rw [Side.opposite_opposite] at hopposite
    exact Table.eq_empty fun k => (hopposite k).2
  · have hpassage := (h.lane_out s).passage
    rw [hall] at hpassage
    exact hpassage.all_delivered
  · have hbytes := (hstream s.opposite).2
    rw [Side.opposite_opposite] at hbytes
    exact hbytes

/-! ## the result -/

/-- Two links that were just opened, with generations apart, write and receive as they like, while
time stands still and every fragment fits into the raw bytes of its receiver. From then on there is
a number of rounds after which everything is delivered and acknowledged, and nothing is left in the
links or between them, so that receives change nothing any more.

Neither side may write so often that its message numbers run out: the write after the last number is
a fault, after which the side does nothing any more, and then its peer is left with bundles that
nobody acknowledges. -/
theorem settles (now : Moment) (id : Side → Nat) (settings : Side → Settings)
    (generation : Side → UInt64) (es : List Event) (hvalid : ∀ s, (settings s).Valid)
    (hlayout : (settings .first).layout = (settings .second).layout)
    (hapart : Apart generation fun s => advances s es)
    (hcalm : ∀ s n, Calm ((opened now id settings generation).party s).link now n)
    (hes : ∀ e ∈ es, e.isSteady = true) (hnumber : ∀ s, writes s es < Link.lastMessage.toNat)
    (hroom : ∀ s, ∀ w ∈ (opened now id settings generation).emissions s es,
      w.length ≤ (settings s.opposite).rawLimit) :
    ∃ n, ∀ order, n ≤ order.length →
      ((opened now id settings generation).run es).Succeed (rounds order) ∧
      Settled (((opened now id settings generation).run es).receiveAt (rounds order)) ∧
      ∀ later,
        (((opened now id settings generation).run es).receiveAt (rounds order)).Succeed later ∧
        (((opened now id settings generation).run es).receiveAt (rounds order)).receiveAt later =
          ((opened now id settings generation).run es).receiveAt (rounds order) := by
  have hsame (s : Side) : (settings s).layout = (settings .first).layout := by
    cases s with
    | first => rfl
    | second => exact hlayout.symm
  have hparty (s : Side) : (opened now id settings generation).party s =
      { link :=
          { ((opened now id settings generation).party s).link with
            layout := (settings .first).layout
            fragmentSize := (settings s).fragmentSize }
        halted := false
        taken := []
        accepted := [] } := by
    rw [← hsame s]
    rfl
  have hfresh := steady_fresh (fun s => Reached (generation s) (advances s es)) rfl rfl hparty
    hvalid fun s => by
      have hrules := (Settings.valid_iff _).mp (hvalid s)
      rw [← hsame s]
      omega
  obtain ⟨t, hsteady⟩ := hfresh.run hcalm es hes (fun _ => hapart.ne_zero)
    (fun _ s i hi => ⟨i, hi, rfl⟩) hapart.toNat_add_le
    (fun s => number_le (by rw [hparty]; rfl) (hnumber s)) hroom
  generalize (opened now id settings generation).run es = p at hsteady
  refine ⟨load p t + 2, fun order horder => ?_⟩
  have hne : order ≠ [] := by
    rintro rfl
    exact absurd horder (by simp)
  -- all rounds but the last one handle everything, and the last one leaves both sides at rest
  have hsplit := List.dropLast_concat_getLast hne
  generalize order.dropLast = init at hsplit
  generalize order.getLast hne = s at hsplit
  subst hsplit
  obtain ⟨t', hclears⟩ := hsteady.rounds hcalm init
  have hall : AllHandled t' := by
    rcases hclears.less with hall | hless
    · exact hall
    · rw [List.length_append, List.length_singleton] at horder
      omega
  have hdrained := hclears.steady.drained (.of_apart hapart) hall
  obtain ⟨hlast, hsettled⟩ := hdrained.round s
  have hrounds : rounds (init ++ [s]) = rounds init ++ [s, s.opposite] := by
    rw [rounds, List.flatMap_append]
    rfl
  rw [hrounds, receiveAt_append, succeed_append]
  exact ⟨⟨hclears.succeed, hlast⟩, hsettled, hsettled.receiveAt⟩

/-- both sides write, in two generations and with fragments of several sizes -/
def conversation : List Event :=
  [.act .first (.setFragmentSize 2), .act .first (.write [104, 105, 33] true),
    .act .second (.writeText "ok" false), .act .second .receive, .act .second .advanceGeneration,
    .act .second (.write [97] true), .act .second .read, .act .first .receive,
    .act .first (.write [98] true)]

/-- the two sides after their conversation: neither has heard of all that the other one wrote -/
def talking : Pair := (opened .start (fun _ => 7) (fun _ => {}) spaced).run conversation

theorem settles_conversation :
    Apart spaced (fun s => advances s conversation) ∧
      (∀ s n, Calm ((opened .start (fun _ => 7) (fun _ => {}) spaced).party s).link .start n) ∧
      (∀ e ∈ conversation, e.isSteady = true) ∧
      (∀ s, writes s conversation < Link.lastMessage.toNat) ∧
      (∀ s, ∀ w ∈ (opened .start (fun _ => 7) (fun _ => {}) spaced).emissions s conversation,
        w.length ≤ Settings.rawLimit {}) ∧
      (talking.party .first).accepted = [[104, 105, 33], [98]] ∧
      (talking.party .second).accepted = [[111, 107], [97]] ∧
      (talking.party .first).delivered = [[111, 107], [97]] ∧
      (∀ s, (talking.party s).link.outbound.isEmpty = false) ∧
      ∃ n, ∀ order, n ≤ order.length → talking.Succeed (rounds order) ∧
        Settled (talking.receiveAt (rounds order)) ∧
        ∀ later, (talking.receiveAt (rounds order)).Succeed later ∧
          (talking.receiveAt (rounds order)).receiveAt later =
            talking.receiveAt (rounds order) := by
  have hapart : Apart spaced fun s => advances s conversation :=
    .of_lt (by decide) (by decide) (by decide)
  have hcalm (s : Side) (n : Nat) :
      Calm ((opened .start (fun _ => 7) (fun _ => {}) spaced).party s).link .start n := by
    apply Link.calm_of_period 5 5 (by decide)
    · cases s <;> decide +kernel
    · cases s <;> decide +kernel
  have hsteady : ∀ e ∈ conversation, e.isSteady = true := by decide
  have hnumber (s : Side) : writes s conversation < Link.lastMessage.toNat := by
    cases s <;> decide
  have hroom (s : Side) :
      ∀ w ∈ (opened .start (fun _ => 7) (fun _ => {}) spaced).emissions s conversation,
        w.length ≤ Settings.rawLimit {} := by
    cases s <;> decide +kernel
  exact ⟨hapart, hcalm, hsteady, hnumber, hroom, by decide +kernel, by decide +kernel,
    by decide +kernel, fun s => by cases s <;> decide +kernel,
    settles .start (fun _ => 7) (fun _ => {}) spaced conversation
      (fun _ => Settings.valid_default) rfl hapart hcalm hsteady hnumber hroom⟩

end Pair

end BundleLink
