import BundleLink.Proofs.Pair.Emissions
import BundleLink.Proofs.Pair.Lane
import BundleLink.Proofs.Pair.Order

/-!
# Two links while the clock stands still

As long as no time goes by, nobody closes and every fragment fits into the raw bytes of its
receiver, neither link fails. It is known at any time which messages are on their way to either
side. If the two sides use different generations, then their bundles are in balance as well.

* `Pair.Steady`        both sides, with the trails to them;
* `Steady.receive`     a receive succeeds, and handles at least one fragment if there are any;
* `Steady.write`       a write may be refused, but nothing fails;
* `Steady.step`, `Steady.run`  events and runs;
* `Pair.steady_fresh`  two links that were just opened.
-/

namespace BundleLink

open Link (Still Calm)

namespace Pair

/-! ## events -/

def Operation.isWrite : Operation → Bool
  | .write _ _ | .writeText _ _ => true
  | _ => false

/-- An operation other than a close, while no time goes by and the layout stays. -/
def Event.isSteady : Event → Bool
  | .act _ .close => false
  | .act _ _ => true
  | _ => false

/-- how often a side writes -/
def writes (s : Side) (es : List Event) : Nat :=
  es.countP fun
    | .act t op => t = s && op.isWrite
    | _ => false

theorem writes_cons (s : Side) (e : Event) (es : List Event) :
    writes s (e :: es) = writes s [e] + writes s es := by
  rw [writes, writes, writes, ← List.countP_append]
  rfl

/-- a link that was just opened has a number for each write, if the writes are not too many -/
theorem number_le {s : Side} {es : List Event} {l : Link} (hfirst : l.nextMessage = 1)
    (hes : writes s es < Link.lastMessage.toNat) :
    l.nextMessage.toNat + writes s es ≤ Link.lastMessage.toNat := by
  have hone : (1 : UInt64).toNat = 1 := rfl
  rw [hfirst, hone]
  omega

/-! ## both sides -/

/-- no generation belongs to both sides -/
def Separate (gens : Side → UInt64 → Prop) : Prop := ∀ s g, gens s g → ¬ gens s.opposite g

theorem Separate.of_apart {generation : Side → UInt64} {n : Side → Nat}
    (h : Apart generation n) : Separate fun s => Reached (generation s) (n s) := by
  intro s g hg
  cases s with
  | first => exact h.disjoint g hg
  | second => exact fun hg' => h.disjoint g hg' hg

/-- What holds between two operations: `t s` is the trail to the side `s`, whose link was `start s`
when the clock stopped, and whose bundles get the generations `gens s`. -/
structure Steady (gens : Side → UInt64 → Prop) (layout : Layout) (now : Moment)
    (start : Side → Link) (p : Pair) (t : Side → Trail) : Prop where
  clock : p.now = now
  unclosed : ∀ s, (p.duplex.outbound s).closed = false
  party : ∀ s, (p.party s).Steady layout now (start s)
  lane : ∀ s, Lane layout now (p.party s.opposite) (p.party s)
    (p.duplex.outbound s.opposite).toBytes (t s)
  balance : Separate gens → ∀ s,
    Balance (gens s) (p.party s).link.nextMessage (p.party s).link.outbound
      (p.party s.opposite).link.inbound (t s.opposite).pending (t s).pending

variable {gens : Side → UInt64 → Prop} {layout : Layout} {now : Moment} {start : Side → Link}
  {p : Pair} {t t' : Side → Trail} {s : Side} {x : Party} {d : Duplex}

theorem Steady.put (h : Steady gens layout now start p t) (hx : x.Steady layout now (start s))
    (hd : ∀ u, (d.outbound u).closed = false)
    (hin : Lane layout now (p.party s.opposite) x (d.outbound s.opposite).toBytes (t' s))
    (hout : Lane layout now x (p.party s.opposite) (d.outbound s).toBytes (t' s.opposite))
    (hbalance : Separate gens →
      Balance (gens s) x.link.nextMessage x.link.outbound (p.party s.opposite).link.inbound
          (t' s.opposite).pending (t' s).pending ∧
        Balance (gens s.opposite) (p.party s.opposite).link.nextMessage
          (p.party s.opposite).link.outbound x.link.inbound (t' s).pending
          (t' s.opposite).pending) :
    Steady gens layout now start (p.put s x d) t' := by
  refine ⟨h.clock, hd, fun u => ?_, fun u => ?_, fun hapart u => ?_⟩
  all_goals rcases Side.eq_or_opposite s u with rfl | rfl
  · rw [party_put]
    exact hx
  · rw [party_put_opposite]
    exact h.party _
  · rw [party_put, party_put_opposite]
    exact hin
  · rw [Side.opposite_opposite, party_put, party_put_opposite]
    exact hout
  · rw [party_put, party_put_opposite]
    exact (hbalance hapart).1
  · rw [Side.opposite_opposite, party_put, party_put_opposite]
    exact (hbalance hapart).2

theorem Steady.lane_out (h : Steady gens layout now start p t) (s : Side) :
    Lane layout now (p.party s) (p.party s.opposite) (p.duplex.outbound s).toBytes
      (t s.opposite) := by
  have hlane := h.lane s.opposite
  rw [Side.opposite_opposite] at hlane
  exact hlane

theorem Steady.balance_in (h : Steady gens layout now start p t)
    (hapart : Separate gens) (s : Side) :
    Balance (gens s.opposite) (p.party s.opposite).link.nextMessage
      (p.party s.opposite).link.outbound (p.party s).link.inbound (t s).pending
      (t s.opposite).pending := by
  have hbalance := h.balance hapart s.opposite
  rw [Side.opposite_opposite] at hbalance
  exact hbalance

/-- operations of one side alone -/
theorem Steady.alike (h : Steady gens layout now start p t) (hsame : (p.party s).Alike x)
    (hx : x.Steady layout now (start s)) : Steady gens layout now start (p.put s x p.duplex) t := by
  obtain ⟨-, hraw, hinbound, houtbound⟩ := hsame.active hx.active
  refine h.put hx h.unclosed
    ((h.lane s).congr rfl rfl hsame.delivered hinbound hraw hsame.settings)
    ((h.lane_out s).congr hsame.nextMessage hsame.accepted rfl rfl rfl rfl) fun hapart => ?_
  rw [hsame.nextMessage, houtbound, hinbound]
  exact ⟨h.balance hapart s, h.balance_in hapart s⟩

theorem Steady.isOpen (h : Steady gens layout now start p t) (s : Side) :
    Medium.isOpen (p.attached s).channel = true := by
  show (!(p.duplex.outbound s).closed) = true
  rw [h.unclosed]
  rfl

/-! ## receives -/

theorem Steady.exchange (h : Steady gens layout now start p t) (s : Side) :
    Exchange (gens s) (gens s.opposite) layout now (p.party s.opposite) (p.party s).taken
      (p.attached s).link (t s).pending (t s.opposite).pending (t s).seen (t s).todo := by
  refine ⟨(h.lane s).passage, fun hapart => ?_⟩
  have hboth : Separate gens := by
    intro u g hg
    rcases Side.eq_or_opposite s u with rfl | rfl
    · exact hapart g hg
    · rw [Side.opposite_opposite]
      exact fun hmine => hapart g hmine hg
  exact ⟨h.balance hboth s, h.balance_in hboth s⟩

/-- What a receive of a side comes to. -/
structure Handles (gens : Side → UInt64 → Prop) (layout : Layout) (now : Moment)
    (start : Side → Link) (p : Pair) (t : Side → Trail) (s : Side) (p' : Pair) (t' : Side → Trail) :
    Prop where
  steady : Steady gens layout now start p' t'
  opposite : p'.party s.opposite = p.party s.opposite
  terms : (p'.party s).link.terms = (p.party s).link.terms
  succeeds : ∃ a, (p.attached s).receive p.now = .ok () a
  progress : ∃ (done : List Fragment) (ks : List Key), (t s).todo = done ++ (t' s).todo ∧
    (done = [] → (t' s).todo = []) ∧ ks.length ≤ done.length ∧
    (t' s.opposite).todo = (t s.opposite).todo ++ ks.map Fragment.ack ∧
    ks.length + (p'.party s).link.outbound.size ≤
      done.countP Fragment.asks + (p.party s).link.outbound.size

theorem Steady.receive (h : Steady gens layout now start p t)
    (hcalm : ∀ s n, Calm (start s) now n) (s : Side) :
    ∃ t', Handles gens layout now start p t s (p.act s .receive) t' := by
  have hparty := h.party s
  have hlane := h.lane s
  obtain ⟨count, hstill⟩ := hparty.still
  have hended : (p.attached s).intake.ended = .ok false :=
    End.ended_of_open _ _ [] _ (h.unclosed s.opposite)
  obtain ⟨b, hb, hattended⟩ := (h.exchange s).receive End.prompt (hcalm s) hparty.active.1
    hparty.sameLayout (h.isOpen s) hended hparty.valid.readChunk_pos hlane.room hlane.stream hstill
  obtain ⟨done, todo, pending, seen, ks, hsplit, hprogress, hfew, hstream, hout, hexchange⟩ :=
    hattended.progress
  have hheeds := Attached.receive_heeds (a := p.attached s) hparty.active.1 hparty.sameLayout
    hlane.passage.fits hlane.stream now
  rw [hb] at hheeds
  obtain ⟨-, done', todo', sent, hsplit', hstream', -, hemits, hcost⟩ := hheeds
  obtain rfl : todo' = todo :=
    Wire.eq_of_wires_eq (hsplit'.symm.trans hsplit) (hstream'.symm.trans hstream)
  obtain rfl : done' = done := List.append_cancel_right (hsplit'.symm.trans hsplit)
  have hlength : sent.length = ks.length := by
    have hlen := congrArg List.length (hemits.outgoing.symm.trans hout)
    simp only [List.length_append, List.length_map] at hlen
    omega
  have hact : p.act s .receive = p.settle s [] (.ok () b) := by
    rw [act_receive hparty.active.2, h.clock, hb]
  have hbytes := outbound_eq hattended.description hout
  have hincoming := (incoming_eq hattended.description).1
  refine ⟨Trail.both s ⟨pending, seen, todo'⟩ ((t s.opposite).more (acks ks)), ?_, ?_, ?_, ?_,
    done', ks, ?_, ?_, hfew, ?_, ?_⟩
  · rw [hact]
    have hnext := Link.nextMessage_of_terms hattended.terms
    have hsettings := Link.settings_of_terms hattended.terms
    have hconnected := congrArg Link.connected hattended.terms
    refine h.put (hparty.congr ⟨Eq.trans hconnected hparty.active.1, hparty.active.2⟩
      (Link.layout_of_terms hattended.terms) hsettings hattended.still)
      (End.lasting_unclosed.receive (a := p.attached s) h.unclosed hb) ?_ ?_ ?_
    · rw [Trail.both_self]
      refine ⟨hexchange.passage, ?_, ?_⟩
      · rw [← hincoming]
        exact hstream
      · intro f hf
        show f.wireLength layout ≤ b.link.settings.rawLimit
        rw [hsettings]
        exact hlane.room f (hsplit ▸ List.mem_append_right done' hf)
    · rw [Trail.both_opposite, hbytes]
      exact (h.lane_out s).acked ks hnext (List.append_nil _) (h.party s.opposite).room
    · rw [Trail.both_self, Trail.both_opposite]
      exact fun hapart => hexchange.balance (hapart s)
  · rw [hact, party_settle_opposite]
  · rw [hact, link_settle]
    exact hattended.terms
  · rw [h.clock]
    exact ⟨b, hb⟩
  · rw [Trail.both_self]
    exact hsplit
  · rw [Trail.both_self]
    exact hprogress
  · rw [Trail.both_opposite, Trail.more, Message.flatMap_fragments_acks]
  · rw [hact, link_settle, ← hlength]
    exact hcost

/-! ## writes -/

theorem Steady.sent (h : Steady gens layout now start p t)
    (hgen : Separate gens → gens s (p.party s).link.generation ∧
      (p.party s).link.generation ≠ 0) {buffer : Bytes} {flushNow : Bool}
    {b : Attached End} {parts : List Fragment}
    (hb : (p.attached s).write buffer flushNow now = .ok () b)
    (hwritten : Attached.Written buffer parts now (p.attached s) b)
    (hroom : ∀ f ∈ parts, f.wireLength layout ≤ (p.party s.opposite).link.settings.rawLimit) :
    ∃ t', Steady gens layout now start (p.settle s [buffer] (.ok () b)) t' := by
  have hparty := h.party s
  obtain ⟨count, hstill⟩ := hparty.still
  have hsplit := hwritten.split
  have hout := hwritten.outgoing
  rw [show (p.attached s).link.layout = layout from hparty.sameLayout] at hsplit hout
  have hbytes := outbound_eq hwritten.description hout
  have hone : [Message.bundle (p.attached s).nextKey buffer parts].flatMap Message.fragments =
      parts := List.append_nil _
  have hconnected : b.link.connected = true := by
    have hterms := congrArg Link.connected hwritten.terms
    exact Eq.trans hterms hparty.active.1
  refine ⟨Trail.both s (t s) ((t s.opposite).more [.bundle (p.attached s).nextKey buffer parts]),
    h.put (hparty.congr ⟨hconnected, hparty.active.2⟩ hwritten.layout hwritten.settings
      ⟨count, hwritten.still hstill⟩)
      (End.lasting_unclosed.write_ok (a := p.attached s) h.unclosed hb) ?_ ?_ ?_⟩
  · rw [Trail.both_self, ← (incoming_eq hwritten.description).1, hwritten.incoming]
    refine (h.lane s).congr rfl rfl ?_ hwritten.inbound hwritten.raw hwritten.settings
    show (p.party s).taken ++ b.link.ready = (p.party s).taken ++ (p.party s).link.ready
    rw [hwritten.ready]
    rfl
  · rw [Trail.both_opposite, hbytes]
    exact (h.lane_out s).sent hone
      ((h.lane_out s).passage.sent_bundle hwritten.lt (.of_split hsplit) rfl) hroom
  · rw [Trail.both_self, Trail.both_opposite]
    intro hapart
    obtain ⟨hown, hnonzero⟩ := hgen hapart
    have hinbound : b.link.inbound = (p.party s).link.inbound := hwritten.inbound
    constructor
    · show Balance (gens s) b.link.nextMessage b.link.outbound _ _ _
      rw [hwritten.outbound]
      exact (h.balance hapart s).wrote (k := (p.attached s).nextKey) hown hnonzero rfl hwritten.lt
        hwritten.ne_zero
    · show Balance _ _ _ b.link.inbound _ _
      rw [hinbound]
      exact (h.balance_in hapart s).back_append fun k hk => (nomatch hk)

theorem Steady.write (h : Steady gens layout now start p t)
    (hgen : Separate gens → gens s (p.party s).link.generation ∧
      (p.party s).link.generation ≠ 0) {op : Operation} {buffer : Bytes} {flushNow : Bool}
    (hact : p.act s op = p.settle s [buffer] ((p.attached s).write buffer flushNow p.now))
    (hnext : (p.party s).link.nextMessage ≠ Link.lastMessage)
    (hroom : ∀ w ∈ p.emitted s (.act s op), w.length ≤
      (p.party s.opposite).link.settings.rawLimit) :
    (∃ t', Steady gens layout now start (p.act s op) t') ∧
      ((p.act s op).party s).link.generation = (p.party s).link.generation ∧
      ((p.act s op).party s).link.fragmentSize = (p.party s).link.fragmentSize ∧
      ((p.act s op).party s).link.nextMessage.toNat ≤ (p.party s).link.nextMessage.toNat + 1 := by
  have hparty := h.party s
  rw [h.clock] at hact
  generalize hr : (p.attached s).write buffer flushNow now = r at hact
  have hcases := Attached.write_result (a := p.attached s) hparty.active.1 buffer flushNow now
  rw [hr] at hcases
  rw [hact]
  cases hcases with
  | sent b parts written =>
    have hsame : (p.attached s).link.layout = layout := hparty.sameLayout
    have hout := written.outgoing
    have hemitted := emitted_settle hact written.description hout
    have hsize := congrArg Link.fragmentSize written.terms
    rw [link_settle]
    refine ⟨h.sent hgen hr written fun f hf => ?_, written.generation, hsize, ?_⟩
    · have hle := hroom (f.wire (p.attached s).link.layout) (by
        rw [hemitted]
        exact List.mem_map_of_mem hf)
      rw [Fragment.length_wire, hsame] at hle
      exact hle
    · show b.link.nextMessage.toNat ≤ _
      rw [written.nextMessage, UInt64.toNat_add]
      exact Nat.mod_le _ _
  | refused e =>
    rw [link_settle]
    exact ⟨⟨t, h.alike (Party.Same.refl _).toAlike hparty⟩, rfl, rfl, Nat.le_succ _⟩
  | faulted e full => exact absurd full hnext
  | broken e b isOpen room shut =>
    rw [h.isOpen s] at isOpen
    cases isOpen

/-! ## events -/

/-- What an event comes to: besides the trails it is known which generations, fragment sizes and
message numbers the sides may have now. -/
structure Steps (gens : Side → UInt64 → Prop) (layout : Layout) (now : Moment)
    (start : Side → Link) (p : Pair) (e : Event) (p' : Pair) : Prop where
  steady : ∃ t', Steady gens layout now start p' t'
  generation : ∀ s, Advances e s (p.party s).link.generation (p'.party s).link.generation
  fragmentSize : ∀ s, (∀ size, e ≠ .act s (.setFragmentSize size)) →
    (p'.party s).link.fragmentSize = (p.party s).link.fragmentSize
  number : ∀ s, (p'.party s).link.nextMessage.toNat ≤
    (p.party s).link.nextMessage.toNat + writes s [e]

/-- the event is an operation of one side -/
theorem Steps.of_side {e : Event} {p' : Pair} (hsteady : ∃ t', Steady gens layout now start p' t')
    (hopposite : p'.party s.opposite = p.party s.opposite)
    (hgeneration : Advances e s (p.party s).link.generation (p'.party s).link.generation)
    (hsize : (∀ size, e ≠ .act s (.setFragmentSize size)) →
      (p'.party s).link.fragmentSize = (p.party s).link.fragmentSize)
    (hnumber : (p'.party s).link.nextMessage.toNat ≤
      (p.party s).link.nextMessage.toNat + writes s [e]) :
    Steps gens layout now start p e p' := by
  refine ⟨hsteady, fun u => ?_, fun u hu => ?_, fun u => ?_⟩
  all_goals rcases Side.eq_or_opposite s u with rfl | rfl
  · exact hgeneration
  · rw [hopposite]
    exact .inl rfl
  · exact hsize hu
  · rw [hopposite]
  · exact hnumber
  · rw [hopposite]
    exact Nat.le_add_right _ _

/-- the event changes one party, but the other one can not tell before the next bundle -/
theorem Steady.steps (h : Steady gens layout now start p t) {e : Event}
    (hsame : (p.party s).Alike x) (hx : x.Steady layout now (start s))
    (hgeneration : Advances e s (p.party s).link.generation x.link.generation)
    (hsize : (∀ size, e ≠ .act s (.setFragmentSize size)) →
      x.link.fragmentSize = (p.party s).link.fragmentSize) :
    Steps gens layout now start p e (p.put s x p.duplex) := by
  refine .of_side (s := s) ⟨t, h.alike hsame hx⟩ (party_put_opposite _ _ _ _) ?_ ?_ ?_
  · rw [party_put]
    exact hgeneration
  · rw [party_put]
    exact hsize
  · rw [party_put, hsame.nextMessage]
    exact Nat.le_add_right _ _

theorem act_of_running {op : Operation} (h : (p.party s).halted = false)
    (hop : op.isWrite = true ∨ (∃ size, op = .setFragmentSize size) ∨ op = .advanceGeneration) :
    p.act s op = p.work s op := by
  have hif : (if (p.party s).halted then p else p.work s op) = p.work s op :=
    if_neg (by rw [h]; exact Bool.false_ne_true)
  rcases hop with hop | ⟨size, rfl⟩ | rfl
  · cases op with
    | write buffer flushNow => exact hif
    | writeText text flushNow => exact hif
    | _ => cases hop
  · exact hif
  · exact hif

variable (hcalm : ∀ s n, Calm (start s) now n)
include hcalm

theorem Steady.step (h : Steady gens layout now start p t)
    (hgen : Separate gens → ∀ s,
      gens s (p.party s).link.generation ∧ (p.party s).link.generation ≠ 0) {e : Event}
    (he : e.isSteady = true)
    (hlast : ∀ s, e = .act s .advanceGeneration →
      (p.party s).link.generation ≠ Link.lastGeneration)
    (hnumber : ∀ s, (p.party s).link.nextMessage.toNat + writes s [e] ≤ Link.lastMessage.toNat)
    (hroom : ∀ s op, e = .act s op → op.isWrite = true → ∀ w ∈ p.emitted s e,
      w.length ≤ (p.party s.opposite).link.settings.rawLimit) :
    Steps gens layout now start p e (p.step e) := by
  cases e with
  | switchLayout layout => cases he
  | pass d => cases he
  | act s op =>
    have hparty := h.party s
    obtain ⟨count, hstill⟩ := hparty.still
    have hhalted := hparty.active.2
    have hwrite (hop : op.isWrite = true) {buffer : Bytes} {flushNow : Bool}
        (hact : p.act s op = p.settle s [buffer] ((p.attached s).write buffer flushNow p.now)) :
        Steps gens layout now start p (.act s op) (p.act s op) := by
      have hone : writes s [.act s op] = 1 := by simp [writes, hop]
      have hfull := hnumber s
      rw [hone] at hfull
      obtain ⟨hsteady, hgeneration, hsize, hnext⟩ := h.write (fun hapart => hgen hapart s) hact
        (fun hlast => by rw [hlast] at hfull; omega) (hroom s op rfl hop)
      refine .of_side (s := s) hsteady ?_ (.inl hgeneration) (fun _ => hsize)
        (by rw [hone]; exact hnext)
      rw [hact, party_settle_opposite]
    show Steps gens layout now start p (.act s op) (p.act s op)
    cases op with
    | write buffer flushNow => exact hwrite rfl (act_of_running hhalted (.inl rfl))
    | writeText text flushNow => exact hwrite rfl (act_of_running hhalted (.inl rfl))
    | receive =>
      obtain ⟨t', hhandles⟩ := h.receive hcalm s
      have hsize := congrArg Link.fragmentSize hhandles.terms
      refine .of_side ⟨t', hhandles.steady⟩ hhandles.opposite
        (.inl (Link.generation_of_terms hhandles.terms)) (fun _ => hsize) ?_
      rw [Link.nextMessage_of_terms hhandles.terms]
      exact Nat.le_add_right _ _
    | read =>
      have hsame := Party.same_read (p.party s)
      obtain ⟨hread, hsize⟩ := hparty.gets (Link.read_queue _)
      exact h.steps hsame.toAlike hread (.inl hsame.generation) fun _ => hsize
    | readInto buffer =>
      have hsame := Party.same_readInto (p.party s) buffer
      obtain ⟨hread, hsize⟩ := hparty.gets
        (r := (((p.party s).link.readInto buffer).1.map (Option.map fun n =>
          ((p.party s).link.readInto buffer).2.1.take n),
          ((p.party s).link.readInto buffer).2.2)) (Link.readInto_queue _ buffer)
      exact h.steps hsame.toAlike hread (.inl hsame.generation) fun _ => hsize
    | readText =>
      have hsame := Party.same_readText (p.party s)
      obtain ⟨hread, hsize⟩ := hparty.gets
        (r := ((p.party s).link.readText.1.map (Option.map Utf8.encode),
          (p.party s).link.readText.2)) (Link.readText_queue _)
      exact h.steps hsame.toAlike hread (.inl hsame.generation) fun _ => hsize
    | setFragmentSize size =>
      have hsame := Party.same_setFragmentSize (p.party s) size
      rw [act_of_running hhalted (.inr (.inl ⟨size, rfl⟩))]
      refine h.steps hsame.toAlike ?_ (.inl hsame.generation) fun hne => absurd rfl (hne size)
      rw [Link.setFragmentSize]
      split
      · exact hparty.congr hparty.active rfl rfl
          ⟨count, hstill.settings, hstill.gaps, hstill.arrival, hstill.progress⟩
      · exact hparty
    | advanceGeneration =>
      rw [act_of_running hhalted (.inr (.inr rfl)), work, Party.advance_of_ne (hlast s rfl)]
      exact h.steps ⟨rfl, rfl, rfl, rfl, rfl, fun hx => ⟨hx, rfl, rfl, rfl⟩⟩
        (hparty.congr hparty.active rfl rfl
          ⟨count, hstill.settings, hstill.gaps, hstill.arrival, hstill.progress⟩) (.inr ⟨rfl, rfl⟩)
        fun _ => rfl
    | close => cases he

/-- No operation of a run fails for lack of room or time. -/
theorem Steady.run (es : List Event) (hes : ∀ e ∈ es, e.isSteady = true)
    (h : Steady gens layout now start p t)
    (hnonzero : Separate gens → ∀ s g, gens s g → g ≠ 0)
    (hgens : Separate gens → ∀ s i, i ≤ advances s es →
      gens s ((p.party s).link.generation + UInt64.ofNat i))
    (hlast : ∀ s, (p.party s).link.generation.toNat + advances s es ≤ Link.lastGeneration.toNat)
    (hnumber : ∀ s, (p.party s).link.nextMessage.toNat + writes s es ≤ Link.lastMessage.toNat)
    (hroom : ∀ s, ∀ w ∈ p.emissions s es, w.length ≤ (start s.opposite).settings.rawLimit) :
    ∃ t', Steady gens layout now start (p.run es) t' := by
  induction es generalizing p t with
  | nil => exact ⟨t, h⟩
  | cons e es ih =>
    have hsettings (s : Side) : (p.party s).link.settings = (start s).settings := by
      obtain ⟨count, hstill⟩ := (h.party s).still
      exact hstill.settings
    have hgen (hapart : Separate gens) (s : Side) : gens s (p.party s).link.generation ∧
        (p.party s).link.generation ≠ 0 := by
      have hnow := Advances.now (hgens hapart) s
      exact ⟨hnow, hnonzero hapart s _ hnow⟩
    have hstep := h.step hcalm hgen (hes e List.mem_cons_self) (Advances.ne_last hlast)
      (fun s => ?_) fun s op _ _ w hw => ?_
    · obtain ⟨t', hsteady⟩ := hstep.steady
      refine ih (fun e' he' => hes e' (List.mem_cons_of_mem e he')) hsteady
        (fun hapart => Advances.range hstep.generation (hgens hapart))
        (Advances.last hstep.generation hlast) (fun s => ?_)
        fun s w hw => hroom s w (List.mem_append_right _ hw)
      have hle := hstep.number s
      have hall := hnumber s
      rw [writes_cons] at hall
      omega
    · have hall := hnumber s
      rw [writes_cons] at hall
      omega
    · rw [hsettings]
      exact hroom s w (List.mem_append_left _ hw)

/-! ## the start -/

omit hcalm in
/-- two links as they are opened, up to their layout and their fragment sizes -/
theorem steady_fresh {id : Side → Nat} {settings : Side → Settings} {generation : Side → UInt64}
    {size : Side → Nat} (gens : Side → UInt64 → Prop) (hnow : p.now = now)
    (hduplex : p.duplex = .empty)
    (hparty : ∀ s, p.party s =
      { link :=
          { ((opened now id settings generation).party s).link with
            layout := layout
            fragmentSize := size s }
        halted := false
        taken := []
        accepted := [] })
    (hvalid : ∀ s, (settings s).Valid)
    (hroom : ∀ s, layout.headerLength ≤ (settings s).rawLimit) :
    Steady gens layout now (fun s => ((opened now id settings generation).party s).link) p
      fun _ => ⟨[], [], []⟩ := by
  refine ⟨hnow, ?_, ?_, ?_, ?_⟩
  · intro s
    rw [hduplex]
    cases s <;> rfl
  · intro s
    rw [hparty]
    exact ⟨⟨rfl, rfl⟩, rfl, hvalid s,
      ⟨0, rfl, ⟨0, Nat.le_refl 0, rfl⟩, fun _ ht => (nomatch ht), rfl⟩, hroom s⟩
  · intro s
    rw [hparty, hparty, hduplex]
    refine ⟨.empty _ _ _, ?_, fun f hf => (nomatch hf)⟩
    cases s <;> rfl
  · intro _ s
    rw [hparty, hparty]
    exact .empty _ (by decide : (1 : UInt64) ≠ 0)

end Pair

end BundleLink
