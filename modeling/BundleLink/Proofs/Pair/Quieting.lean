import BundleLink.Proofs.Pair.Emissions

/-!
# Control fragments never bounce

Two links that only receive say less and less. Whatever fragments are on their way between them, and
whatever their tables hold, all that they write are acks and naks, and there is one for each
fragment that asks for an answer and one for each outbound bundle at most.

* `Event.listens`          receives, and time that goes by;
* `Pair.Owes`, `Pair.Quieting`  how much a side may still write, and both sides;
* `Quieting.step`          what an event makes a side write, it may not write any more;
* `length_emissions_le`    the result.
-/

namespace BundleLink.Pair

/-- the event is a receive, or time goes by -/
def Event.listens : Event → Bool
  | .act _ .receive | .pass _ => true
  | _ => false

/-- While the side is active, the fragments that it has still to handle and its outbound bundles
make it write at most `n` fragments. -/
def Owes (layout : Layout) (p : Pair) (s : Side) (n : Nat) : Prop :=
  (p.party s).Active → ∃ fs, (∀ f ∈ fs, f.Fits layout) ∧
    (p.attached s).stream = Fragment.wires layout fs ∧
    fs.countP Fragment.asks + (p.party s).link.outbound.size ≤ n

structure Quieting (layout : Layout) (n : Side → Nat) (p : Pair) : Prop where
  sameLayout : ∀ s, (p.party s).link.layout = layout
  owes : ∀ s, Owes layout p s (n s)

/-- an ack or a nak in its wire form -/
def IsAnswer (layout : Layout) (w : Bytes) : Prop :=
  ∃ k, w = (Fragment.ack k).wire layout ∨ w = (Fragment.nak k).wire layout

/-- What an event makes the sides write are answers, and what they may still write afterwards is
that much less. -/
structure Spends (layout : Layout) (n : Side → Nat) (p : Pair) (e : Event) : Prop where
  answers : ∀ s, ∀ w ∈ p.emitted s e, IsAnswer layout w
  rest : ∃ n', Quieting layout n' (p.step e) ∧ ∀ s, (p.emitted s e).length + n' s ≤ n s

variable {layout : Layout} {n : Side → Nat} {p : Pair} {s : Side}

theorem isAnswer_of_mem {sent : List Fragment} (h : ∀ g ∈ sent, g.IsAnswer) :
    ∀ w ∈ sent.map (Fragment.wire layout), IsAnswer layout w := by
  intro w hw
  obtain ⟨g, hg, rfl⟩ := List.mem_map.mp hw
  obtain ⟨k, rfl | rfl⟩ := h g hg
  · exact ⟨k, .inl rfl⟩
  · exact ⟨k, .inr rfl⟩

/-- answers do not ask, so they put the peer to no expense -/
theorem Owes.append {p' : Pair} {sent : List Fragment} {m : Nat} (h : Owes layout p s m)
    (hsent : ∀ g ∈ sent, g.IsAnswer) (hparty : p'.party s = p.party s)
    (hstream : (p'.attached s).stream =
      (p.attached s).stream ++ Fragment.wires layout sent) : Owes layout p' s m := by
  intro hactive
  rw [hparty] at hactive
  obtain ⟨fs, hfits, hfs, hcost⟩ := h hactive
  refine ⟨fs ++ sent, ?_, ?_, ?_⟩
  · intro f hf
    rcases List.mem_append.mp hf with hf | hf
    · exact hfits f hf
    · exact (hsent f hf).fits layout
  · rw [hstream, hfs, Fragment.wires_append]
  · rw [List.countP_append, countP_asks_answers hsent, hparty]
    exact hcost

/-- the event does nothing at all -/
theorem Quieting.idle (h : Quieting layout n p) {e : Event} (hstep : p.step e = p)
    (hemitted : ∀ s, p.emitted s e = []) : Spends layout n p e := by
  refine ⟨?_, n, by rw [hstep]; exact h, ?_⟩
  · intro s w hw
    rw [hemitted s] at hw
    cases hw
  · intro s
    rw [hemitted s]
    exact Nat.le_of_eq (Nat.zero_add _)

/-- one side wrote the answers `sent` and may still write `m` fragments -/
theorem Quieting.sent (h : Quieting layout n p) {r : Outcome End Unit} {sent : List Fragment}
    {m : Nat} (hact : p.act s .receive = p.settle s [] r)
    (hsent : Attached.Emits sent (p.attached s) r.after) (hcost : sent.length + m ≤ n s)
    (howes : Owes layout (p.settle s [] r) s m) : Spends layout n p (.act s .receive) := by
  have hlayout : (p.attached s).link.layout = layout := h.sameLayout s
  have hout := hsent.outgoing
  rw [hlayout] at hout
  have hemitted := emitted_settle hact hsent.description hout
  have hstream : ((p.settle s [] r).attached s.opposite).stream =
      (p.attached s.opposite).stream ++ Fragment.wires layout sent :=
    stream_settle_opposite hsent.description hout
  constructor
  · intro t
    rcases Side.eq_or_opposite s t with rfl | rfl
    · rw [hemitted]
      exact isAnswer_of_mem hsent.answers
    · rw [emitted_opposite]
      exact fun w hw => (nomatch hw)
  · refine ⟨fun t => if t = s then m else n t, ?_, ?_⟩
    · show Quieting layout _ (p.act s .receive)
      rw [hact]
      constructor
      · intro t
        rcases Side.eq_or_opposite s t with rfl | rfl
        · rw [link_settle]
          exact hsent.layout.trans (h.sameLayout t)
        · rw [party_settle_opposite]
          exact h.sameLayout _
      · intro t
        rcases Side.eq_or_opposite s t with rfl | rfl
        · rw [if_pos rfl]
          exact howes
        · rw [if_neg (Side.opposite_ne s)]
          exact (h.owes s.opposite).append hsent.answers (party_settle_opposite [] r) hstream
    · intro t
      dsimp only
      rcases Side.eq_or_opposite s t with rfl | rfl
      · rw [hemitted, List.length_map, if_pos rfl]
        exact hcost
      · rw [emitted_opposite, if_neg (Side.opposite_ne s)]
        exact Nat.le_of_eq (Nat.zero_add _)

theorem Quieting.receive (h : Quieting layout n p) (s : Side) :
    Spends layout n p (.act s .receive) := by
  cases hhalted : (p.party s).halted with
  | true =>
    have hact := act_of_halted hhalted
    refine h.idle hact fun t => ?_
    rcases Side.eq_or_opposite s t with rfl | rfl
    · exact emitted_of_duplex (by rw [hact])
    · exact emitted_opposite _
  | false =>
    have hact := act_receive hhalted
    have hinactive {r : Outcome End Unit} (hr : (∃ f b, r = .error (.fault f) b) ∨
        r.after.link.connected = false) : Owes layout (p.settle s [] r) s 0 := by
      rintro ⟨hopen, hrunning⟩
      rcases hr with ⟨f, b, rfl⟩ | hclosed
      · rw [settle, party_put] at hrunning
        cases hrunning
      · rw [link_settle, hclosed] at hopen
        cases hopen
    cases hopen : (p.party s).link.connected with
    | false =>
      rw [Attached.receive_of_closed (a := p.attached s) hopen] at hact
      have hnothing : Attached.Emits [] (p.attached s) (p.attached s) :=
        ⟨fun _ hg => absurd hg List.not_mem_nil, rfl, rfl, (List.append_nil _).symm⟩
      exact h.sent (m := 0) hact hnothing (Nat.zero_le _) (hinactive (.inr hopen))
    | true =>
      obtain ⟨fs, hfits, hstream, hcost⟩ := h.owes s ⟨hopen, hhalted⟩
      have hheeds := Attached.receive_heeds (a := p.attached s) hopen (h.sameLayout s) hfits hstream
        p.now
      generalize (p.attached s).receive p.now = r at hact hheeds
      cases r with
      | ok _ b =>
        obtain ⟨hterms, done, todo, sent, rfl, hrest, -, hsent, hpaid⟩ := hheeds
        rw [List.countP_append] at hcost
        have hpaid' : sent.length + b.link.outbound.size ≤
            done.countP Fragment.asks + (p.party s).link.outbound.size := hpaid
        refine h.sent hact hsent (m := todo.countP Fragment.asks + b.link.outbound.size)
          (by omega) fun _ => ⟨todo, ?_, ?_, ?_⟩
        · exact fun f hf => hfits f (List.mem_append_right done hf)
        · rw [attached_settle (r := .ok _ b) hsent.description]
          exact hrest
        · rw [link_settle]
          exact Nat.le_refl _
      | error e b =>
        obtain ⟨⟨sent, hsent, hpaid⟩, hstopped⟩ := hheeds
        have hpaid' : sent.length ≤
            fs.countP Fragment.asks + (p.party s).link.outbound.size := hpaid
        refine h.sent hact hsent (m := 0) (by omega) (hinactive ?_)
        rcases hstopped with ⟨f, rfl⟩ | hclosed
        · exact .inl ⟨f, b, rfl⟩
        · exact .inr hclosed

theorem Quieting.step (h : Quieting layout n p) {e : Event} (he : e.listens = true) :
    Spends layout n p e := by
  cases e with
  | act s op =>
    cases op with
    | receive => exact h.receive s
    | _ => cases he
  | switchLayout layout => cases he
  | pass d =>
    refine ⟨fun s w hw => (nomatch hw), n, ?_, fun s => Nat.le_of_eq (Nat.zero_add _)⟩
    rw [Pair.step]
    split
    · exact ⟨h.sameLayout, h.owes⟩
    · exact h

theorem Quieting.emissions (es : List Event) (hes : ∀ e ∈ es, e.listens = true)
    (h : Quieting layout n p) :
    (∀ s, ∀ w ∈ p.emissions s es, IsAnswer layout w) ∧
      ∀ s, (p.emissions s es).length ≤ n s := by
  induction es generalizing p n with
  | nil => exact ⟨fun s w hw => (nomatch hw), fun s => Nat.zero_le _⟩
  | cons e es ih =>
    obtain ⟨hanswers, n', hrest, hless⟩ := h.step (hes e List.mem_cons_self)
    obtain ⟨hlater, hlength⟩ := ih (fun e' he' => hes e' (List.mem_cons_of_mem e he')) hrest
    constructor
    · intro s w hw
      rcases List.mem_append.mp hw with hw | hw
      · exact hanswers s w hw
      · exact hlater s w hw
    · intro s
      have h1 := hless s
      have h2 := hlength s
      rw [Pair.emissions, List.length_append]
      omega

/-- Two links in any state that only receive, with any fragments in the pipes between them, write
nothing but acks and naks, and no more of them than there are fragments in the pipes that are no
control fragments and bundles outbound. -/
theorem length_emissions_le (p : Pair) (layout : Layout) (pending : Side → List Fragment)
    (es : List Event) (hlayout : ∀ s, (p.party s).link.layout = layout)
    (hraw : ∀ s, (p.party s).link.raw = []) (hfits : ∀ s, ∀ f ∈ pending s, f.Fits layout)
    (hpipe : ∀ s, (p.duplex.inbound s).toBytes = Fragment.wires layout (pending s))
    (hes : ∀ e ∈ es, e.listens = true) :
    (p.emissions .first es).length + (p.emissions .second es).length ≤
        (pending .first).countP (fun f => !f.isControl) +
          (pending .second).countP (fun f => !f.isControl) +
          ((p.party .first).link.outbound.size + (p.party .second).link.outbound.size) ∧
      ∀ s, ∀ w ∈ p.emissions s es, IsAnswer layout w := by
  have hstart : Quieting layout (fun s => (pending s).countP (fun f => !f.isControl) +
      (p.party s).link.outbound.size) p := by
    refine ⟨hlayout, fun s _ => ⟨pending s, hfits s, ?_, ?_⟩⟩
    · rw [← hpipe]
      show (p.party s).link.raw ++ _ = _
      rw [hraw]
      rfl
    · apply Nat.add_le_add_right
      apply List.countP_mono_left
      intro f _ hf
      rw [Fragment.isControl_of_asks hf]
      rfl
  obtain ⟨hanswers, hlength⟩ := hstart.emissions es hes
  have hfirst := hlength .first
  have hsecond := hlength .second
  exact ⟨by omega, hanswers⟩

/-- what is on its way to each side: parts of bundles, some of them with a zero in their key or with
a count that contradicts the others, acks, and naks -/
def crossing : Side → List Fragment
  | .first => [.ack ⟨1, 1⟩, .nak ⟨1, 1⟩, .ack ⟨0, 1⟩, .header 0 1 1 0, .header 1 2 (-5) 0]
  | .second =>
    [.header 1 1 1 0, ⟨1, 1, 1, 2, 0, some [104, 105]⟩, ⟨2, 1, 3, 1, 0, some [33]⟩,
      .header 2 1 1 0]

/-- two links of the same generation, one of which has a bundle outbound -/
def colliding : Pair :=
  { (opened .start (fun _ => 7) (fun _ => {}) fun _ => 1).run
      [.act .first (.write [104, 105] true)] with
    duplex :=
      { forth := ⟨Fragment.wires .plain (crossing .second), [], false⟩
        back := ⟨Fragment.wires .plain (crossing .first), [], false⟩ } }

def exchange : List Event :=
  [.act .first .receive, .act .second .receive, .pass (.ofMillis 5), .act .first .receive,
    .act .second .receive]

theorem length_emissions_le_colliding :
    (∀ s, (colliding.party s).link.layout = .plain) ∧ (∀ s, (colliding.party s).link.raw = []) ∧
      (∀ s, ∀ f ∈ crossing s, f.Fits .plain) ∧
      (∀ s, (colliding.duplex.inbound s).toBytes = Fragment.wires .plain (crossing s)) ∧
      (∀ e ∈ exchange, e.listens = true) ∧
      colliding.emissions .first exchange = [(Fragment.ack ⟨1, 1⟩).wire .plain] ∧
      colliding.emissions .second exchange =
        [(Fragment.ack ⟨1, 1⟩).wire .plain, (Fragment.nak ⟨2, 1⟩).wire .plain] ∧
      (colliding.emissions .first exchange).length +
        (colliding.emissions .second exchange).length ≤ 2 + 4 + (1 + 0) ∧
      ∀ s, ∀ w ∈ colliding.emissions s exchange, IsAnswer .plain w := by
  have hlayout (s : Side) : (colliding.party s).link.layout = .plain := by
    cases s <;> decide +kernel
  have hraw (s : Side) : (colliding.party s).link.raw = [] := by cases s <;> decide +kernel
  have hfits (s : Side) (f : Fragment) (hf : f ∈ crossing s) : f.Fits .plain := by
    have hall : ∀ f ∈ crossing s, f.WellFormed ∧ f.checksum = 0 := by cases s <;> decide
    exact ⟨(hall f hf).1, fun _ => (hall f hf).2⟩
  have hpipe (s : Side) :
      (colliding.duplex.inbound s).toBytes = Fragment.wires .plain (crossing s) := by
    cases s <;> decide +kernel
  have hlistens : ∀ e ∈ exchange, e.listens = true := by decide
  obtain ⟨hlength, hanswers⟩ := length_emissions_le colliding .plain crossing exchange hlayout
    hraw hfits hpipe hlistens
  have hcosts : (crossing .first).countP (fun f => !f.isControl) +
      (crossing .second).countP (fun f => !f.isControl) +
      ((colliding.party .first).link.outbound.size +
        (colliding.party .second).link.outbound.size) = 2 + 4 + (1 + 0) := by decide +kernel
  rw [hcosts] at hlength
  exact ⟨hlayout, hraw, hfits, hpipe, hlistens, by decide +kernel, by decide +kernel, hlength,
    hanswers⟩

end BundleLink.Pair
