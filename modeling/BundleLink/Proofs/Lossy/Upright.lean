import BundleLink.Proofs.Lossy.Trust

/-!
# One side of such a network

A node is upright if what it has delivered, what it holds and what it has written are as they should
be, given the parcels of both sides and the deliveries of the peer. Whatever it does, it stays
upright, and whatever the peer does, too.

* `Upright`           what holds of one node between two events;
* `Upright.mono`      the peer may send and deliver more;
* `Upright.receive`   a receive keeps the node upright;
* `Upright.write`     so does a write, which may add a parcel.
-/

namespace BundleLink

variable {own peers : UInt64 → Prop} {layout : Layout} {n : UInt64} {left : Nat}
  {book theirs theirs' : List Parcel} {heard heard' : List (Key × Bytes)} {x : Node}

/-- A node has sent the parcels `book` and delivered those of the parcels `theirs` that it records,
and the peer has delivered `heard`. Of the generations `own` it may still use `left` more. -/
structure Upright (own peers : UInt64 → Prop) (layout : Layout) (left : Nat)
    (book theirs : List Parcel) (heard : List (Key × Bytes)) (x : Node) : Prop where
  sameLayout : x.attached.link.layout = layout
  range : ∀ i, i ≤ left → own (x.attached.link.generation + UInt64.ofNat i)
  first : x.attached.link.nextMessage ≠ 0
  ledger : Ledger own layout x.attached.link.nextMessage book
  assigned : x.assigned = book.map Parcel.entry
  ready : x.attached.link.ready = x.delivered.map Prod.snd
  honest : ∀ e ∈ x.delivered, ∃ m ∈ theirs, e = m.entry
  posted : Posted peers layout book x.delivered x.attached.channel.written
  owed : x.attached.link.connected = true → Owed book heard x.attached.link.outbound
  working : x.attached.link.connected = true → x.halted = false →
    Keeping theirs x.delivered x.attached.link.inbound ∧
      ∃ fs, (∀ f ∈ fs, Genuine own theirs heard f) ∧
        x.attached.stream = Fragment.wires layout fs

theorem Upright.mono (h : Upright own peers layout left book theirs heard x)
    (htheirs : theirs ⊆ theirs') (hheard : heard ⊆ heard') :
    Upright own peers layout left book theirs' heard' x := by
  refine ⟨h.sameLayout, h.range, h.first, h.ledger, h.assigned, h.ready, ?_, h.posted,
    fun hopen => (h.owed hopen).mono hheard, ?_⟩
  · intro e he
    obtain ⟨m, hm, heq⟩ := h.honest e he
    exact ⟨m, htheirs hm, heq⟩
  · intro hopen hhalted
    obtain ⟨hkeep, fs, hfs, hstream⟩ := h.working hopen hhalted
    exact ⟨hkeep.mono htheirs (List.Subset.refl _) fun _ _ hk => hk, fs,
      fun f hf => (hfs f hf).mono htheirs hheard, hstream⟩

theorem Upright.generation (h : Upright own peers layout left book theirs heard x) :
    own x.attached.link.generation := by
  have h0 := h.range 0 (Nat.zero_le _)
  rw [show UInt64.ofNat 0 = 0 from rfl, UInt64.add_zero] at h0
  exact h0

theorem Upright.shut (h : Upright own peers layout left book theirs heard x) {b : Attached Line}
    (hshut : Attached.Shut x.attached b) (halted : Bool) :
    Upright own peers layout left book theirs heard { x with attached := b, halted := halted } := by
  have hclosed : ¬ b.link.connected = true := by
    rw [hshut.closed]
    exact Bool.false_ne_true
  refine ⟨hshut.layout.trans h.sameLayout, ?_, ?_, ?_, h.assigned, hshut.ready.trans h.ready,
    h.honest, ?_, fun hopen => absurd hopen hclosed, fun hopen => absurd hopen hclosed⟩
  · show ∀ i, i ≤ left → own (b.link.generation + UInt64.ofNat i)
    rw [hshut.generation]
    exact h.range
  · show b.link.nextMessage ≠ 0
    rw [hshut.nextMessage]
    exact h.first
  · show Ledger own layout b.link.nextMessage book
    rw [hshut.nextMessage]
    exact h.ledger
  · have hwritten : b.channel.written = x.attached.channel.written := hshut.outgoing
    show Posted peers layout book x.delivered b.channel.written
    rw [hwritten]
    exact h.posted

/-! ## receiving -/

namespace Attached

/-- the fragments among pieces keep an invariant that accounts for what they make ready -/
theorem handleAll_gains (layout : Layout) (now : Moment)
    {I : List Fragment → List (Key × Bytes) → Attached Line → Prop}
    {E : List (Key × Bytes) → Failure LinkError → Attached Line → Prop}
    (step : ∀ f fs d a, I (f :: fs) d a →
      (handle f now (a.arrived now)).Meets (fun _ b => I fs (d ++ a.gain now f) b)
        (E (d ++ a.gain now f)))
    (fs : List Fragment) (count : Nat) (d : List (Key × Bytes)) (a : Attached Line)
    (h : I fs d a) :
    (handleAll now count (fs.map (Wire.whole layout)) a).Meets
      (fun _ b => I [] (d ++ a.gainAll now (fs.map (Wire.whole layout))) b)
      (E (d ++ a.gainAll now (fs.map (Wire.whole layout)))) := by
  induction fs generalizing count d a with
  | nil =>
    show I [] (d ++ []) a
    rw [List.append_nil]
    exact h
  | cons f fs ih =>
    have hstep := step f fs d a h
    rw [List.map_cons, Wire.whole, handleAll, gainAll]
    cases hr : handle f now (a.arrived now) with
    | ok _ b =>
      rw [hr] at hstep
      dsimp only
      rw [← List.append_assoc]
      exact ih (count + 1) _ b hstep
    | error e b =>
      rw [hr] at hstep
      dsimp only
      rw [List.append_nil]
      exact hstep

theorem gains_failed {a : Attached Line} {e : IoError} (h : a.intake.ended = .error e)
    (now : Moment) : a.gains now = [] := by
  rw [gains, fillRaw_error h]
  split
  · rfl
  · rfl

theorem gains_loaded {a : Attached Line} {ended : Bool} (hopen : a.link.connected = true)
    (h : a.intake.ended = .ok ended) (now : Moment) :
    a.gains now = a.loaded.gainAll now a.pieces := by
  rw [gains, if_pos hopen, fillRaw_ok h]
  rfl

theorem Sound.purged {start a b : Attached Line} {d : List (Key × Bytes)} {now : Moment}
    (h : Sound peers layout book theirs heard start d a) (h' : Purged now a b) :
    Sound peers layout book theirs heard start d b := by
  refine ⟨h'.terms.trans h.terms, h'.raw.trans h.raw, ?_, ?_, h'.ready.trans h.ready, h.honest, ?_⟩
  · rw [h'.channel]
    exact h.incoming
  · rw [h'.outbound]
    exact h.owed
  · rw [h'.channel]
    exact h.posted

end Attached

open Attached (Sound Loaded Moved)

theorem Upright.moved (h : Upright own peers layout left book theirs heard x) {b : Attached Line}
    (hmoved : Moved x.attached b) (hopen : x.attached.link.connected = true) :
    Sound peers layout book theirs heard b x.delivered b := by
  refine ⟨rfl, rfl, rfl, ?_, hmoved.ready.trans h.ready, h.honest, ?_⟩
  · rw [hmoved.outbound]
    exact h.owed hopen
  · have hwritten : b.channel.written = x.attached.channel.written := hmoved.outgoing
    rw [hwritten]
    exact h.posted

/-- a node after it handled fragments, if it works no more -/
theorem Upright.stopped (h : Upright own peers layout left book theirs heard x)
    {b c : Attached Line} {d : List (Key × Bytes)} (hmoved : Moved x.attached b)
    (hsound : Sound peers layout book theirs heard b d c) :
    Upright own peers layout left book theirs heard
      { x with attached := c, halted := true, delivered := d } := by
  have hterms := hsound.terms.trans hmoved.terms
  have hnext := Link.nextMessage_of_terms hterms
  refine ⟨(Link.layout_of_terms hterms).trans h.sameLayout, ?_, ?_, ?_, h.assigned, hsound.ready,
    hsound.honest, hsound.posted, fun _ => hsound.owed, fun _ hhalted => nomatch hhalted⟩
  · show ∀ i, i ≤ left → own (c.link.generation + UInt64.ofNat i)
    rw [Link.generation_of_terms hterms]
    exact h.range
  · show c.link.nextMessage ≠ 0
    rw [hnext]
    exact h.first
  · show Ledger own layout c.link.nextMessage book
    rw [hnext]
    exact h.ledger

/-- a node after it handled fragments, if it goes on -/
theorem Upright.continued (h : Upright own peers layout left book theirs heard x)
    {b c : Attached Line} {d : List (Key × Bytes)} {todo : List Fragment}
    (hloaded : Loaded layout x.attached todo b)
    (hsound : Sound peers layout book theirs heard b d c)
    (hkeep : Keeping theirs d c.link.inbound) (htodo : ∀ f ∈ todo, Genuine own theirs heard f) :
    Upright own peers layout left book theirs heard { x with attached := c, delivered := d } := by
  have hstopped := h.stopped hloaded.toMoved hsound
  refine ⟨hstopped.sameLayout, hstopped.range, hstopped.first, hstopped.ledger, h.assigned,
    hstopped.ready, hstopped.honest, hstopped.posted, hstopped.owed,
    fun _ _ => ⟨hkeep, todo, htodo, ?_⟩⟩
  show c.link.raw ++ c.channel.incoming = _
  rw [hsound.raw, hsound.incoming]
  exact hloaded.stream

theorem Upright.receiveBundles (h : Upright own peers layout left book theirs heard x)
    (htheirs : Ledger peers layout n theirs) (hhonest : ∀ e ∈ heard, ∃ m ∈ book, e = m.entry)
    (hapart : ∀ g, own g → ¬ peers g) (hopen : x.attached.link.connected = true)
    (hhalted : x.halted = false) (now : Moment) :
    (Attached.receiveBundles now x.attached).Meets
      (fun _ b => Upright own peers layout left book theirs heard
        { x with attached := b, delivered := x.delivered ++ x.attached.gains now })
      (fun e b => Upright own peers layout left book theirs heard
        { x with attached := b, halted := true, delivered := x.delivered ++ x.attached.gains now } ∧
        e.Ends) := by
  obtain ⟨hkeep, fs, hfs, hstream⟩ := h.working hopen hhalted
  cases hended : x.attached.intake.ended with
  | error e =>
    rw [Attached.receiveBundles_failed hended, Attached.gains_failed hended, List.append_nil]
    have hmoved := Attached.moved_filled x.attached
    exact ⟨h.stopped hmoved (h.moved hmoved hopen), rfl⟩
  | ok ended =>
    have hfits : ∀ f ∈ fs, f.Fits layout := fun f hf => (hfs f hf).fits htheirs
    obtain ⟨done, todo, rfl, hpieces, hloaded, -, heq⟩ :=
      Attached.receiveBundles_loaded h.sameLayout hfits hstream hended now
    rw [heq, Attached.gains_loaded hopen hended, hpieces]
    generalize x.attached.loaded = b at hloaded
    have hsame : b.link.layout = layout :=
      (Link.layout_of_terms hloaded.terms).trans h.sameLayout
    have hall := Attached.handleAll_gains layout now
      (I := fun gs d a => (∀ g ∈ gs, Genuine own theirs heard g) ∧
        Sound peers layout book theirs heard b d a ∧ Keeping theirs d a.link.inbound)
      (E := fun d e c => Sound peers layout book theirs heard b d c ∧ e.Ends)
      (fun f gs d a ha => ?step) done 0 x.delivered b
      ⟨fun g hg => hfs g (List.mem_append_left todo hg), h.moved hloaded.toMoved hopen,
        by rw [hloaded.inbound]; exact hkeep⟩
    case step =>
      obtain ⟨hgenuine, hsound, hkeep⟩ := ha
      refine (hsound.handle hsame h.ledger htheirs hhonest hapart hkeep
        (hgenuine f List.mem_cons_self)).imp (fun _ c hc => ⟨?_, hc⟩) fun _ _ hc => hc
      intro g hg
      exact hgenuine g (List.mem_cons_of_mem f hg)
    cases hr : Attached.handleAll now 0 (done.map (Wire.whole layout)) b with
    | error e c =>
      rw [hr] at hall
      exact ⟨h.stopped hloaded.toMoved hall.1, hall.2⟩
    | ok count c =>
      rw [hr] at hall
      obtain ⟨-, hsound, hkeep'⟩ := hall
      refine (Attached.conclude_meets now ended count c).imp ?_ ?_
      · intro _ e he
        obtain ⟨hpurged, -⟩ := he
        refine h.continued hloaded (hsound.purged hpurged) ?_ fun f hf =>
          hfs f (List.mem_append_right done hf)
        apply hkeep'.mono (List.Subset.refl _) (List.Subset.refl _)
        intro k asm hk
        rw [hpurged.inbound, Option.filter_eq_some_iff] at hk
        exact hk.1
      · intro _ e he
        exact ⟨h.stopped hloaded.toMoved (hsound.purged he.1), he.2⟩

theorem Upright.receive (h : Upright own peers layout left book theirs heard x)
    (htheirs : Ledger peers layout n theirs) (hhonest : ∀ e ∈ heard, ∃ m ∈ book, e = m.entry)
    (hapart : ∀ g, own g → ¬ peers g) (hhalted : x.halted = false) (now : Moment) :
    Upright own peers layout left book theirs heard
      (x.settle [] (x.attached.gains now) (x.attached.receive now)) := by
  cases hopen : x.attached.link.connected with
  | false =>
    have hgains : x.attached.gains now = [] := by
      rw [Attached.gains, hopen]
      rfl
    rw [Attached.receive_of_closed hopen, hgains, Node.settle, List.append_nil]
    exact h
  | true =>
    have hmeets := Attached.settle_meets
      (h.receiveBundles htheirs hhonest hapart hopen hhalted now) fun _ _ hb => hb.2
    rw [Attached.receive, if_pos hopen]
    generalize Attached.settle (Attached.receiveBundles now x.attached) = r at hmeets
    cases r with
    | ok _ b =>
      rw [Node.settle, List.append_nil]
      exact hmeets
    | error e c =>
      obtain ⟨b, hb, ⟨f, rfl, rfl⟩ | ⟨⟨f, rfl⟩, hshut⟩⟩ := hmeets
      · exact hb.1
      · exact hb.1.shut hshut x.halted

/-! ## the other events -/

theorem Upright.sent (h : Upright own peers layout left book theirs heard x)
    (hnonzero : ∀ g, own g → g ≠ 0) (hopen : x.attached.link.connected = true)
    {buffer : Bytes} {parts : List Fragment} {now : Moment} {b : Attached Line}
    (hwritten : Attached.Written buffer parts now x.attached b) :
    Upright own peers layout left (book ++ [⟨x.attached.nextKey, buffer, parts⟩]) theirs heard
      { x with attached := b, assigned := x.assigned ++ [(x.attached.nextKey, buffer)] } := by
  have hsplit := hwritten.split
  have hout := hwritten.outgoing
  rw [h.sameLayout] at hsplit hout
  have hsub := List.subset_append_left book [⟨x.attached.nextKey, buffer, parts⟩]
  have hparcel : Parcel.Sent own layout b.link.nextMessage ⟨x.attached.nextKey, buffer, parts⟩ :=
    ⟨Attached.isProper_nextKey (hnonzero _ h.generation) h.first, .of_split hsplit, h.generation,
      hwritten.lt⟩
  refine ⟨hwritten.layout.trans h.sameLayout, ?_, hwritten.ne_zero,
    h.ledger.append hparcel rfl hwritten.lt, ?_, hwritten.ready.trans h.ready, h.honest, ?_, ?_,
    ?_⟩
  · show ∀ i, i ≤ left → own (b.link.generation + UInt64.ofNat i)
    rw [hwritten.generation]
    exact h.range
  · show x.assigned ++ [_] = _
    rw [h.assigned, List.map_append]
    rfl
  · have hchannel : b.channel.written = x.attached.channel.written ++
        parts.map (Fragment.wire layout) := hout
    show Posted peers layout _ x.delivered b.channel.written
    rw [hchannel]
    exact (h.posted.mono hsub (List.Subset.refl _)).append fun f hf =>
      .inl ⟨_, List.mem_append_right book List.mem_cons_self, hf⟩
  · intro _
    show Owed _ heard b.link.outbound
    rw [hwritten.outbound]
    exact (h.owed hopen).put (h.ledger.fresh rfl)
  · intro _ hhalted
    obtain ⟨hkeep, fs, hfs, hstream⟩ := h.working hopen hhalted
    have hincoming : b.channel.incoming = x.attached.channel.incoming := hwritten.incoming
    refine ⟨?_, fs, hfs, ?_⟩
    · show Keeping theirs x.delivered b.link.inbound
      rw [hwritten.inbound]
      exact hkeep
    · show b.link.raw ++ b.channel.incoming = _
      rw [hwritten.raw, hincoming]
      exact hstream

/-- A write keeps a node upright; if it succeeds there is one parcel more. -/
theorem Upright.write (h : Upright own peers layout left book theirs heard x)
    (hnonzero : ∀ g, own g → g ≠ 0) (buffer : Bytes) (flushNow : Bool) (now : Moment) :
    ∃ book', book ⊆ book' ∧ Upright own peers layout left book' theirs heard
      (x.settle [(x.attached.nextKey, buffer)] [] (x.attached.write buffer flushNow now)) := by
  cases hopen : x.attached.link.connected with
  | false =>
    rw [Attached.write_of_closed hopen, Node.settle, List.append_nil]
    exact ⟨book, List.Subset.refl _, h⟩
  | true =>
    have hcases := Attached.write_result hopen buffer flushNow now
    generalize x.attached.write buffer flushNow now = r at hcases
    cases hcases with
    | sent b parts written =>
      refine ⟨_, List.subset_append_left _ [⟨x.attached.nextKey, buffer, parts⟩], ?_⟩
      rw [Node.settle, List.append_nil]
      exact h.sent hnonzero hopen written
    | refused e =>
      rw [Node.settle, List.append_nil]
      exact ⟨book, List.Subset.refl _, h⟩
    | faulted e =>
      rw [Node.settle, List.append_nil]
      refine ⟨book, List.Subset.refl _, h.sameLayout, h.range, h.first, h.ledger, h.assigned,
        h.ready, h.honest, h.posted, h.owed, fun _ hhalted => nomatch hhalted⟩
    | broken e b isOpen => cases (show true = false from isOpen)

theorem Upright.fewer {left' : Nat} (h : Upright own peers layout left book theirs heard x)
    (hleft : left' ≤ left) : Upright own peers layout left' book theirs heard x :=
  { h with range := fun i hi => h.range i (Nat.le_trans hi hleft) }

theorem Upright.advance (h : Upright own peers layout (left + 1) book theirs heard x) :
    Upright own peers layout left book theirs heard x.advance := by
  rcases x.advance_eq with hadvance | hadvance
  · rw [hadvance]
    refine ⟨h.sameLayout, ?_, h.first, h.ledger, h.assigned, h.ready, h.honest, h.posted,
      h.owed, h.working⟩
    intro i hi
    show own (x.attached.link.generation + 1 + UInt64.ofNat i)
    rw [advanced_add]
    exact h.range (i + 1) (Nat.succ_le_succ hi)
  · rw [hadvance]
    exact ⟨h.sameLayout, fun i hi => h.range i (Nat.le_succ_of_le hi), h.first, h.ledger,
      h.assigned, h.ready, h.honest, h.posted, h.owed, fun _ hhalted => nomatch hhalted⟩

/-- the network hands over a fragment that the peer wrote -/
theorem Upright.hand (h : Upright own peers layout left book theirs heard x) {f : Fragment}
    (hf : Genuine own theirs heard f) :
    Upright own peers layout left book theirs heard
      { x with
        attached :=
          { x.attached with
            channel :=
              { x.attached.channel with
                incoming := x.attached.channel.incoming ++ f.wire layout } } } := by
  refine ⟨h.sameLayout, h.range, h.first, h.ledger, h.assigned, h.ready, h.honest, h.posted, h.owed,
    ?_⟩
  intro hopen hhalted
  obtain ⟨hkeep, fs, hfs, hstream⟩ := h.working hopen hhalted
  refine ⟨hkeep, fs ++ [f], ?_, ?_⟩
  · intro g hg
    rcases List.mem_append.mp hg with hg | hg
    · exact hfs g hg
    · rw [List.mem_singleton.mp hg]
      exact hf
  · show x.attached.link.raw ++ (x.attached.channel.incoming ++ f.wire layout) = _
    rw [← List.append_assoc, Fragment.wires_append, Fragment.wires_cons, Fragment.wires_nil,
      List.append_nil]
    exact congrArg (· ++ f.wire layout) hstream

end BundleLink
