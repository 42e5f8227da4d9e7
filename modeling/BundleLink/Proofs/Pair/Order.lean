import BundleLink.Proofs.Pair.Invariant

/-!
# Bundles arrive in order, and exactly once

Whatever the applications at both ends of a memory channel do, and however time goes by, the bundles
that one end received are the first ones of those that the other end had accepted. Nothing in the
middle is lost, repeated, merged or cut.

* `Inv.act`, `Inv.step`, `Inv.run`   the invariant survives operations, events and runs;
* `Pair.inv_opened`                  it holds of links that were just opened;
* `Pair.delivered_isPrefix_accepted` the result.
-/

namespace BundleLink

/-! ## operations of one link alone -/

namespace Link

theorem read_queue (l : Link) : ∃ rest, l.read.2 = { l with ready := rest } := by
  rw [read]
  split
  · exact ⟨l.ready, rfl⟩
  · exact ⟨_, rfl⟩

theorem readInto_queue (l : Link) (buffer : Bytes) :
    ∃ rest, (l.readInto buffer).2.2 = { l with ready := rest } := by
  rw [readInto]
  split
  · exact ⟨l.ready, rfl⟩
  · split
    · exact ⟨l.ready, rfl⟩
    · exact ⟨_, rfl⟩

theorem readText_queue (l : Link) : ∃ rest, l.readText.2 = { l with ready := rest } := by
  rw [readText]
  split
  · exact ⟨l.ready, rfl⟩
  · split
    · exact ⟨l.ready, rfl⟩
    · exact ⟨_, rfl⟩

theorem setFragmentSize_eq (l : Link) (size : Nat) :
    ∃ n, (l.setFragmentSize size).2 = { l with fragmentSize := n } := by
  rw [setFragmentSize]
  split <;> exact ⟨_, rfl⟩

end Link

namespace Party

variable {x : Party}

theorem same_taken {bundle : Bytes} {rest : List Bytes} (h : x.link.ready = bundle :: rest) :
    x.Same { x with link := { x.link with ready := rest }, taken := x.taken ++ [bundle] } := by
  refine ⟨⟨rfl, rfl, rfl, rfl, ?_, fun hx => ⟨hx, rfl, rfl, rfl⟩⟩, rfl⟩
  show x.taken ++ [bundle] ++ rest = x.taken ++ x.link.ready
  rw [h, List.append_assoc]
  rfl

theorem gets_nothing (x : Party) : x.gets (x.link.nothingReady, x.link) = x := by
  rw [Link.nothingReady]
  split <;> rfl

theorem same_read (x : Party) : x.Same (x.gets x.link.read) := by
  rw [Link.read]
  split
  · rw [gets_nothing]
    exact .refl x
  · rename_i bundle rest h
    exact same_taken h

theorem same_readInto (x : Party) (buffer : Bytes) :
    x.Same (x.gets
      ((x.link.readInto buffer).1.map (Option.map fun n => (x.link.readInto buffer).2.1.take n),
        (x.link.readInto buffer).2.2)) := by
  rw [Link.readInto]
  split
  · have hnone : (x.link.nothingReady.map (Option.map fun n => buffer.take n) :
        Except LinkError (Option Bytes)) = x.link.nothingReady := by
      rw [Link.nothingReady, Link.nothingReady]
      split <;> rfl
    dsimp only
    rw [hnone, gets_nothing]
    exact .refl x
  · rename_i bundle rest h
    split
    · exact .refl x
    · have htake : (bundle ++ buffer.drop bundle.length).take bundle.length = bundle :=
        List.take_left
      dsimp only [Except.map, Option.map]
      rw [htake]
      exact same_taken h

theorem same_readText (x : Party) :
    x.Same (x.gets (x.link.readText.1.map (Option.map Utf8.encode), x.link.readText.2)) := by
  rw [Link.readText]
  split
  · have hnone : (x.link.nothingReady.map (Option.map Utf8.encode) :
        Except LinkError (Option Bytes)) = x.link.nothingReady := by
      rw [Link.nothingReady, Link.nothingReady]
      split <;> rfl
    dsimp only
    rw [hnone, gets_nothing]
    exact .refl x
  · rename_i bundle rest h
    split
    · exact .refl x
    · rename_i text htext
      dsimp only [Except.map, Option.map]
      rw [Utf8.encode_of_decode htext]
      exact same_taken h

theorem alike_advance (x : Party) : x.Alike x.advance := by
  rcases x.advance_eq with hadvance | hadvance
  · rw [hadvance]
    exact ⟨rfl, rfl, rfl, rfl, rfl, fun hx => ⟨hx, rfl, rfl, rfl⟩⟩
  · rw [hadvance]
    exact ⟨rfl, rfl, rfl, rfl, rfl, fun hx => absurd hx.2 (by simp)⟩

/-- a party that is at work afterwards has advanced -/
theorem advance_of_active (h : x.advance.Active) : x.Active ∧
    x.advance = { x with link := { x.link with generation := x.link.generation + 1 } } := by
  refine ⟨(x.alike_advance.active h).1, x.advance_eq.resolve_right fun hadvance => ?_⟩
  rw [hadvance] at h
  exact absurd h.2 (by simp)

theorem same_setFragmentSize (x : Party) (size : Nat) :
    x.Same { x with link := (x.link.setFragmentSize size).2 } := by
  rw [Link.setFragmentSize]
  split <;> exact ⟨⟨rfl, rfl, rfl, rfl, rfl, fun hx => ⟨hx, rfl, rfl, rfl⟩⟩, rfl⟩

end Party

namespace Pair

variable {gens : Side → UInt64 → Prop} {p : Pair} {s : Side}

theorem Inv.close (h : Inv gens p) : Keeps gens p (p.work s .close) := by
  have hshut := Attached.shut_close (p.attached s)
  refine h.same ⟨?_, hshut.generation⟩ ?_
  · refine ⟨hshut.layout, hshut.settings, hshut.nextMessage, rfl, ?_, ?_⟩
    · show (p.party s).taken ++ (p.attached s).close.link.ready = _
      rw [hshut.ready]
      rfl
    · intro hx
      exact absurd hx (Party.not_active hshut.closed)
  · intro t
    obtain ⟨hin, hout⟩ := incoming_eq hshut.description
    rcases Side.eq_or_opposite s t with rfl | rfl
    · rw [← hout, hshut.outgoing]
      rfl
    · rw [← hin, hshut.incoming]
      rfl

/-! ## events -/

/-- How an event may change the generation of a side. -/
def Advances (e : Event) (t : Side) (g g' : UInt64) : Prop :=
  g' = g ∨ (e = .act t .advanceGeneration ∧ g' = g + 1)

/-- what an event has to keep -/
structure Follows (gens : Side → UInt64 → Prop) (p : Pair) (e : Event) (p' : Pair) : Prop where
  inv : Inv gens p'
  generation : ∀ t, Advances e t (p.party t).link.generation (p'.party t).link.generation

theorem Keeps.follows {p' : Pair} (h : Keeps gens p p') (e : Event) : Follows gens p e p' :=
  ⟨h.inv, fun t => .inl (h.generation t)⟩

theorem Inv.follows (h : Inv gens p) (e : Event) : Follows gens p e p :=
  ⟨h, fun _ => .inl rfl⟩

theorem Inv.advanceGeneration (h : Inv gens p) (s : Side) :
    Follows gens p (.act s .advanceGeneration) (p.work s .advanceGeneration) := by
  refine ⟨h.alike (p.party s).alike_advance fun _ => rfl, fun t => ?_⟩
  rcases Side.eq_or_opposite s t with rfl | rfl
  · rw [work, party_put]
    rcases (p.party t).advance_eq with hadvance | hadvance
    · exact .inr ⟨rfl, by rw [hadvance]⟩
    · exact .inl (by rw [hadvance])
  · left
    rw [work, party_put_opposite]

theorem Inv.act (h : Inv gens p) (hnonzero : ∀ s g, gens s g → g ≠ 0)
    (hapart : ∀ g, gens .first g → ¬ gens .second g)
    (hgen : ∀ s, gens s (p.party s).link.generation) (s : Side) (op : Operation) :
    Follows gens p (.act s op) (p.act s op) := by
  have hsame {x : Party} (hx : (p.party s).Same x) :
      Follows gens p (.act s op) (p.put s x p.duplex) := (h.same hx fun _ => rfl).follows _
  cases op with
  | read => exact hsame (Party.same_read _)
  | readInto buffer => exact hsame (Party.same_readInto _ buffer)
  | readText => exact hsame (Party.same_readText _)
  | write buffer flushNow =>
    exact Party.unless_halted (h.follows _) fun hhalted =>
      (h.write hnonzero (hgen s) hhalted buffer flushNow).follows _
  | writeText text flushNow =>
    exact Party.unless_halted (h.follows _) fun hhalted =>
      (h.write hnonzero (hgen s) hhalted (Utf8.encode text) flushNow).follows _
  | receive =>
    exact Party.unless_halted (h.follows _) fun hhalted => (h.receive hapart hhalted).follows _
  | setFragmentSize size =>
    exact Party.unless_halted (h.follows _) fun _ => hsame (Party.same_setFragmentSize _ size)
  | advanceGeneration => exact Party.unless_halted (h.follows _) fun _ => h.advanceGeneration s
  | close =>
    show Follows gens p _ (if (p.party s).halted then _ else _)
    split
    · exact hsame ⟨⟨rfl, rfl, rfl, rfl, rfl, fun hx => absurd hx.1 (by simp)⟩, rfl⟩
    · exact h.close.follows _

theorem Flow.quiet {own : UInt64 → Prop} {x y : Party} {bytes : Bytes} (h : Flow own x y bytes)
    (hbytes : bytes = []) (hraw : y.link.raw = []) (layout : Layout) :
    Flow own { x with link := x.link.setLayout layout } { y with link := y.link.setLayout layout }
      bytes := by
  refine ⟨h.isPrefix, ?_⟩
  intro hy
  obtain ⟨pending, seen, todo, hc, hstream, hcase⟩ := h.hears hy
  rw [hraw, hbytes, List.append_nil] at hstream
  obtain rfl := Wire.wires_eq_nil hstream.symm
  obtain ⟨rfl, rfl⟩ := hc.pending_nil
  have hall : x.accepted = y.taken ++ y.link.ready := by
    rw [hc.accounts]
    exact List.append_nil _
  have hassembled : Assembled x.link.nextMessage y.link.inbound [] [] := by
    rcases hcase with ⟨-, f, hf, -⟩ | hassembled
    · cases hf
    · exact hassembled
  refine ⟨[], [], [], ?_, ?_, .inr hassembled⟩
  · show Course own layout x.link.nextMessage x.accepted (y.taken ++ y.link.ready) [] [] []
    rw [hall]
    exact .empty own layout _ _
  · show y.link.raw ++ bytes = []
    rw [hraw, hbytes]
    rfl

theorem Inv.switchLayout (h : Inv gens p) (layout : Layout) (hquiet : p.isQuiet = true) :
    Inv gens (p.step (.switchLayout layout)) := by
  rw [step, if_pos hquiet]
  simp only [isQuiet, Bool.and_eq_true, List.isEmpty_iff] at hquiet
  obtain ⟨⟨⟨⟨⟨hforth, hback⟩, hfirst⟩, hsecond⟩, -⟩, -⟩ := hquiet
  refine ⟨fun _ => rfl, h.valid, fun s hs => (h.sends s hs).congr rfl rfl, ?_⟩
  intro s
  cases s with
  | first => exact (h.flow .first).quiet hforth hsecond layout
  | second => exact (h.flow .second).quiet hback hfirst layout

theorem Inv.step (h : Inv gens p) (hnonzero : ∀ s g, gens s g → g ≠ 0)
    (hapart : ∀ g, gens .first g → ¬ gens .second g)
    (hgen : ∀ s, gens s (p.party s).link.generation) (e : Event) :
    Follows gens p e (p.step e) := by
  cases e with
  | act s op => exact h.act hnonzero hapart hgen s op
  | switchLayout layout =>
    by_cases hquiet : p.isQuiet = true
    · refine ⟨h.switchLayout layout hquiet, fun t => .inl ?_⟩
      rw [Pair.step, if_pos hquiet]
      rfl
    · rw [Pair.step, if_neg hquiet]
      exact h.follows _
  | pass d =>
    rw [Pair.step]
    split
    · exact ⟨⟨h.layout, h.valid, h.sends, h.flow⟩, fun t => .inl rfl⟩
    · exact h.follows _

/-! ## runs -/

/-- the generations that are still to come are among those that were to come before the event -/
theorem Advances.range {e : Event} {es : List Event} {g g' : Side → UInt64}
    (h : ∀ s, Advances e s (g s) (g' s))
    (hgens : ∀ s i, i ≤ advances s (e :: es) → gens s (g s + UInt64.ofNat i)) (s : Side) (i : Nat)
    (hi : i ≤ advances s es) : gens s (g' s + UInt64.ofNat i) := by
  rcases h s with hg | ⟨rfl, hg⟩
  · rw [hg]
    refine hgens s i (Nat.le_trans hi ?_)
    rw [advances, advances, List.countP_cons]
    omega
  · rw [hg, advanced_add]
    apply hgens s (i + 1)
    rw [advances, List.countP_cons, if_pos (by simp)]
    exact Nat.succ_le_succ hi

theorem Advances.now {es : List Event} {g : Side → UInt64}
    (hgens : ∀ s i, i ≤ advances s es → gens s (g s + UInt64.ofNat i)) (s : Side) :
    gens s (g s) := by
  have h0 := hgens s 0 (Nat.zero_le _)
  rw [show UInt64.ofNat 0 = 0 from rfl, UInt64.add_zero] at h0
  exact h0

/-- a side that advances is not at the last generation, if all of its advances find another one -/
theorem Advances.ne_last {e : Event} {es : List Event} {g : Side → UInt64}
    (hlast : ∀ s, (g s).toNat + advances s (e :: es) ≤ Link.lastGeneration.toNat) (s : Side)
    (he : e = .act s .advanceGeneration) : g s ≠ Link.lastGeneration := by
  subst he
  intro heq
  have hle := hlast s
  rw [advances, List.countP_cons, if_pos (by simp), heq] at hle
  omega

theorem Advances.last {e : Event} {es : List Event} {g g' : Side → UInt64}
    (h : ∀ s, Advances e s (g s) (g' s))
    (hlast : ∀ s, (g s).toNat + advances s (e :: es) ≤ Link.lastGeneration.toNat) (s : Side) :
    (g' s).toNat + advances s es ≤ Link.lastGeneration.toNat := by
  have hle := hlast s
  rw [advances, List.countP_cons] at hle
  rcases h s with hg | ⟨rfl, hg⟩
  · rw [hg, advances]
    omega
  · rw [if_pos (by simp)] at hle
    have hnext : (g s + 1).toNat ≤ (g s).toNat + 1 := by
      rw [UInt64.toNat_add]
      exact Nat.mod_le _ _
    rw [hg, advances]
    omega

theorem Inv.run (hnonzero : ∀ s g, gens s g → g ≠ 0)
    (hapart : ∀ g, gens .first g → ¬ gens .second g) (es : List Event) (h : Inv gens p)
    (hgens : ∀ s i, i ≤ advances s es →
      gens s ((p.party s).link.generation + UInt64.ofNat i)) : Inv gens (p.run es) := by
  induction es generalizing p with
  | nil => exact h
  | cons e es ih =>
    have hstep := h.step hnonzero hapart (Advances.now hgens) e
    exact ih hstep.inv (Advances.range hstep.generation hgens)

theorem inv_opened (gens : Side → UInt64 → Prop) (now : Moment) (id : Side → Nat)
    {settings : Side → Settings} (generation : Side → UInt64) (hvalid : ∀ s, (settings s).Valid)
    (hlayout : (settings .first).layout = (settings .second).layout) :
    Inv gens (opened now id settings generation) := by
  refine ⟨?_, hvalid, fun s _ => ⟨?_, ?_⟩,
    fun s => .of_hears ⟨[], [], [], .empty _ _ _ _, ?_, .inr (.empty _)⟩⟩
  · intro s
    cases s with
    | first => exact hlayout.symm
    | second => exact hlayout
  · intro k fs hk
    cases hk
  · show (1 : UInt64) ≠ 0
    decide
  · cases s <;> rfl

/-- In both directions, the bundles received are the first ones of the buffers accepted. -/
theorem delivered_isPrefix_accepted (now : Moment) (id : Side → Nat) (settings : Side → Settings)
    (generation : Side → UInt64) (es : List Event) (hvalid : ∀ s, (settings s).Valid)
    (hlayout : (settings .first).layout = (settings .second).layout)
    (hapart : Apart generation fun s => advances s es) (s : Side) :
    (((opened now id settings generation).run es).party s.opposite).delivered <+:
      (((opened now id settings generation).run es).party s).accepted := by
  have hstart := inv_opened (fun s => Reached (generation s) (advances s es)) now id generation
    hvalid hlayout
  have hrun := hstart.run hapart.ne_zero hapart.disjoint es fun s i hi => ⟨i, hi, rfl⟩
  exact (hrun.flow s).isPrefix

/-- both sides write, the first one in two generations until it closes -/
def restarted : List Event :=
  [.act .first (.write [104, 105] true), .act .second (.writeText "ok" true),
    .act .second .receive, .act .first .advanceGeneration, .pass (.ofSeconds 30),
    .act .first (.writeText "again" false), .act .first .receive, .act .second .read,
    .act .second .receive, .act .first .close, .act .second .receive, .act .second .readText]

theorem delivered_isPrefix_accepted_restarted :
    (∀ _ : Side, Settings.Valid {}) ∧
    ((fun _ => {} : Side → Settings) .first).layout =
      ((fun _ => {} : Side → Settings) .second).layout ∧
    Apart spaced (fun s => advances s restarted) ∧
    (((opened .start (fun _ => 7) (fun _ => {}) spaced).run restarted).party
      Side.first.opposite).delivered = [[104, 105], Utf8.encode "again"] ∧
    (((opened .start (fun _ => 7) (fun _ => {}) spaced).run restarted).party
      Side.first.opposite).delivered <+:
      (((opened .start (fun _ => 7) (fun _ => {}) spaced).run restarted).party
        .first).accepted := by
  have hvalid (_ : Side) : Settings.Valid {} := Settings.valid_default
  have hapart : Apart spaced fun s => advances s restarted :=
    .of_lt (by decide) (by decide) (by decide)
  have hprefix := delivered_isPrefix_accepted .start (fun _ => 7) (fun _ => {}) spaced restarted
    hvalid rfl hapart .first
  exact ⟨hvalid, rfl, hapart, by decide +kernel, hprefix⟩

end Pair

end BundleLink
