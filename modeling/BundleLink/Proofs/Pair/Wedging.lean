import BundleLink.Proofs.Pair.Closing
import BundleLink.Proofs.Pair.Room
import BundleLink.Proofs.Pair.Settling

/-!
# Fragments that do not fit into the raw bytes

Settings only pass their check if the raw bytes have room for a complete fragment. But the layout
and the fragment size can change afterwards, and then nothing is checked again. A fragment that is
too long fills the raw bytes without ever being complete, and the link is WEDGED: no receive reads
or takes apart anything any more. As long as there is room for the fragments of the new form,
however, no link is ever wedged, and everything is delivered in the end.

* `Link.Wedged`             a link like that, and `delivered_receives_wedged` that it stays so;
* `Pair.switched`           two links that were just opened, in a new form;
* `Steady.delivers`         while time stands still, receives of one side suffice;
* `Pair.delivered_of_room`  the result.
-/

namespace BundleLink

open Link (Calm)

/-! ## wedged links -/

/-- The raw bytes have reached their limit, but are no more than the start of a fragment. -/
def Link.Wedged (l : Link) : Prop :=
  l.settings.rawLimit ≤ l.raw.length ∧ Wire.extract l.layout l.raw = .incomplete

instance (l : Link) : Decidable l.Wedged := inferInstanceAs (Decidable (_ ∧ _))

theorem Wire.scan_of_incomplete {layout : Layout} {raw : Bytes}
    (h : extract layout raw = .incomplete) : scan layout raw = ([], raw) := by
  rw [scan, scanFrom]
  split
  · rfl
  · split
    · rfl
    · rename_i hf
      rw [h] at hf
      cases hf
    · rename_i hm
      rw [h] at hm
      cases hm

namespace Attached

variable {σ : Type} [Channel σ] [Medium σ] {a b : Attached σ}

omit [Medium σ] in
theorem idle_loaded_wedged (h : a.link.Wedged) :
    Idle a a.loaded ∧ a.intake.ended = .ok false ∧ a.pieces = [] := by
  have hintake := intake_of_full h.1
  have hraw := filled_raw_of_full h.1
  have hscan : Wire.scan a.filled.link.layout a.filled.link.raw = ([], a.link.raw) := by
    rw [hraw]
    exact Wire.scan_of_incomplete h.2
  refine ⟨⟨rfl, ?_, ?_, rfl⟩, ?_, ?_⟩
  · show (Wire.scan _ _).2 = _
    rw [hscan]
  · show a.intake.channel = _
    rw [hintake]
  · rw [hintake]
  · rw [pieces, hscan]

/-- A receive of a wedged link neither reads nor takes apart anything, and leaves it wedged unless
it closes the link. -/
theorem receive_wedged (hopen : a.link.connected = true) (h : a.link.Wedged) (now : Moment) :
    (a.receive now).Meets (fun _ b => Idle a b)
      (fun e b => b.link.ready = a.link.ready ∧
        ((∃ f, e = .fault f) ∨ b.link.connected = false)) := by
  obtain ⟨hidle, hended, hpieces⟩ := idle_loaded_wedged h
  have hbundles : receiveBundles now a = conclude now false 0 a.loaded :=
    receiveBundles_handled hended (by rw [hpieces, handleAll])
  rw [receive, if_pos hopen, hbundles]
  refine (settle_meets (conclude_meets now false 0 a.loaded) fun e b hb => hb.2).imp
    (fun _ b hb => ?_) fun e c hc => ?_
  · exact hidle.trans ⟨hb.1.terms, hb.1.raw, hb.1.channel, hb.1.ready⟩
  · obtain ⟨b, ⟨hpurged, -⟩, hend⟩ := hc
    have hready : b.link.ready = a.link.ready := hpurged.ready.trans hidle.ready
    rcases hend with ⟨f, rfl, rfl⟩ | ⟨-, hshut⟩
    · exact ⟨hready, .inl ⟨f, rfl⟩⟩
    · exact ⟨hshut.ready.trans hready, .inr hshut.closed⟩

end Attached

theorem Link.Wedged.idle {σ : Type} {a b : Attached σ} (h : a.link.Wedged)
    (hidle : Attached.Idle a b) : b.link.Wedged := by
  rw [Link.Wedged, Link.settings_of_terms hidle.terms, Link.layout_of_terms hidle.terms, hidle.raw]
  exact h

namespace Pair

variable {p : Pair} {s : Side}

theorem act_wedged (h : (p.party s).Active → (p.party s).link.Wedged) :
    ((p.act s .receive).party s).delivered = (p.party s).delivered ∧
      (((p.act s .receive).party s).Active → ((p.act s .receive).party s).link.Wedged) := by
  cases hhalted : (p.party s).halted with
  | true =>
    rw [act_of_halted hhalted]
    exact ⟨rfl, h⟩
  | false =>
    rw [act_receive hhalted]
    cases hopen : (p.party s).link.connected with
    | false =>
      rw [Attached.receive_of_closed (a := p.attached s) hopen]
      refine ⟨delivered_settle rfl, fun hx => ?_⟩
      rw [Party.Active, link_settle] at hx
      exact absurd (hopen.symm.trans hx.1) Bool.false_ne_true
    | true =>
      have hwedged := h ⟨hopen, hhalted⟩
      have hreceive := Attached.receive_wedged (a := p.attached s) hopen hwedged p.now
      generalize (p.attached s).receive p.now = r at hreceive
      rcases r with ⟨_, b⟩ | ⟨e, b⟩
      · have hidle : Attached.Idle (p.attached s) b := hreceive
        refine ⟨delivered_settle hidle.ready, fun _ => ?_⟩
        rw [link_settle]
        exact Link.Wedged.idle (a := p.attached s) hwedged hidle
      · obtain ⟨hready, hend⟩ := hreceive
        refine ⟨delivered_settle hready, fun hx => ?_⟩
        rcases hend with ⟨f, rfl⟩ | hclosed
        · rw [settle, party_put] at hx
          cases hx.2
        · rw [Party.Active, link_settle] at hx
          exact absurd (hclosed.symm.trans hx.1) Bool.false_ne_true

/-- However often a wedged link receives, nothing more is delivered. -/
theorem delivered_receives_wedged (h : (p.party s).Active → (p.party s).link.Wedged) (n : Nat) :
    ((p.receives s n).party s).delivered = (p.party s).delivered := by
  induction n generalizing p with
  | zero => rfl
  | succ n ih =>
    obtain ⟨hdelivered, hwedged⟩ := act_wedged h
    rw [receives_succ, ih hwedged, hdelivered]

/-! ## receives of one side -/

variable {gens : Side → UInt64 → Prop} {layout : Layout} {now : Moment} {start : Side → Link}
  {p' : Pair} {t t' : Side → Trail}

theorem Steady.not_fails (hcalm : ∀ s n, Calm (start s) now n)
    (h : Steady gens layout now start p t) (s : Side) (n : Nat) : ¬ (p.receives s n).Fails s := by
  induction n generalizing p t with
  | zero =>
    obtain ⟨t', hhandles⟩ := h.receive hcalm s
    obtain ⟨a, ha⟩ := hhandles.succeeds
    rintro (hhalted | ⟨e, b, he⟩)
    · exact absurd ((h.party s).active.2.symm.trans hhalted) Bool.false_ne_true
    · exact nomatch ha.symm.trans he
  | succ n ih =>
    obtain ⟨t', hhandles⟩ := h.receive hcalm s
    exact ih hhandles.steady

/-- While time stands still, a side gets all bundles that its peer has written by receiving often
enough, whether or not the peer receives. -/
theorem Steady.delivers (hcalm : ∀ s n, Calm (start s) now n)
    (h : Steady gens layout now start p t) (s : Side) :
    ∃ n, ((p.receives s n).party s).delivered = (p.party s.opposite).accepted := by
  induction hlen : (t s).todo.length using Nat.strongRecOn generalizing p t with
  | ind len ih =>
    by_cases hnone : (t s).todo = []
    · have hpassage := (h.lane s).passage
      rw [hnone] at hpassage
      exact ⟨0, hpassage.all_delivered⟩
    · obtain ⟨t', hhandles⟩ := h.receive hcalm s
      obtain ⟨n, hn⟩ := ih _ (hlen ▸ hhandles.fewer hnone) hhandles.steady rfl
      rw [hhandles.opposite] at hn
      exact ⟨n + 1, hn⟩

/-! ## links in a new form -/

/-- two links that were just opened, after both have changed their layout and fragment size -/
def switched (now : Moment) (id : Side → Nat) (settings : Side → Settings)
    (generation : Side → UInt64) (layout : Layout) (size : Nat) : Pair :=
  (opened now id settings generation).run
    [.switchLayout layout, .act .first (.setFragmentSize size),
      .act .second (.setFragmentSize size)]

/-- settings that leave room for a header and ten bytes, but no more -/
def narrow : Settings := { fragmentSize := 10, readChunk := 36, rawLimit := 36 }

/-- with fragments of up to 1000 bytes, a bundle of 33 bytes is on its way to the second side -/
def cramped : Pair :=
  (switched .start (fun _ => 7) (fun _ => narrow) spaced .plain 1000).run
    [.act .first (.write (List.replicate 33 120) true), .act .second .receive,
      .act .second .receive]

/-- The settings are valid, and so is the new fragment size, but the bundle never arrives. -/
theorem delivered_cramped :
    narrow.Valid ∧ Bundle.validSize 1000 = true ∧
      (cramped.party .first).accepted = [List.replicate 33 120] ∧
      (cramped.party .second).link.Wedged ∧
      ∀ n, ((cramped.receives .second n).party .second).delivered = [] := by
  have hwedged : (cramped.party .second).link.Wedged := by decide +kernel
  have hnothing : (cramped.party .second).delivered = [] := by decide +kernel
  refine ⟨by decide, by decide, by decide +kernel, hwedged, fun n => ?_⟩
  rw [delivered_receives_wedged (fun _ => hwedged), hnothing]

section
variable (now : Moment) (id : Side → Nat) (settings : Side → Settings) (generation : Side → UInt64)
  (layout : Layout) {size : Nat} (hsize : Bundle.validSize size = true)
include hsize

theorem party_switched (s : Side) :
    (switched now id settings generation layout size).party s =
      { link :=
          { ((opened now id settings generation).party s).link with
            layout := layout
            fragmentSize := size }
        halted := false
        taken := []
        accepted := [] } := by
  have hset (l : Link) : (l.setFragmentSize size).2 = { l with fragmentSize := size } := by
    rw [Link.setFragmentSize, if_pos hsize]
  have hquiet : (opened now id settings generation).isQuiet = true := rfl
  rw [switched, run, List.foldl_cons, step, if_pos hquiet]
  cases s with
  | first => exact congrArg (fun l => (⟨l, false, [], []⟩ : Party)) (hset _)
  | second => exact congrArg (fun l => (⟨l, false, [], []⟩ : Party)) (hset _)

theorem roomy_switched (hvalid : ∀ s, (settings s).Valid) :
    Roomy layout size settings (switched now id settings generation layout size) := by
  intro s _
  rw [attached, party_switched now id settings generation layout hsize]
  refine ⟨rfl, rfl, rfl, ?_, [], .nil _ _, ?_⟩
  · have hchunk := (hvalid s).readChunk_pos
    have hlimit := ((Settings.valid_iff _).mp (hvalid s)).2.2.1
    exact Nat.lt_of_lt_of_le hchunk hlimit
  · cases s <;> rfl

/-- all generations are allowed on both sides, for their bundles need not be in balance here -/
theorem steady_switched (hvalid : ∀ s, (settings s).Valid)
    (hroom : ∀ s, size + layout.headerLength ≤ (settings s).rawLimit) :
    Steady (fun _ _ => True) layout now
      (fun s => ((opened now id settings generation).party s).link)
      (switched now id settings generation layout size) fun _ => ⟨[], [], []⟩ :=
  steady_fresh _ rfl rfl (party_switched now id settings generation layout hsize) hvalid
    fun s => Nat.le_of_add_left_le (hroom s)

end

/-- Two links change their layout and the size of their fragments before they write anything. If
both still have room for the largest fragment, then neither of them is ever wedged, and while time
stands still, receives of one side suffice to deliver all that its peer has written. A side must
not run out of generations or message numbers, which would be a fault. -/
theorem delivered_of_room (now : Moment) (id : Side → Nat) (settings : Side → Settings)
    (generation : Side → UInt64) (layout : Layout) (size : Nat) (es : List Event)
    (hvalid : ∀ s, (settings s).Valid) (hsize : Bundle.validSize size = true)
    (hroom : ∀ s, size + layout.headerLength ≤ (settings s).rawLimit)
    (hes : ∀ e ∈ es, e.keepsForm = true)
    (hp : p = (switched now id settings generation layout size).run es) :
    (∀ s, (p.party s).Active → ¬ (p.party s).link.Wedged) ∧
      ((∀ s n, Calm ((opened now id settings generation).party s).link now n) →
        (∀ e ∈ es, e.isSteady = true) →
        (∀ s, (generation s).toNat + advances s es ≤ Link.lastGeneration.toNat) →
        (∀ s, writes s es < Link.lastMessage.toNat) →
        ∀ s, (∀ n, ¬ (p.receives s n).Fails s) ∧
          ∃ n, ((p.receives s n).party s).delivered = (p.party s.opposite).accepted) := by
  have hstart := roomy_switched now id settings generation layout hsize hvalid
  obtain ⟨hroomy, hemissions⟩ := hstart.run hroom es hes
  rw [← hp] at hroomy
  constructor
  · rintro s hactive ⟨hfull, -⟩
    have hadmits := hroomy s hactive
    have hlt := hadmits.raw
    rw [← hadmits.sameSettings] at hlt
    exact absurd hlt (Nat.not_lt.mpr hfull)
  · intro hcalm hsteady hlast hnumber
    have hgeneration (s : Side) :
        ((switched now id settings generation layout size).party s).link.generation.toNat +
          advances s es ≤ Link.lastGeneration.toNat := by
      rw [party_switched now id settings generation layout hsize]
      exact hlast s
    have hfresh := steady_switched now id settings generation layout hsize hvalid hroom
    have hcount (s : Side) :
        ((switched now id settings generation layout size).party s).link.nextMessage.toNat +
          writes s es ≤ Link.lastMessage.toNat := by
      refine number_le ?_ (hnumber s)
      rw [party_switched now id settings generation layout hsize]
      rfl
    obtain ⟨t, hend⟩ := hfresh.run hcalm es hsteady
      (fun hgens => absurd trivial (hgens .first 0 trivial)) (fun _ _ _ _ => trivial) hgeneration
      hcount hemissions
    rw [← hp] at hend
    exact fun s => ⟨hend.not_fails hcalm s, hend.delivers hcalm s⟩

/-- both sides write, in fragments that just fit -/
def snug : List Event :=
  [.act .first (.write [104, 105, 33] true), .act .second (.writeText "ok" false),
    .act .second .receive, .act .second .advanceGeneration, .act .second (.write [97] true),
    .act .first .receive, .act .first .read]

/-- the two sides after that, with three bytes on their way to the second one -/
def fitted : Pair :=
  (switched .start (fun _ => 7) (fun _ => narrow) spaced .checksummed 2).run snug

theorem delivered_of_room_fitted :
    (∀ _ : Side, narrow.Valid) ∧ Bundle.validSize 2 = true ∧
      (∀ _ : Side, 2 + Layout.checksummed.headerLength ≤ narrow.rawLimit) ∧
      (∀ e ∈ snug, e.keepsForm = true) ∧
      (∀ s n, Calm ((opened .start (fun _ => 7) (fun _ => narrow) spaced).party s).link .start n) ∧
      (∀ e ∈ snug, e.isSteady = true) ∧
      (∀ s, (spaced s).toNat + advances s snug ≤ Link.lastGeneration.toNat) ∧
      (∀ s, writes s snug < Link.lastMessage.toNat) ∧
      (fitted.party Side.second.opposite).accepted = [[104, 105, 33]] ∧
      (fitted.party .second).delivered = [] ∧
      (∀ s, (fitted.party s).Active → ¬ (fitted.party s).link.Wedged) ∧
      ∀ s, (∀ n, ¬ (fitted.receives s n).Fails s) ∧
        ∃ n, ((fitted.receives s n).party s).delivered = (fitted.party s.opposite).accepted := by
  have hvalid (_ : Side) : narrow.Valid := by decide
  have hroom (_ : Side) : 2 + Layout.checksummed.headerLength ≤ narrow.rawLimit := by decide
  have hform : ∀ e ∈ snug, e.keepsForm = true := by decide
  have hcalm (s : Side) (n : Nat) :
      Calm ((opened .start (fun _ => 7) (fun _ => narrow) spaced).party s).link .start n := by
    apply Link.calm_of_period 5 5 (by decide)
    · cases s <;> decide +kernel
    · cases s <;> decide +kernel
  have hsteady : ∀ e ∈ snug, e.isSteady = true := by decide
  have hlast (s : Side) : (spaced s).toNat + advances s snug ≤ Link.lastGeneration.toNat := by
    cases s <;> decide
  have hnumber (s : Side) : writes s snug < Link.lastMessage.toNat := by cases s <;> decide
  obtain ⟨hunwedged, hdelivers⟩ := delivered_of_room .start (fun _ => 7) (fun _ => narrow) spaced
    .checksummed 2 snug hvalid (by decide) hroom hform (p := fitted) rfl
  exact ⟨hvalid, by decide, hroom, hform, hcalm, hsteady, hlast, hnumber, by decide +kernel,
    by decide +kernel, hunwedged, hdelivers hcalm hsteady hlast hnumber⟩

end Pair

end BundleLink
