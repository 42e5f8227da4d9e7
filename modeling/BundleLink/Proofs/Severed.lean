import BundleLink.Proofs.Keeping

/-!
# Receiving when nothing can be written any more

A bundle becomes ready only after its ack was written. So on a medium that takes no more bytes
fragments may still be handled, whatever they are, but none of them makes a bundle ready.

* `lasting_idle`       so it is while fragments are handled on a closed medium;
* `Attached.Severed`   the link is closed, or its medium is;
* `receive_severed`    a receive is fruitless then, and the link stays severed;
* `receive_shrinks`    a receive that succeeds nevertheless handles at least one fragment.
-/

namespace BundleLink.Attached

variable {σ : Type} [Channel σ] [Medium σ] {a b c : Attached σ}

/-- where no ack can be written, no fragment makes a bundle ready -/
theorem lasting_idle (hclosed : Medium.isOpen a.channel = false) : Lasting (Idle a) := by
  have hanswer {b : Attached σ} (h : Idle a b) (f : Fragment) :
      ∃ e, answer f b = .error (.error (.io e)) b :=
    answer_closed (by rw [h.channel]; exact hclosed) f
  refine ⟨fun h h' => h.trans h', fun h f => ?_, fun h k hok => ?_⟩
  · obtain ⟨e, he⟩ := hanswer h f
    rw [he]
    exact h
  · obtain ⟨e, he⟩ := hanswer h (.ack k)
    rw [he] at hok
    cases hok

/-! ## receives -/

/-- no bytes can be written any more -/
def Severed (a : Attached σ) : Prop :=
  a.link.connected = false ∨ Medium.isOpen a.channel = false

/-- On the way from `a` to `b` nothing was made ready, and the medium is the same one. -/
structure Fruitless (a b : Attached σ) : Prop where
  ready : b.link.ready = a.link.ready
  description : Medium.description b.channel = Medium.description a.channel

theorem receiveBundles_severed (hclosed : Medium.isOpen a.channel = false) (now : Moment) :
    Fruitless a (receiveBundles now a).after ∧
      Medium.isOpen (receiveBundles now a).after.channel = false := by
  have hmoved := moved_filled a
  have hfilled : Medium.isOpen a.filled.channel = false := hmoved.isOpen.trans hclosed
  cases hended : a.intake.ended with
  | error e =>
    rw [receiveBundles_failed hended]
    exact ⟨⟨hmoved.ready, hmoved.description⟩, hfilled⟩
  | ok ended =>
    have hidle := (lasting_idle (a := a.loaded) hfilled).handleAll (.refl _) now a.pieces 0
    rw [receiveBundles, fillRaw_ok hended]
    have htake : takeApart now a.filled = Attached.handleAll now 0 a.pieces a.loaded := rfl
    dsimp only
    rw [htake]
    generalize Attached.handleAll now 0 a.pieces a.loaded = r at hidle
    cases r with
    | error e b =>
      have hchannel : b.channel = a.filled.channel := hidle.channel
      show Fruitless a b ∧ Medium.isOpen b.channel = false
      rw [hchannel]
      refine ⟨⟨hidle.ready, ?_⟩, hfilled⟩
      rw [hchannel]
      exact hmoved.description
    | ok count b =>
      have hpurged := conclude_purged now ended count b
      have hchannel : (conclude now ended count b).after.channel = a.filled.channel :=
        hpurged.channel.trans hidle.channel
      dsimp only
      rw [hchannel]
      refine ⟨⟨hpurged.ready.trans hidle.ready, ?_⟩, hfilled⟩
      rw [hchannel]
      exact hmoved.description

/-- A receive makes nothing ready when nothing can be written. -/
theorem receive_severed (h : Severed a) (now : Moment) :
    Fruitless a (a.receive now).after ∧ Severed (a.receive now).after := by
  cases hopen : a.link.connected with
  | false =>
    rw [receive_of_closed hopen]
    exact ⟨⟨rfl, rfl⟩, .inl hopen⟩
  | true =>
    have hclosed : Medium.isOpen a.channel = false := by
      rcases h with hnot | hclosed
      · rw [hopen] at hnot
        cases hnot
      · exact hclosed
    obtain ⟨hfruitless, hstill⟩ := receiveBundles_severed hclosed now
    rw [receive, if_pos hopen]
    generalize receiveBundles now a = r at hfruitless hstill
    rcases r with b | ⟨e | e, b⟩
    · exact ⟨hfruitless, .inr hstill⟩
    · rw [settle]
      split
      · have hshut := shut_close (b.warn (.closing b.link.id b.link.description e))
        exact ⟨⟨hshut.ready.trans hfruitless.ready,
          hshut.description.trans hfruitless.description⟩, .inl hshut.closed⟩
      · exact ⟨hfruitless, .inr hstill⟩
    · exact ⟨hfruitless, .inr hstill⟩

/-- raw bytes at their limit hold at least one fragment, if there are any -/
theorem handled_of_full {layout : Layout} {done rest : List Fragment} {c : Attached σ}
    (hstream : a.stream = Fragment.wires layout (done ++ rest))
    (hpos : 0 < a.link.settings.rawLimit)
    (hroom : ∀ f ∈ rest, f.wireLength layout ≤ a.link.settings.rawLimit)
    (hfull : a.link.settings.rawLimit ≤ a.filled.link.raw.length) (hloaded : Loaded layout a rest c)
    (hraw : a.filled.link.raw = Fragment.wires layout done ++ c.link.raw) : done ≠ [] := by
  rintro rfl
  cases rest with
  | nil =>
    have hnil : a.filled.stream = [] := (stream_filled a).trans hstream
    rw [(List.append_eq_nil_iff.mp hnil).1, List.length_nil] at hfull
    omega
  | cons f fs =>
    have hshort := hloaded.short f rfl
    have hlimit := hroom f List.mem_cons_self
    rw [hraw, Fragment.wires_nil, List.nil_append] at hfull
    omega

/-- Where the reads go on until the raw bytes reach their limit or the stream ends, and every
fragment fits into the raw bytes, a receive that succeeds has handled at least one fragment. -/
theorem receive_shrinks {layout : Layout} {todo : List Fragment} {now : Moment}
    (hclosed : Medium.isOpen a.channel = false) (hlayout : a.link.layout = layout)
    (hstream : a.stream = Fragment.wires layout todo) (hfits : ∀ f ∈ todo, f.Fits layout)
    (hpos : 0 < a.link.settings.rawLimit)
    (hroom : ∀ f ∈ todo, f.wireLength layout ≤ a.link.settings.rawLimit)
    (hfull : a.intake.ended = .ok false → a.link.settings.rawLimit ≤ a.filled.link.raw.length)
    (hb : a.receive now = .ok () b) :
    ∃ done rest, todo = done ++ rest ∧ done ≠ [] ∧ b.stream = Fragment.wires layout rest ∧
      b.link.terms = a.link.terms ∧ b.channel = a.intake.channel := by
  have hbundles := receive_eq_ok hb
  cases hended : a.intake.ended with
  | error e =>
    rw [receiveBundles_failed hended] at hbundles
    cases hbundles
  | ok ended =>
    obtain ⟨done, rest, rfl, -, hloaded, hraw, heq⟩ :=
      receiveBundles_loaded hlayout hfits hstream hended now
    have hidle := (lasting_idle (hloaded.isOpen.trans hclosed)).handleAll (.refl _) now
      (done.map (Wire.whole layout)) 0
    rw [hbundles] at heq
    generalize Attached.handleAll now 0 (done.map (Wire.whole layout)) a.loaded = r at hidle heq
    cases r with
    | error e c => cases heq
    | ok count c =>
      have hidle' : Idle a.loaded c := hidle
      have heq' : conclude now ended count c = .ok () b := heq.symm
      have hmeets := conclude_meets now ended count c
      rw [heq'] at hmeets
      obtain ⟨hpurged, rfl⟩ := hmeets
      have hdone : done ≠ [] := handled_of_full hstream hpos
        (fun f hf => hroom f (List.mem_append_right done hf)) (hfull hended) hloaded hraw
      refine ⟨done, rest, rfl, hdone, ?_,
        hpurged.terms.trans (hidle'.terms.trans hloaded.terms), ?_⟩
      · rw [stream, hpurged.raw, hpurged.channel, hidle'.raw, hidle'.channel]
        exact hloaded.stream
      · rw [hpurged.channel, hidle'.channel]
        rfl

end BundleLink.Attached
