import BundleLink.Proofs.Serving

/-!
# Receiving the pending messages in order

One receive takes the next fragments of the pending messages, however many there are, and leaves
the others for later ones. A fragment that does not fit into the raw bytes stops the link for good:
it is never taken apart, and the bundle under assembly may be dropped meanwhile.

* `Link.Hears`          what an open link has received, and has still to receive, of its peer;
* `Attached.Answered`   what a receive does to the other direction;
* `receive_hears`       a receive keeps an open link going, or ends it with nothing out of order.
-/

set_option linter.unusedSectionVars false

namespace BundleLink

theorem Settings.Valid.readChunk_pos {settings : Settings} (h : settings.Valid) :
    0 < settings.readChunk := by
  have hpos := Wire.headerLength_pos settings.layout
  have hfits := ((Settings.valid_iff settings).mp h).2.1
  omega

/-- the raw bytes have reached their limit, but do not hold the next fragment -/
def Link.Stuck (layout : Layout) (l : Link) (todo : List Fragment) : Prop :=
  l.settings.rawLimit ≤ l.raw.length ∧
    ∃ f, todo.head? = some f ∧ l.raw.length < f.wireLength layout

/-- Of the messages of a peer with the generations `peers`, which has given out the message numbers
below `n` and accepted the buffers `accepted`, the raw bytes and then `bytes` hold the fragments
that are still to be handled; `taken` are the buffers that were read by the application. -/
def Link.Hears (peers : UInt64 → Prop) (layout : Layout) (n : UInt64)
    (accepted taken : List Bytes) (l : Link) (bytes : Bytes) : Prop :=
  ∃ pending seen todo, Course peers layout n accepted (taken ++ l.ready) pending seen todo ∧
    l.raw ++ bytes = Fragment.wires layout todo ∧
      (l.Stuck layout todo ∨ Assembled n l.inbound pending seen)

namespace Attached

variable {σ : Type} [Channel σ] [Medium σ] {own peers : UInt64 → Prop} {layout : Layout}
  {n : UInt64} {accepted taken : List Bytes} {a b c : Attached σ} {now : Moment}

/-- From `a` to `b` only acks were written, and the message numbers are as before. -/
structure Answered (own : UInt64 → Prop) (layout : Layout) (a b : Attached σ) : Prop where
  sameLayout : b.link.layout = a.link.layout
  sameNext : b.link.nextMessage = a.link.nextMessage
  sameSettings : b.link.settings = a.link.settings
  sameGeneration : b.link.generation = a.link.generation
  description : Medium.description b.channel = Medium.description a.channel
  outgoing : ∃ sent, Replies own a.link.nextMessage sent ∧
    Medium.outgoing b.channel = Medium.outgoing a.channel ++
      (sent.flatMap Message.fragments).map (Fragment.wire layout)

theorem Moved.replied (h : Moved a b) (h' : Replied own layout b c) :
    Answered own layout a c := by
  have hterms := h'.terms.trans h.terms
  obtain ⟨sent, hsent, hout⟩ := h'.outgoing
  refine ⟨Link.layout_of_terms hterms, Link.nextMessage_of_terms hterms,
    Link.settings_of_terms hterms, Link.generation_of_terms hterms,
    h'.description.trans h.description, sent, ?_, ?_⟩
  · rw [← Link.nextMessage_of_terms h.terms]
    exact hsent
  · rw [hout, h.outgoing]

theorem Moved.answered (h : Moved a b) : Answered own layout a b := h.replied (.refl own layout b)

theorem Answered.purged (h : Answered own layout a b) (h' : Purged now b c) :
    Answered own layout a c := by
  refine ⟨(Link.layout_of_terms h'.terms).trans h.sameLayout,
    (Link.nextMessage_of_terms h'.terms).trans h.sameNext,
    (Link.settings_of_terms h'.terms).trans h.sameSettings,
    (Link.generation_of_terms h'.terms).trans h.sameGeneration, ?_, ?_⟩
  · rw [h'.channel]
    exact h.description
  · rw [h'.channel]
    exact h.outgoing

theorem Answered.shut (h : Answered own layout a b) (h' : Shut b c) : Answered own layout a c := by
  refine ⟨h'.layout.trans h.sameLayout, h'.nextMessage.trans h.sameNext,
    h'.settings.trans h.sameSettings, h'.generation.trans h.sameGeneration,
    h'.description.trans h.description, ?_⟩
  rw [h'.outgoing]
  exact h.outgoing

/-! ## one receive -/

/-- an open link after a receive that succeeded -/
structure Continued (own peers : UInt64 → Prop) (layout : Layout) (n : UInt64)
    (accepted taken : List Bytes) (a b : Attached σ) : Prop where
  answered : Answered own layout a b
  terms : b.link.terms = a.link.terms
  sends : b.link.Sends
  hears : b.link.Hears peers layout n accepted taken (Medium.incoming b.channel)

/-- a link after a receive that failed -/
structure Ended (own : UInt64 → Prop) (layout : Layout) (accepted taken : List Bytes)
    (a : Attached σ) (e : Failure LinkError) (b : Attached σ) : Prop where
  answered : Answered own layout a b
  isPrefix : taken ++ b.link.ready <+: accepted
  stopped : (∃ f, e = .fault f) ∨ b.link.connected = false

/-- what a failure leaves before the link is closed -/
structure Failed (own : UInt64 → Prop) (layout : Layout) (accepted taken : List Bytes)
    (a : Attached σ) (e : Failure LinkError) (b : Attached σ) : Prop where
  answered : Answered own layout a b
  isPrefix : taken ++ b.link.ready <+: accepted
  ends : e.Ends

theorem settle_failed {α : Type} {r : Outcome σ α} {P : α → Attached σ → Prop}
    (h : r.Meets P (Failed own layout accepted taken a)) :
    (settle r).Meets P (Ended own layout accepted taken a) := by
  apply (settle_meets h fun e b hb => hb.ends).imp (fun _ _ hP => hP)
  intro e c hc
  obtain ⟨b, hb, ⟨f, rfl, rfl⟩ | ⟨-, hshut⟩⟩ := hc
  · exact ⟨hb.answered, hb.isPrefix, .inl ⟨f, rfl⟩⟩
  · refine ⟨hb.answered.shut hshut, ?_, .inr hshut.closed⟩
    rw [hshut.ready]
    exact hb.isPrefix

theorem conclude_hears {pending : List Message} {seen todo : List Fragment}
    (hloaded : Loaded layout a todo b) (hreplied : Replied own layout b c) (hsends : c.link.Sends)
    (hc : Course peers layout n accepted (taken ++ c.link.ready) pending seen todo)
    (hwhat : c.link.Stuck layout todo ∨
      (Assembled n c.link.inbound pending seen ∧ Recent now c.link.inbound pending seen))
    (ended : Bool) (count : Nat) :
    (conclude now ended count c).Meets
      (fun _ d => Continued own peers layout n accepted taken a d)
      (Failed own layout accepted taken a) := by
  have hanswered : Answered own layout a c := hloaded.replied hreplied
  refine (conclude_meets now ended count c).imp ?_ ?_
  · intro _ d hd
    obtain ⟨hpurged, -⟩ := hd
    have hnext := Link.nextMessage_of_terms hpurged.terms
    refine ⟨hanswered.purged hpurged, ?_, hsends.congr hpurged.outbound hnext, pending, seen, todo,
      by rw [hpurged.ready]; exact hc, ?_, ?_⟩
    · exact hpurged.terms.trans (hreplied.terms.trans hloaded.terms)
    · rw [hpurged.channel, hpurged.raw, hreplied.incoming, hreplied.raw]
      exact hloaded.stream
    · rcases hwhat with ⟨hfull, hshort⟩ | ⟨hassembled, hrecent⟩
      · left
        rw [Link.Stuck, hpurged.raw, Link.settings_of_terms hpurged.terms]
        exact ⟨hfull, hshort⟩
      · exact .inr (hassembled.purge hc hrecent hpurged.inbound)
  · intro e d hd
    obtain ⟨hpurged, hends⟩ := hd
    refine ⟨hanswered.purged hpurged, ?_, hends⟩
    rw [hpurged.ready]
    exact hc.isPrefix

/-- where nothing was taken apart, there was nothing, or the link is stuck -/
theorem stuck_of_nothing (hprompt : Medium.Prompt σ) {todo : List Fragment} {ended : Bool}
    (hchunk : 0 < a.link.settings.readChunk) (hended : a.intake.ended = .ok ended)
    (hloaded : Loaded layout a todo b) (hraw : a.filled.link.raw = b.link.raw) :
    todo = [] ∨ b.link.Stuck layout todo := by
  cases todo with
  | nil => exact .inl rfl
  | cons f fs =>
    right
    have hshort := hloaded.short f rfl
    refine ⟨?_, f, rfl, hshort⟩
    rcases filled_full hprompt hchunk hended with hfull | hempty
    · rw [Link.settings_of_terms hloaded.terms, ← hraw]
      exact hfull
    · -- all bytes are there, so the next fragment is there completely
      have hlen := congrArg List.length hloaded.stream
      rw [Attached.stream, hloaded.incoming, hempty, List.append_nil, Fragment.wires_cons,
        List.length_append, Fragment.length_wire] at hlen
      omega

/-- where every fragment fits into the raw bytes, nothing is taken apart only if nothing is there -/
theorem nothing_left (hprompt : Medium.Prompt σ) {todo : List Fragment} {ended : Bool}
    (hchunk : 0 < a.link.settings.readChunk) (hended : a.intake.ended = .ok ended)
    (hloaded : Loaded layout a todo b) (hraw : a.filled.link.raw = b.link.raw)
    (hroom : ∀ f ∈ todo, f.wireLength layout ≤ a.link.settings.rawLimit) : todo = [] := by
  rcases stuck_of_nothing hprompt hchunk hended hloaded hraw with hnone | ⟨hfull, f, hf, hshort⟩
  · exact hnone
  · have hle := hroom f (List.mem_of_head? hf)
    rw [Link.settings_of_terms hloaded.terms] at hfull
    omega

theorem nothing_of_stuck {done todo : List Fragment} (hstuck : a.link.Stuck layout (done ++ todo))
    (hraw : a.filled.link.raw = Fragment.wires layout done ++ b.link.raw) : done = [] := by
  obtain ⟨hfull, f, hf, hshort⟩ := hstuck
  cases done with
  | nil => rfl
  | cons g fs =>
    have hgf : g = f := Option.some.inj hf
    have hlen := congrArg List.length hraw
    rw [filled_raw_of_full hfull, Fragment.wires_cons, List.length_append, List.length_append,
      Fragment.length_wire, hgf] at hlen
    omega

theorem receiveBundles_hears (hprompt : Medium.Prompt σ)
    (hchunk : 0 < a.link.settings.readChunk) (hlayout : a.link.layout = layout)
    (hapart : ∀ g, peers g → ¬ own g) (hsends : a.link.Sends)
    (h : a.link.Hears peers layout n accepted taken (Medium.incoming a.channel))
    (now : Moment) :
    (receiveBundles now a).Meets
      (fun _ b => Continued own peers layout n accepted taken a b)
      (Failed own layout accepted taken a) := by
  obtain ⟨pending, seen, fs, hc, hstream, hcase⟩ := h
  cases hended : a.intake.ended with
  | error e =>
    rw [receiveBundles_failed hended]
    exact ⟨(moved_filled a).answered, hc.isPrefix, rfl⟩
  | ok ended =>
    obtain ⟨done, todo, rfl, -, hloaded, hraw, heq⟩ :=
      receiveBundles_loaded hlayout hc.fits hstream hended now
    generalize a.loaded = b at hloaded hraw heq
    have hsends' : b.link.Sends :=
      hsends.congr hloaded.outbound (Link.nextMessage_of_terms hloaded.terms)
    have hready : Course peers layout n accepted (taken ++ b.link.ready) pending seen
        (done ++ todo) := by
      rw [hloaded.ready]
      exact hc
    rw [heq]
    rcases hcase with hstuck | hassembled
    · obtain rfl : done = [] := nothing_of_stuck hstuck hraw
      have hstuck' : b.link.Stuck layout todo := by
        have hraw' : b.link.raw = a.link.raw := by
          rw [← filled_raw_of_full hstuck.1, hraw]
          rfl
        rw [Link.Stuck, Link.settings_of_terms hloaded.terms, hraw']
        exact hstuck
      exact conclude_hears hloaded (.refl own layout b) hsends' hready (.inl hstuck') ended 0
    · have hstart : Served own peers layout n accepted taken now b done.length todo done b :=
        ⟨.refl own layout b, hsends', pending, seen, hready,
          by rw [hloaded.inbound]; exact hassembled, fun hlt => absurd hlt (Nat.lt_irrefl _)⟩
      have hlayout' : b.link.layout = layout :=
        (Link.layout_of_terms hloaded.terms).trans hlayout
      have hstep (f : Fragment) (gs : List Fragment) (c : Attached σ)
          (hc : Served own peers layout n accepted taken now b done.length todo (f :: gs) c) :=
        hc.handle hlayout' hapart
      have hall := handleAll_meets layout now hstep done 0 b hstart
      cases hr : handleAll now 0 (done.map (Wire.whole layout)) b with
      | error e c =>
        rw [hr] at hall
        have hstopped : Stopped own layout accepted taken b e c := hall
        exact ⟨hloaded.replied hstopped.replied, hstopped.isPrefix, hstopped.ends⟩
      | ok count c =>
        rw [hr] at hall
        obtain ⟨-, hreplied, hsends'', pending', seen', hc', hassembled', hrecent⟩ := hall
        refine conclude_hears hloaded hreplied hsends'' hc' ?_ ended count
        by_cases hdone : done = []
        · have hnothing := stuck_of_nothing hprompt hchunk hended hloaded (by rw [hraw, hdone]; rfl)
          rcases hnothing with rfl | hstuck
          · obtain ⟨-, rfl⟩ := hc'.pending_nil
            exact .inr ⟨hassembled', fun _ _ _ _ _ hne => absurd rfl hne⟩
          · left
            rw [Link.Stuck, hreplied.settings, hreplied.raw]
            exact hstuck
        · exact .inr ⟨hassembled', hrecent (List.length_pos_iff.mpr hdone)⟩

/-- A receive keeps an open link going, or ends it with nothing out of order. -/
theorem receive_hears (hprompt : Medium.Prompt σ)
    (hchunk : 0 < a.link.settings.readChunk) (hopen : a.link.connected = true)
    (hlayout : a.link.layout = layout) (hapart : ∀ g, peers g → ¬ own g) (hsends : a.link.Sends)
    (h : a.link.Hears peers layout n accepted taken (Medium.incoming a.channel))
    (now : Moment) :
    (receive now a).Meets
      (fun _ b => Continued own peers layout n accepted taken a b)
      (Ended own layout accepted taken a) := by
  rw [receive, if_pos hopen]
  exact settle_failed (receiveBundles_hears hprompt hchunk hlayout hapart hsends h now)

end Attached

end BundleLink
