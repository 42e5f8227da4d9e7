import BundleLink.Proofs.Handling

/-!
# The frame of one receive

Whatever the fragments are, a receive first loads bytes from the medium and takes them apart, then
handles fragments one by one, and at last looks at the clock. What happens around the handling does
not depend on the fragments.

* `Outcome.Meets`          what an operation guarantees if it succeeds, and if it fails;
* `Attached.loaded`        the state when the handling starts, and `Attached.Loaded` how it differs
  from the one before;
* `receiveBundles_loaded`  a receive is a load, the handling of the fragments that are there
  completely, and a look at the clock;
* `handleAll_meets`        an invariant of the fragments still to be handled survives all of them;
* `conclude_meets`         what the look at the clock changes;
* `settle_meets`           a failure ends the link, unless it is a fault.
-/

namespace BundleLink

/-! ## what an operation guarantees -/

/-- on success `P`, on failure `Q` -/
def Outcome.Meets {σ α : Type} (r : Outcome σ α) (P : α → Attached σ → Prop)
    (Q : Failure LinkError → Attached σ → Prop) : Prop :=
  match r with
  | .ok x a => P x a
  | .error e a => Q e a

theorem Outcome.Meets.imp {σ α : Type} {r : Outcome σ α} {P P' : α → Attached σ → Prop}
    {Q Q' : Failure LinkError → Attached σ → Prop} (h : r.Meets P Q)
    (hP : ∀ x a, P x a → P' x a) (hQ : ∀ e a, Q e a → Q' e a) : r.Meets P' Q' := by
  cases r with
  | ok x a => exact hP x a h
  | error e a => exact hQ e a h

/-- the link is of no use after the failure -/
def Failure.Ends : Failure LinkError → Prop
  | .fault _ => True
  | .error e => e.isFatal = true

/-- the link without all that a receive may change -/
def Link.terms (l : Link) : Link :=
  { l.core with
    raw := []
    gaps := .single 0 0
    lastArrival := none
    lastProgress := .start
    timeouts := 0 }

section
variable {l l' : Link} (h : l'.terms = l.terms)
include h

theorem Link.layout_of_terms : l'.layout = l.layout := by
  have hlayout := congrArg Link.layout h
  exact hlayout

theorem Link.settings_of_terms : l'.settings = l.settings := by
  have hsettings := congrArg Link.settings h
  exact hsettings

theorem Link.generation_of_terms : l'.generation = l.generation := by
  have hgeneration := congrArg Link.generation h
  exact hgeneration

theorem Link.nextMessage_of_terms : l'.nextMessage = l.nextMessage := by
  have hnext := congrArg Link.nextMessage h
  exact hnext

end

namespace Attached

variable {σ : Type} {layout : Layout}

theorem Sent.terms [Channel σ] [Medium σ] {fs : List Fragment} {a b : Attached σ}
    (h : Sent fs a b) : b.link.terms = a.link.terms := by
  have hterms := congrArg Link.terms h.core
  exact hterms

theorem Sent.raw [Channel σ] [Medium σ] {fs : List Fragment} {a b : Attached σ}
    (h : Sent fs a b) : b.link.raw = a.link.raw := by
  have hraw := congrArg Link.raw h.core
  exact hraw

/-! ## looking at the clock -/

/-- From `a` to `b` the inbound bundles whose time is over were dropped, and timeouts counted. -/
structure Purged (now : Moment) (a b : Attached σ) : Prop where
  core : { b.link with timeouts := 0 }.core = { a.link with timeouts := 0 }.core
  channel : b.channel = a.channel
  outbound : b.link.outbound = a.link.outbound
  ready : b.link.ready = a.link.ready
  inbound : ∀ k, b.link.inbound.get? k =
    (a.link.inbound.get? k).filter fun asm => !isOverdue a.link.settings now asm

theorem Purged.terms {now : Moment} {a b : Attached σ} (h : Purged now a b) :
    b.link.terms = a.link.terms := by
  have hterms := congrArg Link.terms h.core
  exact hterms

theorem Purged.raw {now : Moment} {a b : Attached σ} (h : Purged now a b) :
    b.link.raw = a.link.raw := by
  have hraw := congrArg Link.raw h.core
  exact hraw

theorem Purged.connected {now : Moment} {a b : Attached σ} (h : Purged now a b) :
    b.link.connected = a.link.connected := by
  have hconnected := congrArg Link.connected h.core
  exact hconnected

theorem purged_purge (now : Moment) (a : Attached σ) (timeouts : Nat) :
    Purged now a
      { a.purge now with link := { (a.purge now).link with timeouts := timeouts } } :=
  ⟨rfl, rfl, rfl, rfl, fun k => Table.get?_keep _ k _⟩

theorem checkTimeout_meets (now : Moment) (a : Attached σ) :
    (checkTimeout now (a.purge now)).Meets (fun _ b => Purged now a b)
      (fun e b => Purged now a b ∧ e.Ends) := by
  have hsame := purged_purge now a a.link.timeouts
  rw [checkTimeout]
  split
  · exact ⟨hsame, trivial⟩
  · split
    · exact hsame
    · split
      · exact ⟨hsame, trivial⟩
      · dsimp only
        split
        · exact ⟨purged_purge now a (a.link.timeouts + 1), rfl⟩
        · exact purged_purge now a (a.link.timeouts + 1)

theorem conclude_meets (now : Moment) (ended : Bool) (count : Nat) (a : Attached σ) :
    (conclude now ended count a).Meets (fun _ b => Purged now a b ∧ ended = false)
      (fun e b => Purged now a b ∧ e.Ends) := by
  have hsame := purged_purge now a a.link.timeouts
  rw [conclude]
  cases ended with
  | true => exact ⟨hsame, rfl⟩
  | false =>
    dsimp only
    rw [if_neg Bool.false_ne_true]
    split
    · exact ⟨purged_purge now a 0, rfl⟩
    · split
      · exact (checkTimeout_meets now a).imp (fun _ _ h => ⟨h, rfl⟩) fun _ _ h => h
      · exact ⟨hsame, rfl⟩

theorem conclude_purged (now : Moment) (ended : Bool) (count : Nat) (a : Attached σ) :
    Purged now a (conclude now ended count a).after := by
  have hmeets := conclude_meets now ended count a
  generalize conclude now ended count a = r at hmeets
  cases r with
  | ok _ b => exact hmeets.1
  | error e b => exact hmeets.1

/-! ## handling one by one -/

section
variable [Channel σ]

theorem handleAll_meets (layout : Layout) (now : Moment) {I : List Fragment → Attached σ → Prop}
    {E : Failure LinkError → Attached σ → Prop}
    (step : ∀ f fs a, I (f :: fs) a →
      (handle f now (a.arrived now)).Meets (fun _ b => I fs b) E)
    (fs : List Fragment) (n : Nat) (a : Attached σ) (h : I fs a) :
    (handleAll now n (fs.map (Wire.whole layout)) a).Meets
      (fun m b => m = n + fs.length ∧ I [] b) E := by
  induction fs generalizing n a with
  | nil => exact ⟨rfl, h⟩
  | cons f fs ih =>
    have hstep := step f fs a h
    rw [List.map_cons, Wire.whole, handleAll]
    cases hr : handle f now (a.arrived now) with
    | ok x b =>
      rw [hr] at hstep
      refine (ih (n + 1) b hstep).imp (fun m c hc => ⟨?_, hc.2⟩) fun _ _ hc => hc
      rw [hc.1, List.length_cons]
      omega
    | error e b =>
      rw [hr] at hstep
      exact hstep

/-! ## loading -/

/-- the reads of one receive -/
def intake (a : Attached σ) : Intake σ :=
  fill a.link.settings.readChunk (a.link.settings.rawLimit - a.link.raw.length) [] a.channel

/-- the state after the reads -/
def filled (a : Attached σ) : Attached σ :=
  { link :=
      { a.link with
        raw := a.link.raw ++ a.intake.chunks.reverse.flatten
        traffic := a.link.traffic.bytesArrived a.intake.chunks.reverse.flatten.length }
    channel := a.intake.channel }

theorem fillRaw_ok {a : Attached σ} {ended : Bool} (h : a.intake.ended = .ok ended) :
    fillRaw a = .ok ended a.filled := by
  simp only [intake] at h
  simp only [fillRaw, h]
  rfl

theorem fillRaw_error {a : Attached σ} {e : IoError} (h : a.intake.ended = .error e) :
    fillRaw a = .error (.error (.io e)) a.filled := by
  simp only [intake] at h
  simp only [fillRaw, h]
  rfl

/-- what the raw bytes consist of after the reads -/
def pieces (a : Attached σ) : List Wire.Piece :=
  (Wire.scan a.filled.link.layout a.filled.link.raw).1

/-- the state after the raw bytes were taken apart -/
def loaded (a : Attached σ) : Attached σ :=
  { a.filled with
    link :=
      { a.filled.link with raw := (Wire.scan a.filled.link.layout a.filled.link.raw).2 } }

theorem receiveBundles_failed {a : Attached σ} {e : IoError} (h : a.intake.ended = .error e)
    (now : Moment) : receiveBundles now a = .error (.error (.io e)) a.filled := by
  rw [receiveBundles, fillRaw_error h]

theorem receiveBundles_broken {a b : Attached σ} {ended : Bool} {now : Moment}
    {e : Failure LinkError} (h : a.intake.ended = .ok ended)
    (hall : handleAll now 0 a.pieces a.loaded = .error e b) :
    receiveBundles now a = .error e b := by
  have htake : takeApart now a.filled = .error e b := hall
  simp only [receiveBundles, fillRaw_ok h, htake]

theorem receiveBundles_handled {a b : Attached σ} {ended : Bool} {now : Moment} {count : Nat}
    (h : a.intake.ended = .ok ended) (hall : handleAll now 0 a.pieces a.loaded = .ok count b) :
    receiveBundles now a = conclude now ended count b := by
  have htake : takeApart now a.filled = .ok count b := hall
  simp only [receiveBundles, fillRaw_ok h, htake]

/-- with as many raw bytes as there may be, nothing is read -/
theorem intake_of_full {a : Attached σ} (h : a.link.settings.rawLimit ≤ a.link.raw.length) :
    a.intake = ⟨[], .ok false, a.channel⟩ := by
  have hroom : a.link.settings.rawLimit - a.link.raw.length = 0 := by omega
  rw [intake, hroom, fill, dif_neg (fun h0 => absurd h0.1 (Nat.lt_irrefl 0))]

theorem filled_raw_of_full {a : Attached σ}
    (h : a.link.settings.rawLimit ≤ a.link.raw.length) : a.filled.link.raw = a.link.raw := by
  show a.link.raw ++ a.intake.chunks.reverse.flatten = _
  rw [intake_of_full h]
  exact List.append_nil _

end

variable [Channel σ] [Medium σ]

/-- the bytes that are still to be taken apart, those in the medium included -/
def stream (a : Attached σ) : Bytes := a.link.raw ++ Medium.incoming a.channel

/-- From `a` to `b` bytes moved from the medium to the raw bytes, or some of these were dropped. -/
structure Moved (a b : Attached σ) : Prop where
  core : { b.link with raw := [] }.core = { a.link with raw := [] }.core
  outgoing : Medium.outgoing b.channel = Medium.outgoing a.channel
  isOpen : Medium.isOpen b.channel = Medium.isOpen a.channel
  description : Medium.description b.channel = Medium.description a.channel
  outbound : b.link.outbound = a.link.outbound
  inbound : b.link.inbound = a.link.inbound
  ready : b.link.ready = a.link.ready

theorem Moved.terms {a b : Attached σ} (h : Moved a b) : b.link.terms = a.link.terms := by
  have hterms := congrArg Link.terms h.core
  exact hterms

theorem intake_carries (a : Attached σ) : a.intake.Carries [] a.channel := fill_carries _ _ _ _

theorem moved_filled (a : Attached σ) : Moved a a.filled :=
  ⟨rfl, (intake_carries a).outgoing, (intake_carries a).isOpen, (intake_carries a).description,
    rfl, rfl, rfl⟩

theorem stream_filled (a : Attached σ) : a.filled.stream = a.stream := by
  have h := (intake_carries a).incoming
  rw [List.reverse_nil, List.flatten_nil, List.nil_append] at h
  show (a.link.raw ++ _) ++ Medium.incoming a.intake.channel = _
  rw [List.append_assoc, ← h]
  rfl

/-- From `a` to `b` bytes were loaded and taken apart. The fragments that were there completely are
not part of `b` any more; those that were not there completely are `todo`. -/
structure Loaded (layout : Layout) (a : Attached σ) (todo : List Fragment) (b : Attached σ) :
    Prop extends Moved a b where
  incoming : Medium.incoming b.channel = Medium.incoming a.filled.channel
  stream : b.stream = Fragment.wires layout todo
  short : ∀ f, todo.head? = some f → b.link.raw.length < f.wireLength layout

/-- A receive whose reads succeed is a load, the handling of the fragments that are there
completely, and a look at the clock. -/
theorem receiveBundles_loaded {a : Attached σ} {fs : List Fragment} {ended : Bool}
    (hlayout : a.link.layout = layout) (hfits : ∀ f ∈ fs, f.Fits layout)
    (hstream : a.stream = Fragment.wires layout fs) (hended : a.intake.ended = .ok ended)
    (now : Moment) :
    ∃ done todo, fs = done ++ todo ∧ a.pieces = done.map (Wire.whole layout) ∧
      Loaded layout a todo a.loaded ∧
      a.filled.link.raw = Fragment.wires layout done ++ a.loaded.link.raw ∧
      receiveBundles now a =
        match handleAll now 0 (done.map (Wire.whole layout)) a.loaded with
        | .error e c => .error e c
        | .ok count c => conclude now ended count c := by
  have hfilled : a.filled.link.raw ++ Medium.incoming a.filled.channel =
      Fragment.wires layout fs := (stream_filled a).trans hstream
  obtain ⟨done, todo, rest, hsplit, hcut⟩ := Wire.scan_wires hfits hfilled
  have hmoved := moved_filled a
  have hsame : a.filled.link.layout = layout := hlayout
  have hscan : Wire.scan a.filled.link.layout a.filled.link.raw =
      (done.map (Wire.whole layout), rest) := by
    rw [hsame]
    exact hcut.scan_eq
  have hpieces : a.pieces = done.map (Wire.whole layout) := congrArg Prod.fst hscan
  have hrest : a.loaded.link.raw = rest := congrArg Prod.snd hscan
  refine ⟨done, todo, hsplit, hpieces,
    ⟨⟨hmoved.core, hmoved.outgoing, hmoved.isOpen, hmoved.description, hmoved.outbound,
      hmoved.inbound, hmoved.ready⟩, rfl, ?_, ?_⟩, ?_, ?_⟩
  · rw [stream, hrest]
    exact hcut.rest_eq
  · intro f hf
    rw [hrest]
    exact hcut.short f hf
  · rw [hsplit, Fragment.wires_append, ← hcut.rest_eq, ← List.append_assoc] at hfilled
    rw [hrest]
    exact List.append_cancel_right hfilled
  · rw [receiveBundles, fillRaw_ok hended, ← hpieces]
    rfl

omit [Medium σ] in
theorem rawLimit_le_filled {a : Attached σ}
    (h : a.link.settings.rawLimit - a.link.raw.length ≤ a.intake.chunks.flatten.length) :
    a.link.settings.rawLimit ≤ a.filled.link.raw.length := by
  have hlen : a.intake.chunks.reverse.flatten.length = a.intake.chunks.flatten.length := by
    simp only [List.length_flatten, List.map_reverse, List.sum_reverse]
  show _ ≤ (a.link.raw ++ a.intake.chunks.reverse.flatten).length
  rw [List.length_append, hlen]
  omega

/-- Where a prompt medium is read without failure, either the raw bytes reach their limit or
nothing is left to read. -/
theorem filled_full (hprompt : Medium.Prompt σ) {a : Attached σ} {ended : Bool}
    (hchunk : 0 < a.link.settings.readChunk) (hended : a.intake.ended = .ok ended) :
    a.link.settings.rawLimit ≤ a.filled.link.raw.length ∨
      Medium.incoming a.filled.channel = [] := by
  rcases fill_stops hprompt hchunk _ [] a.channel hended with hfull | hempty
  · exact .inl (rawLimit_le_filled hfull)
  · exact .inr hempty

/-! ## the end of a link -/

/-- `b` is `a` after the link was closed. -/
structure Shut (a b : Attached σ) : Prop where
  closed : b.link.connected = false
  ready : b.link.ready = a.link.ready
  outgoing : Medium.outgoing b.channel = Medium.outgoing a.channel
  incoming : Medium.incoming b.channel = Medium.incoming a.channel
  layout : b.link.layout = a.link.layout
  nextMessage : b.link.nextMessage = a.link.nextMessage
  settings : b.link.settings = a.link.settings
  generation : b.link.generation = a.link.generation
  description : Medium.description b.channel = Medium.description a.channel

theorem shut_close (a : Attached σ) : Shut a a.close := by
  cases hopen : a.link.connected with
  | true =>
    rw [close, if_pos hopen]
    exact ⟨rfl, rfl, Medium.outgoing_close a.channel, Medium.incoming_close a.channel, rfl, rfl,
      rfl, rfl, Medium.description_close a.channel⟩
  | false =>
    rw [close_of_closed hopen]
    exact ⟨hopen, rfl, rfl, rfl, rfl, rfl, rfl, rfl, rfl⟩

/-- a failure that ends the link closes it, unless it is a fault -/
theorem settle_meets {α : Type} {r : Outcome σ α} {P : α → Attached σ → Prop}
    {Q : Failure LinkError → Attached σ → Prop} (h : r.Meets P Q)
    (hends : ∀ e b, Q e b → e.Ends) :
    (settle r).Meets P fun e c =>
      ∃ b, Q e b ∧ ((∃ f, e = .fault f ∧ c = b) ∨ (∃ f, e = .error f) ∧ Shut b c) := by
  cases r with
  | ok x a => exact h
  | error e b =>
    cases e with
    | fault f => exact ⟨b, h, .inl ⟨f, rfl, rfl⟩⟩
    | error e =>
      have hfatal : e.isFatal = true := hends _ _ h
      have hshut := shut_close (b.warn (.closing b.link.id b.link.description e))
      rw [settle, if_pos hfatal]
      exact ⟨b, h, .inr ⟨⟨e, rfl⟩, hshut.closed, hshut.ready, hshut.outgoing, hshut.incoming,
        hshut.layout, hshut.nextMessage, hshut.settings,
        hshut.generation, hshut.description⟩⟩

end Attached

end BundleLink
