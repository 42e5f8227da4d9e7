import BundleLink.Proofs.Session.Patience

/-!
# What an event leaves of a link at work

A link is at work as long as it is connected and no fault has stopped its party. Whoever follows
what such a link keeps about its peer needs to know two things: a receive after which it is still at
work has succeeded, and all other events leave the greater part of the link as it was.

* `Session.isAtWork`        the link is at work, and `active_of_step` that it was so before;
* `Session.settle_after`    what an operation on the channel leaves, and `unless_idle` what it
  leaves of a link that is not at work;
* `Link.Operated`           what all events but receives may change, with `step_operated`;
* `Session.Aside`           what all events but receives and writes may change, with `aside_step`;
* `Attached.Stages`         the stages of a receive that succeeds, with `step_receive`.
-/

namespace BundleLink

/-- From `l` to `l'` something other than a receive was done. If it moved the last progress, then to
the moment at which it was done. -/
structure Link.Operated (moment : Option Moment) (l l' : Link) : Prop where
  link : ∃ layout size outbound ready generation next progress traffic, l' =
    { l with
      layout := layout, fragmentSize := size, outbound := outbound, ready := ready
      generation := generation, nextMessage := next, lastProgress := progress, traffic := traffic }
  progress : l'.lastProgress = l.lastProgress ∨ moment = some l'.lastProgress

/-- where the last progress stays, nothing is asked of the moment -/
theorem Link.Operated.of_eq {moment : Option Moment} {l l' : Link}
    (h : ∃ layout size outbound ready generation next traffic, l' =
      { l with
        layout := layout, fragmentSize := size, outbound := outbound, ready := ready
        generation := generation, nextMessage := next, traffic := traffic }) :
    l.Operated moment l' := by
  obtain ⟨layout, size, outbound, ready, generation, next, traffic, rfl⟩ := h
  exact ⟨⟨_, _, _, _, _, _, _, _, rfl⟩, .inl rfl⟩

namespace Attached

variable {σ : Type} [Channel σ] {a : Attached σ} {now : Moment}

/-- From `a` to `c` a receive succeeded: after the reads all fragments were handled, which led to
`b`, and what was overdue by then was dropped. -/
structure Stages (now : Moment) (a b c : Attached σ) : Prop where
  ended : a.intake.ended = .ok false
  handled : ∃ count, handleAll now 0 a.pieces a.loaded = .ok count b
  purged : Purged now b c

theorem stages_of_ok {c : Attached σ} (h : receiveBundles now a = .ok () c) :
    ∃ b, Stages now a b c := by
  cases hended : a.intake.ended with
  | error e =>
    rw [receiveBundles_failed hended] at h
    cases h
  | ok ended =>
    cases hall : handleAll now 0 a.pieces a.loaded with
    | error e b =>
      rw [receiveBundles_broken hended hall] at h
      cases h
    | ok count b =>
      have hconclude := conclude_meets now ended count b
      rw [receiveBundles_handled hended hall] at h
      rw [h] at hconclude
      obtain ⟨hpurged, rfl⟩ := hconclude
      exact ⟨b, hended, ⟨count, hall⟩, hpurged⟩

end Attached

namespace Session

variable {σ : Type} {s : Session σ} {now : Moment}

/-- the link is connected, and no fault has stopped the party -/
def isAtWork (s : Session σ) : Bool := s.party.link.connected && !s.party.halted

theorem isAtWork_iff : s.isAtWork = true ↔ s.party.Active := by
  rw [isAtWork, Bool.and_eq_true, Bool.not_eq_true', Party.Active]

variable [Channel σ]

theorem active_of_step {e : Event} (h : (s.step e).party.Active) : s.party.Active := by
  cases e with
  | act op now => exact active_of_act h
  | setLayout layout =>
    replace h : (if s.party.halted then s else _).party.Active := h
    split at h <;> exact h

/-- a failure that ends the link stops the work -/
theorem not_active_settle {e : Failure LinkError} (hends : e.Ends) (buffers : List Bytes)
    (ds : List Deed) (b : Attached (Traced σ)) :
    ¬ (s.settle buffers ds (Attached.settle (.error e b))).party.Active := by
  cases e with
  | error e =>
    have hfatal : e.isFatal = true := hends
    rw [Attached.settle, if_pos hfatal]
    exact Party.not_active (Attached.close_connected _)
  | fault f => exact fun hx => absurd hx.2 (by simp [Attached.settle, settle])

omit [Channel σ] in
/-- what is left after an operation on the channel -/
theorem settle_after (s : Session σ) (buffers : List Bytes) (ds : List Deed)
    (r : Outcome (Traced σ) Unit) :
    (s.settle buffers ds r).attached = r.after ∧
      (s.settle buffers ds r).history = s.history ++ ds ∧
      (s.settle buffers ds r).party.taken = s.party.taken := by
  rcases r with ⟨_, b⟩ | ⟨_ | _, b⟩ <;> exact ⟨rfl, rfl, rfl⟩

omit [Channel σ] in
/-- an operation that a link refuses as long as it is closed, when the link is not at work -/
theorem unless_idle (h : ¬ s.party.Active) (buffers : List Bytes)
    {r : Outcome (Traced σ) Unit} {ds : List Deed}
    (hr : s.attached.link.connected = false →
      r = .error (.error .notConnected) s.attached ∧ ds = []) :
    (if s.party.halted then s else s.settle buffers ds r) = s := by
  cases hhalted : s.party.halted with
  | true => exact if_pos rfl
  | false =>
    obtain ⟨rfl, rfl⟩ := hr (Bool.eq_false_iff.mpr fun hopen => h ⟨hopen, hhalted⟩)
    rw [if_neg Bool.false_ne_true]
    show ({ party := _, channel := _, history := s.history ++ [] } : Session σ) = s
    rw [List.append_nil]
    rfl

/-- a link that is not at work any more receives nothing -/
theorem step_of_idle (h : ¬ s.party.Active) (now : Moment) : s.step (.act .receive now) = s :=
  unless_idle h [] fun hclosed => ⟨Attached.receive_of_closed hclosed now,
    if_neg (by rw [hclosed]; exact Bool.false_ne_true)⟩

theorem receive_of_active (h : s.party.Active) (now : Moment) :
    s.attached.receive now = Attached.settle (Attached.receiveBundles now s.attached) := by
  rw [Attached.receive, if_pos (show s.attached.link.connected = true from h.1)]

theorem write_of_active (h : s.party.Active) (buffer : Bytes) (flushNow : Bool) (now : Moment) :
    s.attached.write buffer flushNow now =
      Attached.settle (Attached.writeBundle buffer flushNow now s.attached) := by
  rw [Attached.write, if_pos (show s.attached.link.connected = true from h.1)]

omit [Channel σ] in
/-- a party at work is not halted -/
theorem unless_halted (h : s.party.Active) (t : Session σ) :
    (if s.party.halted then s else t) = t := by
  rw [if_neg (by rw [h.2]; exact Bool.false_ne_true)]

theorem step_of_active (h : s.party.Active) (now : Moment) :
    s.step (.act .receive now) =
      s.settle [] (s.deeds now) (Attached.settle (Attached.receiveBundles now s.attached)) := by
  rw [← receive_of_active h]
  exact unless_halted h _

/-- a link that is still at work after a receive has succeeded in it -/
theorem ok_of_active (h : (s.step (.act .receive now)).party.Active) :
    ∃ c, Attached.receiveBundles now s.attached = .ok () c ∧
      (s.step (.act .receive now)).party.link = c.link := by
  have hstep := step_of_active (active_of_step h) now
  have hclock := Attached.receiveBundles_clock now s.attached
  rw [hstep] at h ⊢
  cases hr : Attached.receiveBundles now s.attached with
  | ok _ c => exact ⟨c, rfl, rfl⟩
  | error e c =>
    rw [hr] at h hclock
    have hends : e.Ends := by
      rcases hclock with hbreaks | rfl | ⟨rfl, -⟩
      · exact hbreaks.ends
      · rfl
      · rfl
    exact absurd h (not_active_settle hends [] _ c)

theorem step_receive (h : (s.step (.act .receive now)).party.Active) :
    ∃ b c, Attached.Stages now s.attached b c ∧
      (s.step (.act .receive now)).party.link = c.link := by
  obtain ⟨c, hr, hlink⟩ := ok_of_active h
  obtain ⟨b, hb⟩ := Attached.stages_of_ok hr
  exact ⟨b, c, hb, hlink⟩

theorem operated_write (hactive : s.party.Active) {buffers : List Bytes} {buffer : Bytes}
    {flushNow : Bool}
    (h : (s.settle buffers [] (s.attached.write buffer flushNow now)).party.Active) :
    s.party.link.Operated (some now)
      (s.settle buffers [] (s.attached.write buffer flushNow now)).party.link := by
  have hissued := Attached.writeBundle_issued buffer flushNow now s.attached
  rw [write_of_active hactive] at h ⊢
  generalize Attached.writeBundle buffer flushNow now s.attached = r at h hissued
  cases r with
  | ok _ b =>
    obtain ⟨⟨traffic, next, outbound, progress, hb⟩, -, hprogress⟩ := hissued
    refine ⟨⟨_, _, _, _, _, _, _, _, hb⟩, ?_⟩
    split at hprogress
    · exact .inr (congrArg some hprogress.symm)
    · exact .inl hprogress
  | error e b =>
    rcases hissued.2 with hbreaks | rfl
    · exact absurd h (not_active_settle hbreaks.ends buffers [] b)
    · have hsame : (s.settle buffers [] (Attached.settle (.error e s.attached))).party.link =
          s.party.link := by
        rcases e with e | f
        · rw [Attached.settle]
          split
          · rename_i hfatal
            have hends : Failure.Ends (.error e) := hfatal
            exact absurd h (not_active_settle hends buffers [] s.attached)
          · rfl
        · rfl
      rw [hsame]
      exact .of_eq ⟨_, _, _, _, _, _, _, rfl⟩

omit [Channel σ] in
theorem operated_reads {moment : Option Moment} {r : Except LinkError (Option Bytes) × Link}
    (hr : ∃ rest, r.2 = { s.party.link with ready := rest }) :
    s.party.link.Operated moment (s.party.gets r).link := by
  obtain ⟨rest, hrest⟩ := hr
  rw [(s.party.gets_eq r).1, hrest]
  exact .of_eq ⟨_, _, _, _, _, _, _, rfl⟩

/-- All events but receives leave what the link knows of its peer, if they leave it at work. -/
theorem step_operated {e : Event} (he : ∀ now, e ≠ .act .receive now)
    (h : (s.step e).party.Active) :
    s.party.link.Operated e.moment? (s.step e).party.link := by
  have hactive := active_of_step h
  have hunless (t : Session σ) := unless_halted hactive t
  cases e with
  | setLayout layout =>
    rw [show s.step (.setLayout layout) = s.setLink (s.party.link.setLayout layout) from
      hunless _]
    exact .of_eq ⟨_, _, _, _, _, _, _, rfl⟩
  | act op now =>
    cases op with
    | receive => exact absurd rfl (he now)
    | read => exact operated_reads (Link.read_queue _)
    | readInto buffer => exact operated_reads (Link.readInto_queue _ buffer)
    | readText => exact operated_reads (Link.readText_queue _)
    | write buffer flushNow =>
      have hstep : s.step (.act (.write buffer flushNow) now) =
          s.settle [buffer] [] (s.attached.write buffer flushNow now) := hunless _
      rw [hstep] at h ⊢
      exact operated_write hactive h
    | writeText text flushNow =>
      have hstep : s.step (.act (.writeText text flushNow) now) =
          s.settle [Utf8.encode text] [] (s.attached.write (Utf8.encode text) flushNow now) :=
        hunless _
      rw [hstep] at h ⊢
      exact operated_write hactive h
    | setFragmentSize size =>
      rw [show s.step (.act (.setFragmentSize size) now) =
        s.setLink (s.party.link.setFragmentSize size).2 from hunless _]
      show Link.Operated _ _ (s.party.link.setFragmentSize size).2
      rw [Link.setFragmentSize]
      split <;> exact .of_eq ⟨_, _, _, _, _, _, _, rfl⟩
    | advanceGeneration =>
      have hstep : s.step (.act .advanceGeneration now) = { s with party := s.party.advance } :=
        hunless _
      rw [hstep] at h ⊢
      rw [(Party.advance_of_active h).2]
      exact .of_eq ⟨_, _, _, _, _, _, _, rfl⟩
    | close =>
      replace h : (if s.party.halted then s.setLink { s.party.link with connected := false }
        else s.work now .close).party.Active := h
      rw [if_neg (by rw [hactive.2]; exact Bool.false_ne_true)] at h
      exact absurd h (Party.not_active (Attached.close_connected s.attached))

/-! ## events that only the link itself is concerned with -/

/-- the buffer that an event is to write -/
def Event.buffer? : Event → Option Bytes
  | .act (.write buffer _) _ => some buffer
  | .act (.writeText text _) _ => some (Utf8.encode text)
  | _ => none

variable {t : Session σ}

omit [Channel σ] in
/-- From `s` to `t` nothing was told, written, counted or delivered. If the link is still at work,
only the queue has changed, or what bundles that are written will be like. -/
structure Aside (s t : Session σ) : Prop where
  history : t.history = s.history
  calls : t.channel.calls = s.channel.calls
  traffic : t.party.link.traffic = s.party.link.traffic
  delivered : t.party.delivered = s.party.delivered
  connected : t.party.link.connected = true → s.party.link.connected = true
  active : t.party.Active → s.party.Active ∧ t.channel = s.channel ∧
    ∃ size ready generation, t.party.link =
      { s.party.link with fragmentSize := size, ready := ready, generation := generation }

omit [Channel σ] in
theorem Aside.refl (s : Session σ) : Aside s s :=
  ⟨rfl, rfl, rfl, rfl, id, fun hx => ⟨hx, rfl, _, _, _, rfl⟩⟩

omit [Channel σ] in
theorem aside_gets {r : Except LinkError (Option Bytes) × Link}
    (hr : ∃ rest, r.2 = { s.party.link with ready := rest })
    (hsame : s.party.Same (s.party.gets r)) : Aside s { s with party := s.party.gets r } := by
  obtain ⟨rest, hrest⟩ := hr
  obtain ⟨hlink, hhalted⟩ := s.party.gets_eq r
  rw [hrest] at hlink
  have hopen : (s.party.gets r).link.connected = true → s.party.link.connected = true := by
    rw [hlink]
    exact id
  refine ⟨rfl, rfl, ?_, hsame.delivered, hopen, fun hx => ?_⟩
  · show (s.party.gets r).link.traffic = _
    rw [hlink]
  · exact ⟨⟨hopen hx.1, hhalted ▸ hx.2⟩, rfl, _, _, _, hlink⟩

/-- all events but receives and writes, where the layout stays the same -/
theorem aside_step {e : Event} (hreceive : ∀ now, e ≠ .act .receive now) (hwrite : e.buffer? = none)
    (hlayout : s.party.Active → ∀ l, e = .setLayout l → l = s.party.link.layout) :
    Aside s (s.step e) := by
  cases e with
  | setLayout l =>
    refine Party.unless_halted (.refl s) fun _ => ⟨rfl, rfl, rfl, rfl, id, fun hx => ?_⟩
    obtain rfl := hlayout hx l rfl
    exact ⟨hx, rfl, s.party.link.fragmentSize, s.party.link.ready, s.party.link.generation, rfl⟩
  | act op now =>
    cases op with
    | receive => exact absurd rfl (hreceive now)
    | write buffer flushNow => cases hwrite
    | writeText text flushNow => cases hwrite
    | read => exact aside_gets (Link.read_queue _) (Party.same_read _)
    | readInto buffer =>
      exact aside_gets (Link.readInto_queue _ buffer) (Party.same_readInto _ buffer)
    | readText => exact aside_gets (Link.readText_queue _) (Party.same_readText _)
    | setFragmentSize size =>
      obtain ⟨n, hn⟩ := s.party.link.setFragmentSize_eq size
      show Aside s (if s.party.halted then s else s.setLink (s.party.link.setFragmentSize size).2)
      rw [hn]
      exact Party.unless_halted (.refl s) fun _ =>
        ⟨rfl, rfl, rfl, rfl, id, fun hx => ⟨hx, rfl, _, _, _, rfl⟩⟩
    | advanceGeneration =>
      refine Party.unless_halted (.refl s) fun _ => ?_
      show Aside s { s with party := s.party.advance }
      rcases s.party.advance_eq with hadvance | hadvance
      · rw [hadvance]
        exact ⟨rfl, rfl, rfl, rfl, id, fun hx => ⟨hx, rfl, _, _, _, rfl⟩⟩
      · rw [hadvance]
        exact ⟨rfl, rfl, rfl, rfl, id, fun hx => absurd hx.2 (by simp)⟩
    | close =>
      show Aside s (if s.party.halted then _ else _)
      split
      · exact ⟨rfl, rfl, rfl, rfl, fun hopen => absurd hopen Bool.false_ne_true,
          fun hx => absurd hx (Party.not_active rfl)⟩
      · show Aside s { s.setLink s.attached.close.link with channel := s.attached.close.channel }
        rw [Attached.close]
        split
        · exact ⟨rfl, rfl, rfl, rfl, fun hopen => absurd hopen Bool.false_ne_true,
            fun hx => absurd hx (Party.not_active rfl)⟩
        · exact .refl s

end Session

end BundleLink
