import BundleLink.Channel.Script
import BundleLink.Proofs.Pair.Order
import BundleLink.Proofs.Session.Deeds
import BundleLink.Proofs.Waiting

/-!
# When a link runs out of patience

A session is watched: when the link last made progress, which is a fragment that arrived or a write
that found nothing outbound, and how many receives since then counted a timeout. A fragment makes
the link forget all timeouts, but such a write does not: timeouts from before it still count.

* `Watch`, `Session.watch`         what is watched, and what a run leaves of it;
* `Link.Paced`                     the link knows its last progress, and counts all these timeouts;
* `Session.Paced`                  so it does while it is at work, with `Paced.act`, `Paced.run`;
* `Session.timeout_awaits_acks`    a link that runs out of patience waits for acks, and for nothing
  else;
* `Session.timeout_counts`         how many timeouts there must have been by then.
-/

namespace BundleLink

/-- what a session waits for, seen from outside -/
structure Watch where
  /-- the opening, the last fragment, or the last write with nothing outbound -/
  since : Moment
  /-- the timeouts counted after that -/
  counted : Nat
  /-- the timeouts counted before such writes, and not followed by a fragment -/
  carried : Nat
  deriving DecidableEq, Repr

/-- The link knows its last progress, which was not later than `now`, and it has counted all
timeouts. -/
structure Link.Paced (settings : Settings) (now : Moment) (w : Watch) (l : Link) : Prop where
  settings : l.settings = settings
  since : l.lastProgress = w.since
  timeouts : l.timeouts = w.carried + w.counted
  timely : l.Timely now

/-- closing the link changes nothing about the failure -/
theorem Attached.failure_settle {σ : Type} [Channel σ] (r : Outcome σ Unit) :
    (settle r).failure = r.failure := by
  rcases r with ⟨_, b⟩ | ⟨e | e, b⟩
  · rfl
  · rw [settle]
    split <;> rfl
  · rfl

namespace Session

variable {σ : Type} {s : Session σ} {w w' : Watch} {settings : Settings} {now later : Moment}

def Event.moment? : Event → Option Moment
  | .act _ now => some now
  | .setLayout _ => none

/-- the moments of a run that starts with `start` and ends with `stop`, in their order -/
def clock (start : Moment) (es : List Event) (stop : Moment) : List Moment :=
  start :: es.filterMap Event.moment? ++ [stop]

/-- The clock never goes back. -/
def Monotone (ms : List Moment) : Prop := ms.Pairwise fun m n => m.ns ≤ n.ns

instance (ms : List Moment) : Decidable (Monotone ms) :=
  inferInstanceAs (Decidable (ms.Pairwise _))

variable [Channel σ]

/-- a write that succeeds and found nothing outbound starts the wait anew -/
def watchWrite (s : Session σ) (w : Watch) (now : Moment) (buffer : Bytes) (flushNow : Bool) :
    Watch :=
  if (s.attached.write buffer flushNow now).failure.isNone && s.party.link.outbound.isEmpty then
    ⟨now, 0, w.carried + w.counted⟩
  else w

/-- a fragment that is received starts the wait anew, and all timeouts are forgotten -/
def watchReceive (s : Session σ) (w : Watch) (now : Moment) : Watch :=
  if s.attached.hears = [] then
    if s.attached.expires now then { w with counted := w.counted + 1 } else w
  else ⟨now, 0, 0⟩

/-- what an operation of a link at work changes -/
def watchWork (s : Session σ) (w : Watch) (now : Moment) : Pair.Operation → Watch
  | .write buffer flushNow => s.watchWrite w now buffer flushNow
  | .writeText text flushNow => s.watchWrite w now (Utf8.encode text) flushNow
  | .receive => s.watchReceive w now
  | _ => w

/-- what an event changes -/
def observe (s : Session σ) (w : Watch) : Event → Watch
  | .act op now =>
    if s.party.link.connected && !s.party.halted then s.watchWork w now op else w
  | .setLayout _ => w

/-- what is seen of a run by its end -/
def watch (s : Session σ) (w : Watch) : List Event → Watch
  | [] => w
  | e :: es => (s.step e).watch (s.observe w e) es

/-! ## the invariant -/

/-- While the link is at work, it keeps pace with the watch. -/
def Paced (settings : Settings) (now : Moment) (w : Watch) (s : Session σ) : Prop :=
  s.party.Active → s.party.link.Paced settings now w

omit [Channel σ] in
theorem paced_opened (id : Nat) (description : String) (settings : Settings)
    (generation : UInt64) (now : Moment) (channel : σ) :
    Paced settings now ⟨now, 0, 0⟩ (opened id description settings generation now channel) :=
  fun _ => ⟨rfl, rfl, rfl, Nat.le_refl _, fun k asm hk => by cases hk⟩

omit [Channel σ] in
/-- operations that look at no clock -/
theorem Paced.alone (h : Paced settings now w s) {x : Party}
    (hactive : x.Active → s.party.Active ∧ x.link.settings = s.party.link.settings ∧
      x.link.lastProgress = s.party.link.lastProgress ∧
      x.link.timeouts = s.party.link.timeouts ∧ x.link.inbound = s.party.link.inbound)
    (t : Traced σ) (ds : List Deed) : Paced settings now w ⟨x, t, ds⟩ := by
  intro hx
  obtain ⟨hs, hsettings, hprogress, htimeouts, hinbound⟩ := hactive hx
  have hlink := h hs
  refine ⟨hsettings.trans hlink.settings, hprogress.trans hlink.since,
    htimeouts.trans hlink.timeouts, hlink.timely.congr hprogress fun k asm hk => ?_⟩
  rw [← hinbound]
  exact hk

/-- operations that may end the link -/
theorem Paced.settled {r : Outcome (Traced σ) Unit}
    (hmeets : r.Meets (fun _ b => b.link.Paced settings now w)
      fun e b => e.Ends ∨ b.link.Paced settings now w)
    (buffers : List Bytes) (ds : List Deed) :
    Paced settings now w (s.settle buffers ds (Attached.settle r)) := by
  rcases r with ⟨_, b⟩ | ⟨e | e, b⟩
  · exact fun _ => hmeets
  · rw [Attached.settle]
    split
    · exact fun hx => absurd hx (Party.not_active (Attached.close_connected
        (b.warn (.closing b.link.id b.link.description e))))
    · rename_i hfatal
      exact fun _ => hmeets.resolve_left hfatal
  · exact fun hx => absurd hx.2 (by simp [Session.settle, Attached.settle])

/-- a write changes the watch if it succeeds, and no pace if it is refused -/
theorem Paced.write (h : Paced settings now w s) (hactive : s.party.Active)
    (buffers : List Bytes) (buffer : Bytes) (flushNow : Bool) (hlater : now.ns ≤ later.ns) :
    Paced settings later (s.watchWrite w later buffer flushNow)
      (s.settle buffers [] (s.attached.write buffer flushNow later)) := by
  have hlink := h hactive
  have hwrite : s.attached.write buffer flushNow later =
      Attached.settle (Attached.writeBundle buffer flushNow later s.attached) := by
    rw [Attached.write, if_pos (show s.attached.link.connected = true from hactive.1)]
  have hissued := Attached.writeBundle_issued buffer flushNow later s.attached
  rw [watchWrite, hwrite, Attached.failure_settle]
  generalize Attached.writeBundle buffer flushNow later s.attached = r at hissued
  cases r with
  | ok _ b =>
    obtain ⟨⟨traffic, next, outbound, progress, hb⟩, -, hprogress⟩ := hissued
    rw [hb] at hprogress
    replace hprogress : progress =
        if s.party.link.outbound.isEmpty then later else s.party.link.lastProgress := hprogress
    intro _
    show b.link.Paced settings later (if s.party.link.outbound.isEmpty then _ else w)
    rw [hb]
    split
    · rename_i hempty
      rw [if_pos hempty] at hprogress
      refine ⟨hlink.settings, hprogress, hlink.timeouts, ?_, fun k asm hk hopen => ?_⟩
      · exact Nat.le_of_eq (by rw [hprogress])
      · have hold := hlink.timely.arrival_le k asm hk hopen
        rw [hprogress]
        exact Nat.le_trans hold (Nat.le_trans hlink.timely.progress_le hlater)
    · rename_i hempty
      rw [if_neg hempty] at hprogress
      exact ⟨hlink.settings, hprogress.trans hlink.since, hlink.timeouts,
        (hlink.timely.mono hlater).congr hprogress fun _ _ hk => hk⟩
  | error e b =>
    refine Paced.settled (r := .error e b) ?_ buffers []
    rcases hissued.2 with hbreaks | rfl
    · exact .inl hbreaks.ends
    · exact .inr ⟨hlink.settings, hlink.since, hlink.timeouts, hlink.timely.mono hlater⟩

theorem Paced.receive (h : Paced settings now w s) (hactive : s.party.Active)
    (hlater : now.ns ≤ later.ns) :
    Paced settings later (s.watchReceive w later)
      (s.settle [] (s.deeds later) (s.attached.receive later)) := by
  have hlink := h hactive
  rw [watchReceive, Attached.receive, if_pos (show s.attached.link.connected = true from hactive.1)]
  refine Paced.settled ((Attached.receiveBundles_clock later s.attached).imp ?_ ?_) [] _
  · intro _ b hb
    have htimely := hb.timely (hlink.timely.mono hlater)
    have htimeouts := hb.timeouts
    have hprogress := hb.lastProgress
    rw [Attached.timeoutsAfter] at htimeouts
    by_cases hquiet : s.attached.hears = []
    · rw [if_pos hquiet] at hprogress htimeouts ⊢
      have hsince := hprogress.trans hlink.since
      have hcount : s.attached.link.timeouts = w.carried + w.counted := hlink.timeouts
      split
      · rename_i hexpires
        rw [if_pos hexpires, hcount] at htimeouts
        exact ⟨hb.settings.trans hlink.settings, hsince, htimeouts, htimely⟩
      · rename_i hexpires
        rw [if_neg hexpires, hcount] at htimeouts
        exact ⟨hb.settings.trans hlink.settings, hsince, htimeouts, htimely⟩
    · rw [if_neg hquiet] at hprogress htimeouts ⊢
      exact ⟨hb.settings.trans hlink.settings, hprogress, htimeouts, htimely⟩
  · rintro e b (hbreaks | rfl | ⟨rfl, -⟩)
    · exact .inl hbreaks.ends
    · exact .inl rfl
    · exact .inl rfl

omit [Channel σ] in
/-- time goes by -/
theorem Paced.mono (h : Paced settings now w s) (hlater : now.ns ≤ later.ns) :
    Paced settings later w s :=
  fun hx => ⟨(h hx).settings, (h hx).since, (h hx).timeouts, (h hx).timely.mono hlater⟩

omit [Channel σ] in
/-- a party that only reads keeps all that the watch is about -/
theorem Paced.reads (h : Paced settings now w s) {r : Except LinkError (Option Bytes) × Link}
    (hr : ∃ rest, r.2 = { s.party.link with ready := rest }) :
    Paced settings now w { s with party := s.party.gets r } := by
  obtain ⟨rest, hrest⟩ := hr
  obtain ⟨hlink, hhalted⟩ := s.party.gets_eq r
  rw [hrest] at hlink
  refine h.alone (x := s.party.gets r) (fun hx => ?_) s.channel s.history
  rw [Party.Active, hlink, hhalted] at hx
  rw [hlink]
  exact ⟨hx, rfl, rfl, rfl, rfl⟩

omit [Channel σ] in
theorem active_settle {buffers : List Bytes} {ds : List Deed} {r : Outcome (Traced σ) Unit}
    (h : (s.settle buffers ds r).party.Active) :
    r.after.link.connected = true ∧ s.party.halted = false := by
  rcases r with ⟨_, b⟩ | ⟨e | e, b⟩
  · exact h
  · exact h
  · exact absurd h.2 (by simp [Session.settle])

/-- a link that is of no use stays so -/
theorem active_of_act {op : Pair.Operation} (h : (s.act now op).party.Active) :
    s.party.Active := by
  have hgets {r : Except LinkError (Option Bytes) × Link}
      (hr : ∃ rest, r.2 = { s.party.link with ready := rest })
      (hx : (s.party.gets r).Active) : s.party.Active := by
    obtain ⟨rest, hrest⟩ := hr
    obtain ⟨hlink, hhalted⟩ := s.party.gets_eq r
    rw [Party.Active, hlink, hhalted, hrest] at hx
    exact hx
  have hunless {t : Session σ} (hx : (if s.party.halted then s else t).party.Active)
      (ht : t.party.Active → s.party.Active) : s.party.Active := by
    split at hx
    · exact hx
    · exact ht hx
  cases op with
  | read => exact hgets (Link.read_queue _) h
  | readInto buffer => exact hgets (Link.readInto_queue _ buffer) h
  | readText => exact hgets (Link.readText_queue _) h
  | write buffer flushNow =>
    refine hunless h fun hx => ?_
    obtain ⟨hopen, hhalted⟩ := active_settle hx
    exact ⟨(Attached.ready_write buffer flushNow now s.attached).2 hopen, hhalted⟩
  | writeText text flushNow =>
    refine hunless h fun hx => ?_
    obtain ⟨hopen, hhalted⟩ := active_settle hx
    exact ⟨(Attached.ready_write (Utf8.encode text) flushNow now s.attached).2 hopen, hhalted⟩
  | receive =>
    refine hunless h fun hx => ?_
    obtain ⟨hopen, hhalted⟩ := active_settle hx
    refine ⟨?_, hhalted⟩
    cases hconnected : s.party.link.connected with
    | true => rfl
    | false =>
      rw [Attached.receive_of_closed (a := s.attached) hconnected] at hopen
      exact hconnected.symm.trans hopen
  | setFragmentSize size =>
    refine hunless h fun hx => ((Party.same_setFragmentSize s.party size).active hx).1
  | advanceGeneration => exact hunless h fun hx => (s.party.alike_advance.active hx).1
  | close =>
    replace h : (if s.party.halted then s.setLink { s.party.link with connected := false }
      else s.work now .close).party.Active := h
    split at h
    · exact absurd h (Party.not_active rfl)
    · exact absurd h (Party.not_active (Attached.close_connected s.attached))

theorem Paced.act (h : Paced settings now w s) (op : Pair.Operation)
    (hlater : now.ns ≤ later.ns) :
    Paced settings later (s.observe w (.act op later)) (s.act later op) := by
  by_cases hactive : s.party.Active
  · have hobserve : (s.party.link.connected && !s.party.halted) = true := by
      rw [hactive.1, hactive.2]
      rfl
    have hwork {t : Session σ} {w' : Watch} (ht : Paced settings later w' t) :
        Paced settings later w' (if s.party.halted then s else t) := by
      rw [if_neg (by rw [hactive.2]; exact Bool.false_ne_true)]
      exact ht
    have hmono := h.mono hlater
    rw [observe, if_pos hobserve]
    cases op with
    | read => exact hmono.reads (Link.read_queue _)
    | readInto buffer => exact hmono.reads (Link.readInto_queue _ buffer)
    | readText => exact hmono.reads (Link.readText_queue _)
    | write buffer flushNow => exact hwork (h.write hactive [buffer] buffer flushNow hlater)
    | writeText text flushNow =>
      exact hwork (h.write hactive [Utf8.encode text] (Utf8.encode text) flushNow hlater)
    | receive => exact hwork (h.receive hactive hlater)
    | setFragmentSize size =>
      refine hwork (hmono.alone (x := { s.party with
        link := (s.party.link.setFragmentSize size).2 }) (fun _ => ⟨hactive, ?_⟩) s.channel _)
      rw [Link.setFragmentSize]
      split <;> exact ⟨rfl, rfl, rfl, rfl⟩
    | advanceGeneration =>
      refine hwork (hmono.alone (x := s.party.advance) (fun hx => ⟨hactive, ?_⟩) s.channel _)
      rw [(Party.advance_of_active hx).2]
      exact ⟨rfl, rfl, rfl, rfl⟩
    | close =>
      show Paced settings later w (if s.party.halted then _ else s.work later .close)
      rw [if_neg (by rw [hactive.2]; exact Bool.false_ne_true)]
      exact fun hx => absurd hx (Party.not_active (Attached.close_connected s.attached))
  · exact fun hx => absurd (active_of_act hx) hactive

/-- The rest of a run, whose moments are all later than `now`. -/
theorem Paced.run (es : List Event) (h : Paced settings now w s)
    (hclock : Monotone (clock now es later)) :
    Paced settings later (s.watch w es) (s.run es) := by
  induction es generalizing s w now with
  | nil =>
    have hle := (List.pairwise_cons.mp hclock).1 later (by simp)
    exact h.mono hle
  | cons e es ih =>
    cases e with
    | setLayout layout =>
      refine ih (s := s.step (.setLayout layout)) ?_ hclock
      show Paced settings now w (if s.party.halted then s else _)
      split
      · exact h
      · exact h.alone (x := { s.party with link := s.party.link.setLayout layout })
          (fun hx => ⟨hx, rfl, rfl, rfl, rfl⟩) s.channel s.history
    | act op next =>
      have htail := (List.pairwise_cons.mp hclock).2
      have hle := (List.pairwise_cons.mp hclock).1 next List.mem_cons_self
      exact ih (h.act op hle) htail

/-! ## running out of patience -/

theorem receiveBundles_of_timeout {a : Attached σ} {elapsed : Span}
    (h : (a.receive now).failure = some (.error (.timeout elapsed))) :
    ∃ b, a.link.connected = true ∧
      Attached.receiveBundles now a = .error (.error (.timeout elapsed)) b ∧
      elapsed = now.since a.link.lastProgress ∧ Attached.TimedOut now a b := by
  cases hopen : a.link.connected with
  | false =>
    rw [Attached.receive_of_closed hopen] at h
    cases h
  | true =>
    rw [Attached.receive, if_pos hopen, Attached.failure_settle] at h
    have hclock := Attached.receiveBundles_clock now a
    cases hr : Attached.receiveBundles now a with
    | ok _ b =>
      rw [hr] at h
      cases h
    | error e b =>
      rw [hr] at h hclock
      obtain rfl := Option.some.inj h
      rcases hclock with ⟨io, hio⟩ | hend | ⟨htimeout, hb⟩
      · cases hio
      · cases hend
      · exact ⟨b, rfl, rfl, LinkError.timeout.inj (Failure.error.inj htimeout), hb⟩

/-- In any session of a link on any channel, with any settings and a clock that never goes back, let
a receive fail because it runs out of patience. At that moment, right before the link is closed,
there are bundles outbound, and all inbound bundles that are left are complete: the link waited for
acks, and not for the rest of a bundle. -/
theorem timeout_awaits_acks (id : Nat) (description : String) (settings : Settings)
    (generation : UInt64) (start : Moment) (channel : σ) (es : List Event) (now : Moment)
    (elapsed : Span) (hs : s = (opened id description settings generation start channel).run es)
    (hclock : Monotone (clock start es now)) (hhalted : s.party.halted = false)
    (hfailure : (s.attached.receive now).failure = some (.error (.timeout elapsed))) :
    ∃ b, Attached.receiveBundles now s.attached = .error (.error (.timeout elapsed)) b ∧
      b.link.outbound = s.party.link.outbound ∧ b.link.outbound.isEmpty = false ∧
      ∀ k asm, b.link.inbound.get? k = some asm → asm.complete = true := by
  obtain ⟨b, hopen, hb, -, hout⟩ := receiveBundles_of_timeout hfailure
  have hpaced := (paced_opened id description settings generation start channel).run es hclock
  rw [← hs] at hpaced
  obtain ⟨hcomplete, hempty⟩ := hout.outbound_only (hpaced ⟨hopen, hhalted⟩).timely
  exact ⟨b, hb, hout.outbound, hempty, hcomplete⟩

/-- a moment after the start of the clock, in milliseconds -/
def millis (n : Nat) : Moment := ⟨n * 1000000⟩

/-- a bundle is written, and the peer never answers -/
def forsaken : List Event :=
  [.act (.write [33] true) .start, .act .receive (millis 2000), .act .receive (millis 4000),
    .act .receive (millis 6000)]

/-- the fourth timeout is the last one -/
theorem timeout_awaits_acks_forsaken : ∃ b,
    Attached.receiveBundles (millis 11000)
        ((opened 7 "scripted" {} 1 .start (Script.lone [])).run forsaken).attached =
      .error (.error (.timeout ⟨11000000000⟩)) b ∧ b.link.outbound.isEmpty = false := by
  have hfailure :
      (((opened 7 "scripted" {} 1 .start (Script.lone [])).run forsaken).attached.receive
        (millis 11000)).failure = some (.error (.timeout ⟨11000000000⟩)) := by decide +kernel
  obtain ⟨b, hb, -, hempty, -⟩ := timeout_awaits_acks 7 "scripted" {} 1 .start (Script.lone [])
    forsaken (millis 11000) ⟨11000000000⟩ rfl (by decide) (by decide +kernel) hfailure
  exact ⟨b, hb, hempty⟩

/-- In any such session, let a receive run out of patience. The time without progress that it tells
is the one since the opening, the last fragment or the last write with nothing outbound, whichever
was the latest. This receive counts a timeout, and together with the timeouts counted since then,
and those carried over from before, there are more of them than the settings allow. -/
theorem timeout_counts (id : Nat) (description : String) (settings : Settings)
    (generation : UInt64) (start : Moment) (channel : σ) (es : List Event) (now : Moment)
    (elapsed : Span) (hs : s = (opened id description settings generation start channel).run es)
    (hw : w = (opened id description settings generation start channel).watch ⟨start, 0, 0⟩ es)
    (hclock : Monotone (clock start es now)) (hhalted : s.party.halted = false)
    (hfailure : (s.attached.receive now).failure = some (.error (.timeout elapsed))) :
    elapsed = now.since w.since ∧ s.attached.expires now = true ∧
      settings.maxTimeouts + 1 ≤ w.carried + (w.counted + 1) := by
  obtain ⟨b, hopen, -, helapsed, hout⟩ := receiveBundles_of_timeout hfailure
  have hpaced := (paced_opened id description settings generation start channel).run es hclock
  rw [← hs, ← hw] at hpaced
  have hlink := hpaced ⟨hopen, hhalted⟩
  have hmany := hout.tooMany
  have hcount : s.attached.link.timeouts = w.carried + w.counted := hlink.timeouts
  have hsettings : s.attached.link.settings = settings := hlink.settings
  have hsince : s.attached.link.lastProgress = w.since := hlink.since
  rw [hsettings, hcount] at hmany
  exact ⟨by rw [helapsed, hsince], hout.expires, hmany⟩

/-- The only fragment of a bundle arrives, three timeouts are counted, and the bundle is dropped;
after that a bundle is written. -/
def resumed : List Event :=
  [.act .receive .start, .act .receive (millis 1500), .act .receive (millis 3000),
    .act .receive (millis 4500), .act .receive (millis 6000), .act (.write [33] true) (millis 7000)]

def resuming : Session Script :=
  opened 7 "scripted" {} 1 .start
    (Script.lone (Fragment.wire .plain ⟨9, 1, 1, 2, 0, some [104, 105]⟩))

/-- One timeout after the write is enough, since three are carried over from the bundle that was
dropped before. -/
theorem timeout_counts_resumed :
    ((resuming.run resumed).attached.receive (millis 17500)).failure =
        some (.error (.timeout ⟨10500000000⟩)) ∧
      resuming.watch ⟨.start, 0, 0⟩ resumed = ⟨millis 7000, 0, 3⟩ ∧
      (resuming.run resumed).attached.expires (millis 17500) = true := by
  have hfailure : ((resuming.run resumed).attached.receive (millis 17500)).failure =
      some (.error (.timeout ⟨10500000000⟩)) := by decide +kernel
  have hwatch : resuming.watch ⟨.start, 0, 0⟩ resumed = ⟨millis 7000, 0, 3⟩ := by decide +kernel
  obtain ⟨-, hexpires, -⟩ := timeout_counts 7 "scripted" {} 1 .start
    (Script.lone (Fragment.wire .plain ⟨9, 1, 1, 2, 0, some [104, 105]⟩)) resumed (millis 17500)
    ⟨10500000000⟩ rfl rfl (by decide) (by decide +kernel) hfailure
  exact ⟨hfailure, hwatch, hexpires⟩

end Session

end BundleLink
