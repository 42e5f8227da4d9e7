import BundleLink.Proofs.Session.Chronicle
import BundleLink.Proofs.Session.Steps

/-!
# A peer that falls silent

A link has bundles outbound, and from now on its channel yields nothing: no byte, no end, no
failure. The application may go on writing, reading and changing what can be changed. None of this
moves the last progress, nor does it take timeouts back. So each receive that comes too late either
is the last one, or it has counted a timeout for good.

* `Link.isLate`              the link has waited for longer than it is patient, and for longer than
  the least timeout;
* `Session.isHushed`         a run in which nothing is heard of the peer, and the application does
  not close the link;
* `Session.lateReceives`     how many receives of a run come too late;
* `Link.Awaits`              the invariant, with `Awaits.step` and `Awaits.run`;
* `Session.silence_times_out`  one receive too many is the end of the link.
-/

namespace BundleLink

/-- There was no progress for longer than the link is patient, and than the least timeout. -/
def Link.isLate (l : Link) (now : Moment) : Bool :=
  l.expired now && decide (l.settings.minTimeout.ns < (now.since l.lastProgress).ns)

namespace Attached

variable {σ : Type} {a b : Attached σ} {now : Moment}

/-- the channel has no bytes for the link, but has not ended and does not fail -/
def isMute [Channel σ] (a : Attached σ) : Bool :=
  match a.intake.ended with
  | .ok ended => !ended && a.input.isEmpty
  | .error _ => false

/-- What a receive leaves of a link that heard nothing, before it looks at the clock. -/
structure Unheard (a b : Attached σ) : Prop where
  link : ∃ raw inbound traffic log, b.link =
    { a.link with raw := raw, inbound := inbound, traffic := traffic, log := log }
  raw : b.link.raw = (Wire.scan a.link.layout a.link.raw).2

/-- a receive that hears nothing while bundles are outbound is a look at the clock -/
theorem receiveBundles_unheard [Channel σ] (hmute : a.isMute = true)
    (hquiet : Wire.fragments (Wire.scan a.link.layout a.link.raw).1 = [])
    (hout : a.link.outbound.isEmpty = false) (now : Moment) :
    ∃ b, Unheard a b ∧ receiveBundles now a = checkTimeout now b := by
  rw [isMute] at hmute
  cases hended : a.intake.ended with
  | error e =>
    rw [hended] at hmute
    cases hmute
  | ok ended =>
    rw [hended, Bool.and_eq_true, Bool.not_eq_true', List.isEmpty_iff] at hmute
    obtain ⟨rfl, hinput⟩ := hmute
    have hraw : a.filled.link.raw = a.link.raw := by
      show a.link.raw ++ a.input = _
      rw [hinput, List.append_nil]
    have hpieces : Wire.fragments a.pieces = [] := by
      rw [pieces, hraw]
      exact hquiet
    obtain ⟨log, hlog⟩ := handleAll_quiet hpieces now 0 a.loaded
    rw [receiveBundles_handled hended hlog, conclude]
    generalize hb : purge now _ = b
    have hunheard : Unheard a b := by
      rw [← hb]
      refine ⟨⟨_, _, _, _, rfl⟩, ?_⟩
      show (Wire.scan a.link.layout a.filled.link.raw).2 = _
      rw [hraw]
    obtain ⟨raw, inbound, traffic, log, hlink⟩ := hunheard.link
    have hwaiting : b.link.isWaiting = true := by
      rw [Link.isWaiting, hlink, hout]
      rfl
    dsimp only
    rw [if_neg Bool.false_ne_true, if_neg (Nat.lt_irrefl 0), if_pos hwaiting]
    exact ⟨b, hunheard, rfl⟩

end Attached

/-- The link still waits for the acks that `start` waits for, has counted at least `n` timeouts, and
none of the bytes that it has got so far are a fragment. -/
structure Link.Awaits (l start : Link) (n : Nat) : Prop where
  connected : l.connected = true
  settings : l.settings = start.settings
  gaps : l.gaps = start.gaps
  since : l.lastProgress = start.lastProgress
  outbound : l.outbound.isEmpty = false
  quiet : Wire.fragments (Wire.scan l.layout l.raw).1 = []
  counted : n ≤ l.timeouts

namespace Link.Awaits

variable {start l : Link} {n : Nat}

theorem lag (h : l.Awaits start n) : l.lag = start.lag := by
  rw [Link.lag, Link.meanGap, h.gaps, h.settings]
  rfl

theorem patience (h : l.Awaits start n) : l.patience = start.patience := by
  rw [Link.patience, h.lag, h.settings]
  rfl

theorem isLate (h : l.Awaits start n) (now : Moment) : l.isLate now = start.isLate now := by
  rw [Link.isLate, Link.expired, h.patience, h.settings, h.since]
  rfl

end Link.Awaits

/-- a link for which it may be too late knows its patience -/
theorem Link.exists_patience {l : Link} {now : Moment} (h : l.isLate now = true) :
    ∃ patience, l.patience = .ok patience := by
  rw [isLate, Bool.and_eq_true, expired] at h
  cases hp : l.patience with
  | ok patience => exact ⟨patience, rfl⟩
  | error f =>
    rw [hp] at h
    exact absurd h.1 Bool.false_ne_true

namespace Attached

variable {σ : Type} {a : Attached σ} {start : Link} {patience : Span} {n : Nat}

/-- With a patience and with room for one more timeout, only a look at the clock that is too late
can fail, and it does not unless there were too many. -/
theorem checkTimeout_late (hp : a.link.patience = .ok patience)
    (hroom : a.link.timeouts < Link.maxTimeoutCount) (now : Moment) :
    (checkTimeout now a).Meets
      (fun _ b => ∃ timeouts, a.link.timeouts ≤ timeouts ∧
        b = { a with link := { a.link with timeouts := timeouts } } ∧
        (a.link.isLate now = true →
          timeouts = a.link.timeouts + 1 ∧ timeouts ≤ a.link.settings.maxTimeouts))
      fun e _ => a.link.isLate now = true ∧
        e = .error (.timeout (now.since a.link.lastProgress)) := by
  have hpatience : (a.link.lag >>= fun lag => lag.times a.link.settings.timeoutMultiplier) =
      .ok patience := hp
  have hlate : a.link.isLate now =
      (decide (patience.ns < (now.since a.link.lastProgress).ns) &&
        decide (a.link.settings.minTimeout.ns < (now.since a.link.lastProgress).ns)) := by
    rw [Link.isLate, Link.expired, hp]
  rw [checkTimeout, hpatience]
  dsimp only
  by_cases hle : (now.since a.link.lastProgress).ns ≤ patience.ns
  · rw [decide_eq_false (Nat.not_lt.mpr hle), Bool.false_and] at hlate
    rw [if_pos hle]
    exact ⟨a.link.timeouts, Nat.le_refl _, rfl,
      fun hx => absurd (hlate.symm.trans hx) Bool.false_ne_true⟩
  · rw [decide_eq_true (Nat.lt_of_not_le hle), Bool.true_and] at hlate
    rw [if_neg hle, if_neg (Nat.not_le.mpr hroom)]
    split
    · rename_i hmany
      exact ⟨hlate.trans (decide_eq_true hmany.2), rfl⟩
    · rename_i hfew
      refine ⟨a.link.timeouts + 1, Nat.le_succ _, rfl, fun hx => ⟨rfl, ?_⟩⟩
      exact Nat.not_lt.mp fun hmany => hfew ⟨hmany, of_decide_eq_true (hlate.symm.trans hx)⟩

variable [Channel σ]

/-- A receive that hears nothing: if it comes too late, it fails or counts a timeout, and if it does
not, it takes none back. -/
theorem receiveBundles_awaits (h : a.link.Awaits start n) (hp : start.patience = .ok patience)
    (hmute : a.isMute = true) (hroom : a.link.timeouts < Link.maxTimeoutCount) (now : Moment) :
    (receiveBundles now a).Meets
      (fun _ b => b.link.Awaits start n ∧ (start.isLate now = true →
        b.link.Awaits start (n + 1) ∧ n + 1 ≤ start.settings.maxTimeouts))
      fun e _ => start.isLate now = true ∧
        e = .error (.timeout (now.since a.link.lastProgress)) := by
  obtain ⟨b, ⟨⟨raw, inbound, traffic, log, hlink⟩, hraw⟩, hreceive⟩ :=
    receiveBundles_unheard hmute h.quiet h.outbound now
  have hquiet : Wire.fragments (Wire.scan a.link.layout b.link.raw).1 = [] := by
    rw [hraw]
    exact Wire.fragments_rest h.quiet
  have hcounted := h.counted
  have hb (timeouts m : Nat) (hm : m ≤ timeouts) :
      Link.Awaits { b.link with timeouts := timeouts } start m := by
    rw [hlink] at hquiet ⊢
    exact ⟨h.connected, h.settings, h.gaps, h.since, h.outbound, hquiet, hm⟩
  have hwaits : b.link.Awaits start 0 := hb b.link.timeouts 0 (Nat.zero_le _)
  have hsame : b.link.timeouts = a.link.timeouts := by rw [hlink]
  rw [hreceive]
  refine (checkTimeout_late (hwaits.patience.trans hp) (hsame ▸ hroom) now).imp ?_ ?_
  · rintro _ c ⟨timeouts, hle, rfl, hcount⟩
    rw [hsame] at hle
    refine ⟨hb timeouts n (Nat.le_trans hcounted hle), fun hx => ?_⟩
    obtain ⟨hnext, hfew⟩ := hcount ((hwaits.isLate now).trans hx)
    rw [hsame] at hnext
    rw [hwaits.settings] at hfew
    exact ⟨hb timeouts (n + 1) (by omega), by omega⟩
  · rintro e c ⟨hlate, rfl⟩
    rw [← hwaits.isLate now, hwaits.since, h.since]
    exact ⟨hlate, rfl⟩

/-- A write that is accepted, or refused because of the bundle, changes nothing about the wait. -/
theorem writeBundle_awaits (h : a.link.Awaits start n) (buffer : Bytes) (flushNow : Bool)
    (now : Moment) :
    (writeBundle buffer flushNow now a).Meets (fun _ b => b.link.Awaits start n)
      fun e b => e.Breaks ∨ b = a := by
  refine (writeBundle_issued buffer flushNow now a).imp ?_ fun _ _ hb => hb.2
  rintro _ b ⟨⟨traffic, next, outbound, progress, hb⟩, hout, hprogress⟩
  rw [h.outbound, if_neg Bool.false_ne_true] at hprogress
  replace hprogress := hprogress.trans h.since
  rw [hb] at hout hprogress ⊢
  exact ⟨h.connected, h.settings, h.gaps, hprogress, hout, h.quiet, h.counted⟩

end Attached

namespace Session

variable {σ : Type} {s : Session σ} {start : Link} {patience : Span} {n : Nat}

/-- the result of a write that is accepted, or refused because of the bundle -/
def isVerdict : Option (Failure LinkError) → Bool
  | none | some (.error (.bundle _)) => true
  | _ => false

/-- a receive that comes too late for the link -/
def isLateReceive (l : Link) : Event → Bool
  | .act .receive now => l.isLate now
  | _ => false

/-- how many receives of a run come too late for the link as it is at the start -/
def lateReceives (l : Link) (es : List Event) : Nat := es.countP (isLateReceive l)

theorem lateReceives_cons (n : Nat) (l : Link) (e : Event) (es : List Event) :
    n + lateReceives l (e :: es) =
      n + (if isLateReceive l e then 1 else 0) + lateReceives l es := by
  rw [lateReceives, List.countP_cons, lateReceives]
  omega

variable [Channel σ]

/-- Nothing is heard of the peer, and the application does not close the link. The layout stays,
the channel takes what is written, and no counter is full: there is room for one more timeout, and
a generation to advance to. -/
def isSilent (s : Session σ) : Event → Bool
  | .act (.write buffer flushNow) now => isVerdict (s.attached.write buffer flushNow now).failure
  | .act (.writeText text flushNow) now =>
    isVerdict (s.attached.write (Utf8.encode text) flushNow now).failure
  | .act .receive _ => s.attached.isMute && decide (s.party.link.timeouts < Link.maxTimeoutCount)
  | .act .advanceGeneration _ => decide (s.party.link.generation ≠ Link.lastGeneration)
  | .act .close _ => false
  | .setLayout layout => decide (layout = s.party.link.layout)
  | _ => true

/-- a run in which nothing is heard of the peer, as long as the link is at work -/
def isHushed (s : Session σ) : List Event → Bool
  | [] => true
  | e :: es => (!s.isAtWork || s.isSilent e) && (s.step e).isHushed es

/-! ## the wait goes on -/

/-- The link waits, and no fault has stopped the party. -/
def Awaits (start : Link) (n : Nat) (s : Session σ) : Prop :=
  s.party.link.Awaits start n ∧ s.party.halted = false

omit [Channel σ] in
theorem Awaits.active (h : Awaits start n s) : s.party.Active := ⟨h.1.connected, h.2⟩

omit [Channel σ] in
/-- whatever was counted, the wait is the same -/
theorem Awaits.fresh (h : Awaits start n s) : Awaits start 0 s :=
  ⟨⟨h.1.connected, h.1.settings, h.1.gaps, h.1.since, h.1.outbound, h.1.quiet, Nat.zero_le _⟩, h.2⟩

/-- The receive at this moment comes too late and ends the link. -/
structure GivesUp (now : Moment) (s : Session σ) : Prop where
  late : s.party.link.isLate now = true
  failure : (s.attached.receive now).failure =
    some (.error (.timeout (now.since s.party.link.lastProgress)))
  closed : (s.step (.act .receive now)).party.link.connected = false

theorem Awaits.write (h : Awaits start n s) (buffers : List Bytes) {buffer : Bytes}
    {flushNow : Bool} {now : Moment}
    (hanswer : isVerdict (s.attached.write buffer flushNow now).failure = true) :
    Awaits start n (s.settle buffers [] (s.attached.write buffer flushNow now)) := by
  have hwrite := write_of_active h.active buffer flushNow now
  have hbundle := Attached.writeBundle_awaits (a := s.attached) h.1 buffer flushNow now
  rw [hwrite, Attached.failure_settle] at hanswer
  rw [hwrite]
  generalize Attached.writeBundle buffer flushNow now s.attached = r at hbundle hanswer
  rcases r with ⟨_, b⟩ | ⟨e | e, b⟩
  · exact ⟨hbundle, h.2⟩
  · cases e with
    | bundle e =>
      rcases hbundle with ⟨io, hio⟩ | rfl
      · cases hio
      · exact h
    | _ => cases hanswer
  · cases hanswer

theorem Awaits.receive (h : Awaits start n s) (hp : start.patience = .ok patience) {now : Moment}
    (hsilent : s.isSilent (.act .receive now) = true) :
    (start.isLate now = true ∧ s.GivesUp now) ∨
      (Awaits start n (s.step (.act .receive now)) ∧ (start.isLate now = true →
        Awaits start (n + 1) (s.step (.act .receive now)) ∧
          n + 1 ≤ start.settings.maxTimeouts)) := by
  rw [isSilent, Bool.and_eq_true, decide_eq_true_eq] at hsilent
  have hbundles := Attached.receiveBundles_awaits (a := s.attached) h.1 hp hsilent.1 hsilent.2 now
  have hstep := step_of_active h.active now
  cases hr : Attached.receiveBundles now s.attached with
  | ok _ b =>
    rw [hr] at hbundles hstep
    right
    rw [hstep]
    exact ⟨⟨hbundles.1, h.2⟩, fun hx => ⟨⟨(hbundles.2 hx).1, h.2⟩, (hbundles.2 hx).2⟩⟩
  | error e b =>
    rw [hr] at hbundles hstep
    obtain ⟨hlate, rfl⟩ := hbundles
    refine .inl ⟨hlate, (h.1.isLate now).trans hlate, ?_, ?_⟩
    · rw [receive_of_active h.active, hr, Attached.failure_settle]
      rfl
    · rw [hstep]
      exact Attached.close_connected _

omit [Channel σ] in
/-- operations that touch nothing that the wait is about -/
theorem Awaits.alone (h : Awaits start n s) {x : Party} (hhalted : x.halted = s.party.halted)
    (hsame : ∃ size ready generation, x.link = { s.party.link with
      fragmentSize := size, ready := ready, generation := generation })
    (t : Traced σ) (ds : List Deed) : Awaits start n ⟨x, t, ds⟩ := by
  obtain ⟨size, ready, generation, hlink⟩ := hsame
  refine ⟨?_, hhalted.trans h.2⟩
  show x.link.Awaits start n
  rw [hlink]
  exact ⟨h.1.connected, h.1.settings, h.1.gaps, h.1.since, h.1.outbound, h.1.quiet, h.1.counted⟩

omit [Channel σ] in
theorem Awaits.reads (h : Awaits start n s) {r : Except LinkError (Option Bytes) × Link}
    (hr : ∃ rest, r.2 = { s.party.link with ready := rest }) :
    Awaits start n { s with party := s.party.gets r } := by
  obtain ⟨rest, hrest⟩ := hr
  obtain ⟨hlink, hhalted⟩ := s.party.gets_eq r
  exact h.alone (x := s.party.gets r) hhalted ⟨_, rest, _, hlink.trans hrest⟩ s.channel s.history

/-- In silence, each event is a receive that ends the link, or the wait goes on, with one more
timeout if it was a late receive. -/
theorem Awaits.step (h : Awaits start n s) (hp : start.patience = .ok patience) {e : Event}
    (hsilent : s.isSilent e = true) :
    (∃ now, e = .act .receive now ∧ s.GivesUp now) ∨
      (Awaits start n (s.step e) ∧ (isLateReceive start e = true →
        Awaits start (n + 1) (s.step e) ∧ n + 1 ≤ start.settings.maxTimeouts)) := by
  have hgoes {t : Session σ} (ht : Awaits start n t) :
      Awaits start n (if s.party.halted then s else t) := by
    rw [unless_halted h.active]
    exact ht
  have hearly (hreceive : isLateReceive start e = false) (hnext : Awaits start n (s.step e)) :
      (∃ now, e = .act .receive now ∧ s.GivesUp now) ∨
        (Awaits start n (s.step e) ∧ (isLateReceive start e = true →
          Awaits start (n + 1) (s.step e) ∧ n + 1 ≤ start.settings.maxTimeouts)) := by
    refine .inr ⟨hnext, fun hlate => ?_⟩
    rw [hreceive] at hlate
    cases hlate
  cases e with
  | setLayout layout =>
    obtain rfl : layout = s.party.link.layout := of_decide_eq_true hsilent
    exact hearly rfl (hgoes h)
  | act op now =>
    cases op with
    | receive =>
      rcases h.receive hp hsilent with hends | hgoes
      · exact .inl ⟨now, rfl, hends.2⟩
      · exact .inr hgoes
    | write buffer flushNow => exact hearly rfl (hgoes (h.write [buffer] hsilent))
    | writeText text flushNow => exact hearly rfl (hgoes (h.write [Utf8.encode text] hsilent))
    | read => exact hearly rfl (h.reads (Link.read_queue _))
    | readInto buffer => exact hearly rfl (h.reads (Link.readInto_queue _ buffer))
    | readText => exact hearly rfl (h.reads (Link.readText_queue _))
    | setFragmentSize size =>
      refine hearly rfl (hgoes (h.alone (x := { s.party with
        link := (s.party.link.setFragmentSize size).2 }) rfl ?_ s.channel s.history))
      rw [Link.setFragmentSize]
      split <;> exact ⟨_, _, _, rfl⟩
    | advanceGeneration =>
      have hnext : s.party.advance = { s.party with
          link := { s.party.link with generation := s.party.link.generation + 1 } } :=
        Party.advance_of_ne (of_decide_eq_true hsilent)
      refine hearly rfl (hgoes (h.alone (x := s.party.advance) ?_ ?_ s.channel s.history))
      · rw [hnext]
      · rw [hnext]
        exact ⟨_, _, _, rfl⟩
    | close => cases hsilent

/-! ## the end of the wait -/

/-- A run in silence that waits from the start, where `n` timeouts were counted before. -/
theorem Awaits.run (es : List Event) (h : Awaits start n s) (hp : start.patience = .ok patience)
    (hfew : n ≤ start.settings.maxTimeouts) (hhushed : s.isHushed es = true)
    (hmany : start.settings.maxTimeouts < n + lateReceives start es) :
    ∃ before now after, es = before ++ .act .receive now :: after ∧ (s.run before).GivesUp now ∧
      n + lateReceives start before ≤ start.settings.maxTimeouts ∧
      ∀ past, past <+: before → Awaits start 0 (s.run past) := by
  have hhere := h.fresh
  induction es generalizing s n with
  | nil => exact absurd hmany (Nat.not_lt.mpr hfew)
  | cons e es ih =>
    rw [isHushed, isAtWork_iff.mpr h.active, Bool.not_true, Bool.false_or,
      Bool.and_eq_true] at hhushed
    rcases h.step hp hhushed.1 with ⟨now, rfl, hends⟩ | ⟨hgoes, hlate⟩
    · refine ⟨[], now, es, rfl, hends, hfew, fun past hpast => ?_⟩
      rw [List.prefix_nil.mp hpast]
      exact hhere
    · obtain ⟨hnext, hroom⟩ :
          Awaits start (n + if isLateReceive start e then 1 else 0) (s.step e) ∧
            n + (if isLateReceive start e then 1 else 0) ≤ start.settings.maxTimeouts := by
        split
        · rename_i hx
          exact hlate hx
        · exact ⟨hgoes, hfew⟩
      rw [lateReceives_cons] at hmany
      obtain ⟨before, now, after, rfl, hends, hcount, hwaits⟩ :=
        ih hnext hroom hhushed.2 hmany hnext.fresh
      refine ⟨e :: before, now, after, rfl, hends, ?_, fun past hpast => ?_⟩
      · rw [lateReceives_cons]
        exact hcount
      · cases past with
        | nil => exact hhere
        | cons e' past =>
          obtain ⟨rfl, hrest⟩ := List.cons_prefix_cons.mp hpast
          exact hwaits past hrest

/-- In any state of a session in which the link is at work, let bundles be outbound, and let no
fragment be among the bytes that were read but not taken apart. Then let nothing be heard of the
peer, whatever else the application does but close the link. Among the first receives that come too
late, one more than the timeouts that the settings allow, there is one that fails because the link
ran out of patience, and the link is closed. Until then the last progress and the lag stay what they
were. -/
theorem silence_times_out (s : Session σ) (es : List Event) (hactive : s.party.Active)
    (hout : s.party.link.outbound.isEmpty = false)
    (hquiet : Wire.fragments (Wire.scan s.party.link.layout s.party.link.raw).1 = [])
    (hhushed : s.isHushed es = true)
    (hmany : s.party.link.settings.maxTimeouts < lateReceives s.party.link es) :
    ∃ before now after, es = before ++ .act .receive now :: after ∧ (s.run before).GivesUp now ∧
      lateReceives s.party.link before ≤ s.party.link.settings.maxTimeouts ∧
      ∀ past, past <+: before →
        (s.run past).party.link.lastProgress = s.party.link.lastProgress ∧
          (s.run past).party.link.lag = s.party.link.lag := by
  have hwaits : Awaits s.party.link 0 s :=
    ⟨⟨hactive.1, rfl, rfl, rfl, hout, hquiet, Nat.zero_le _⟩, hactive.2⟩
  obtain ⟨e, -, hlate⟩ := List.countP_pos_iff.mp (Nat.zero_lt_of_lt hmany)
  obtain ⟨patience, hp⟩ : ∃ patience, s.party.link.patience = .ok patience := by
    rw [isLateReceive.eq_def] at hlate
    split at hlate
    · exact Link.exists_patience hlate
    · cases hlate
  obtain ⟨before, now, after, hes, hends, hcount, hpast⟩ :=
    hwaits.run es hp (Nat.zero_le _) hhushed (by rwa [Nat.zero_add])
  rw [Nat.zero_add] at hcount
  exact ⟨before, now, after, hes, hends, hcount,
    fun past hprefix => ⟨(hpast past hprefix).1.since, (hpast past hprefix).1.lag⟩⟩

/-- a link that wrote a bundle to a peer of which it has the start of a fragment -/
def forlorn : Session Script :=
  (opened 7 "scripted" {} 1 .start (Script.lone magic)).run
    [.act (.write [33] true) .start, .act .receive .start]

/-- four late receives, between which the application writes, reads and changes what it can -/
def unheeded : List Event :=
  [.act (.write [34] true) (millis 500), .act .receive (millis 2000),
    .act .receive (millis 11000), .act (.writeText "x" false) (millis 11500),
    .act (.setFragmentSize 0) (millis 11500), .act .receive (millis 12000),
    .act .read (millis 12000), .act .advanceGeneration (millis 12000),
    .act .receive (millis 13000), .act .receive (millis 14000)]

/-- An early receive counts a timeout as well, so the third late one is the last. -/
theorem silence_times_out_forlorn :
    forlorn.party.link.raw = magic ∧ lateReceives forlorn.party.link unheeded = 4 ∧
      ∃ before now after, unheeded = before ++ .act .receive now :: after ∧
        (forlorn.run before).GivesUp now := by
  have hlate : lateReceives forlorn.party.link unheeded = 4 := by decide +kernel
  have hmany : forlorn.party.link.settings.maxTimeouts <
      lateReceives forlorn.party.link unheeded := by
    rw [hlate]
    decide +kernel
  obtain ⟨before, now, after, hes, hends, -⟩ := silence_times_out forlorn unheeded
    ⟨by decide +kernel, by decide +kernel⟩ (by decide +kernel) (by decide +kernel)
    (by decide +kernel) hmany
  exact ⟨by decide +kernel, hlate, before, now, after, hes, hends⟩

end Session

end BundleLink
