import BundleLink.Proofs.Reassembly.Still
import BundleLink.Proofs.Turns

/-!
# Waiting for progress

A link knows two kinds of moments: when it last made progress, and for each bundle under assembly
when a fragment was last added to it. Every fragment is progress, so no bundle under assembly is
younger than the last progress. This is why a link that has nothing outbound never runs out of
patience: a bundle that it would wait for is dropped before.

* `Link.Timely`             the moments that a link knows are in this order;
* `Link.expired`            its patience is over;
* `Attached.hears`, `Attached.expires`  the fragments that a receive extracts, and whether it counts
  a timeout;
* `Attached.TimedOut`       how a receive that runs out of patience leaves the link;
* `Attached.receiveBundles_clock`  what any receive does to moments and to the count of timeouts;
* `TimedOut.outbound_only`  a link that runs out of patience waits for acks only.
-/

namespace BundleLink

namespace Link

variable {l l' : Link} {now later : Moment}

/-- The last progress is over, and no fragment was added to an unfinished bundle after it. -/
structure Timely (now : Moment) (l : Link) : Prop where
  progress_le : l.lastProgress.ns ≤ now.ns
  arrival_le : ∀ k asm, l.inbound.get? k = some asm → asm.complete = false →
    asm.lastArrival.ns ≤ l.lastProgress.ns

theorem Timely.mono (h : l.Timely now) (hlater : now.ns ≤ later.ns) : l.Timely later :=
  ⟨Nat.le_trans h.progress_le hlater, h.arrival_le⟩

/-- entries may go while time goes by -/
theorem Timely.congr (h : l.Timely now) (hprogress : l'.lastProgress = l.lastProgress)
    (hentries : ∀ k asm, l'.inbound.get? k = some asm → l.inbound.get? k = some asm) :
    l'.Timely now := by
  refine ⟨by rw [hprogress]; exact h.progress_le, fun k asm hk hopen => ?_⟩
  rw [hprogress]
  exact h.arrival_le k asm (hentries k asm hk) hopen

/-- there was no progress for longer than the link is patient -/
def expired (l : Link) (now : Moment) : Bool :=
  match l.patience with
  | .ok patience => decide (patience.ns < (now.since l.lastProgress).ns)
  | .error _ => false

/-- a link that waits with nothing outbound waits for a bundle under assembly -/
theorem exists_unfinished (hwaiting : l.isWaiting = true) (houtbound : l.outbound.isEmpty = true) :
    ∃ k asm, l.inbound.get? k = some asm ∧ asm.complete = false := by
  rw [isWaiting, houtbound, Bool.not_true, Bool.false_or, List.any_eq_true] at hwaiting
  obtain ⟨⟨k, asm⟩, hmem, hopen⟩ := hwaiting
  exact ⟨k, asm, Table.get?_of_mem hmem, by simpa using hopen⟩

end Link

namespace Attached

variable {σ : Type} {a b : Attached σ} {now : Moment}

/-! ## handling -/

/-- the assembly under way of a key is as old as before, or a fragment was just added to it -/
theorem Turn.lastArrival {layout : Layout} {f : Fragment} {o o' : Option Assembly}
    {bundle : Option Bytes} (h : Turn layout f now o o' bundle) {asm : Assembly}
    (hasm : o' = some asm) (hopen : asm.complete = false) :
    asm.lastArrival = now ∨
      ∃ asm', o = some asm' ∧ asm'.complete = false ∧ asm.lastArrival = asm'.lastArrival := by
  cases h with
  | passed => exact .inr ⟨asm, hasm, hopen, rfl⟩
  | dropped => cases hasm
  | doubled asm' b hopen' hinserted =>
    cases hasm
    exact .inr ⟨asm', rfl, hopen', (Assembly.insert_duplicate hinserted).2.2.2⟩
  | added deadline =>
    cases hasm
    exact .inl rfl
  | finished kept bundle hbegins hpart hinserted hcollected hjoined hcomplete =>
    cases hasm
    rw [hcomplete] at hopen
    cases hopen

theorem Turned.timely {f : Fragment} {bundle : Option Bytes}
    (h : Turned f now (a.link.inbound.get? f.key) bundle a b) (ha : a.link.Timely now)
    (hnow : a.link.lastProgress = now) : b.link.Timely now := by
  have hprogress : b.link.lastProgress = a.link.lastProgress := by
    have hcore := congrArg Link.lastProgress h.core
    exact hcore
  refine ⟨by rw [hprogress]; exact ha.progress_le, fun k asm hget hopen => ?_⟩
  rw [hprogress]
  by_cases hk : k = f.key
  · subst hk
    rcases h.turn.lastArrival hget hopen with hlast | ⟨asm', hasm', hopen', hlast⟩
    · exact Nat.le_of_eq (by rw [hlast, hnow])
    · rw [hlast]
      exact ha.arrival_le f.key asm' hasm' hopen'
  · rw [h.others k hk] at hget
    exact ha.arrival_le k asm hget hopen

theorem timely_arrived (h : a.link.Timely now) : (a.arrived now).link.Timely now :=
  ⟨Nat.le_refl _, fun k asm hget hopen =>
    Nat.le_trans (h.arrival_le k asm hget hopen) h.progress_le⟩

variable [Channel σ]

/-- Pieces with the fragments `fs` were handled on the way from `a` to `b`. -/
structure Clocked (now : Moment) (fs : List Fragment) (a b : Attached σ) : Prop where
  settings : b.link.settings = a.link.settings
  timeouts : b.link.timeouts = a.link.timeouts
  lastProgress : b.link.lastProgress = if fs = [] then a.link.lastProgress else now
  timely : a.link.Timely now → b.link.Timely now

theorem handle_clocked (f : Fragment) (now : Moment) (a : Attached σ) :
    (handle f now (a.arrived now)).Meets (fun _ b => Clocked now [f] a b)
      fun e _ => e.Breaks := by
  refine Outcome.Meets.imp (handle_turns f now (a.arrived now)) ?_ fun e b hb => hb.breaks
  rintro _ b ⟨bundle, hturned⟩
  have hsettings := congrArg Link.settings hturned.core
  have htimeouts := congrArg Link.timeouts hturned.core
  have hprogress := congrArg Link.lastProgress hturned.core
  exact ⟨hsettings, htimeouts, hprogress, fun ha => hturned.timely (timely_arrived ha) rfl⟩

theorem handleAll_clocked (now : Moment) (ps : List Wire.Piece) (count : Nat) (a : Attached σ) :
    (handleAll now count ps a).Meets
      (fun m b => m = count + (Wire.fragments ps).length ∧ Clocked now (Wire.fragments ps) a b)
      fun e _ => e.Breaks := by
  induction ps generalizing count a with
  | nil => exact ⟨rfl, rfl, rfl, rfl, id⟩
  | cons p ps ih =>
    cases p with
    | skipped size flaw =>
      refine (ih count (a.warn (.dropped size a.link.description flaw))).imp ?_ fun _ _ hb => hb
      rintro m b ⟨hm, hb⟩
      exact ⟨hm, hb.settings, hb.timeouts, hb.lastProgress,
        fun ha => hb.timely (ha.congr rfl fun _ _ hk => hk)⟩
    | fragment f size =>
      have hone := handle_clocked f now a
      have hfs : Wire.fragments (.fragment f size :: ps) = f :: Wire.fragments ps := rfl
      rw [handleAll, hfs]
      generalize handle f now (a.arrived now) = r at hone
      cases r with
      | error e b => exact hone
      | ok _ b =>
        have hb : Clocked now [f] a b := hone
        refine (ih (count + 1) b).imp ?_ fun _ _ hc => hc
        rintro m c ⟨hm, hc⟩
        refine ⟨?_, hc.settings.trans hb.settings, hc.timeouts.trans hb.timeouts, ?_,
          fun ha => hc.timely (hb.timely ha)⟩
        · rw [hm, List.length_cons]
          omega
        · rw [hc.lastProgress, hb.lastProgress]
          simp

/-- malformed bytes alone leave warnings behind, and nothing else -/
theorem handleAll_quiet {ps : List Wire.Piece} (h : Wire.fragments ps = []) (now : Moment)
    (count : Nat) (a : Attached σ) :
    ∃ log, handleAll now count ps a = .ok count { a with link := { a.link with log := log } } := by
  induction ps generalizing a with
  | nil => exact ⟨a.link.log, rfl⟩
  | cons p ps ih =>
    cases p with
    | skipped size flaw => exact ih h (a.warn (.dropped size a.link.description flaw))
    | fragment f size => cases h

/-! ## the look at the clock -/

omit [Channel σ] in
theorem checkTimeout_cases (now : Moment) (a : Attached σ) :
    (checkTimeout now a).Meets
      (fun _ b => b = { a with
        link := { a.link with
          timeouts := if a.link.expired now then a.link.timeouts + 1 else a.link.timeouts } })
      fun e b => (∃ f, e = .fault f) ∨
        (e = .error (.timeout (now.since a.link.lastProgress)) ∧ a.link.expired now = true ∧
          b = { a with link := { a.link with timeouts := a.link.timeouts + 1 } } ∧
          a.link.settings.maxTimeouts < a.link.timeouts + 1 ∧
          a.link.settings.minTimeout.ns < (now.since a.link.lastProgress).ns) := by
  have hpatience : (a.link.lag >>= fun lag => lag.times a.link.settings.timeoutMultiplier) =
      a.link.patience := rfl
  rw [checkTimeout, hpatience]
  cases hp : a.link.patience with
  | error f => exact .inl ⟨f, rfl⟩
  | ok patience =>
    have hexpired : a.link.expired now =
        decide (patience.ns < (now.since a.link.lastProgress).ns) := by rw [Link.expired, hp]
    dsimp only
    by_cases hle : (now.since a.link.lastProgress).ns ≤ patience.ns
    · rw [decide_eq_false (Nat.not_lt.mpr hle)] at hexpired
      rw [if_pos hle, hexpired]
      rfl
    · rw [decide_eq_true (Nat.lt_of_not_le hle)] at hexpired
      rw [if_neg hle, hexpired]
      split
      · exact .inl ⟨_, rfl⟩
      · split
        · rename_i hfatal
          exact .inr ⟨rfl, rfl, rfl, hfatal⟩
        · rfl

/-! ## one receive -/

/-- the fragments that a receive extracts -/
def hears (a : Attached σ) : List Fragment :=
  match a.intake.ended with
  | .ok _ => Wire.fragments a.pieces
  | .error _ => []

/-- A receive extracts no fragment, waits for something all the same, and has done so for longer
than the link is patient. -/
def expires (now : Moment) (a : Attached σ) : Bool :=
  match a.intake.ended with
  | .ok false =>
    a.hears.isEmpty && (a.loaded.purge now).link.isWaiting && (a.loaded.purge now).link.expired now
  | _ => false

/-- From `a` to `b` a receive ran out of patience: `b` is the link right before it is closed. -/
structure TimedOut (now : Moment) (a b : Attached σ) : Prop where
  hears : a.hears = []
  expires : a.expires now = true
  outbound : b.link.outbound = a.link.outbound
  inbound : ∀ k, b.link.inbound.get? k =
    (a.link.inbound.get? k).filter fun asm => !isOverdue a.link.settings now asm
  waiting : b.link.isWaiting = true
  tooMany : a.link.settings.maxTimeouts < a.link.timeouts + 1
  tooLong : a.link.settings.minTimeout.ns < (now.since a.link.lastProgress).ns

/-- the timeouts counted after a receive that succeeds -/
def timeoutsAfter (now : Moment) (a : Attached σ) : Nat :=
  if a.hears = [] then (if a.expires now then a.link.timeouts + 1 else a.link.timeouts) else 0

/-- What a receive leaves of the moments that the link knows, and of its count of timeouts. -/
structure Watched (now : Moment) (a b : Attached σ) : Prop where
  settings : b.link.settings = a.link.settings
  timeouts : b.link.timeouts = a.timeoutsAfter now
  lastProgress : b.link.lastProgress = if a.hears = [] then a.link.lastProgress else now
  timely : a.link.Timely now → b.link.Timely now

omit [Channel σ] in
theorem conclude_heard {ended : Bool} {count : Nat} (hcount : 0 < count) (now : Moment)
    (a : Attached σ) : (conclude now ended count a).Meets
      (fun _ b => b = { a.purge now with link := { (a.purge now).link with timeouts := 0 } })
      fun e _ => e = .error .endOfStream := by
  rw [conclude]
  cases ended with
  | true => rfl
  | false =>
    dsimp only
    rw [if_neg Bool.false_ne_true, if_pos hcount]
    rfl

/-- What a receive makes of its look at the clock if it extracted nothing. -/
theorem conclude_quiet {b : Attached σ} {log : List Warning} (hquiet : a.hears = [])
    {ended : Bool} (hended : a.intake.ended = .ok ended)
    (hb : b = { a.loaded with link := { a.loaded.link with log := log } }) (now : Moment) :
    (conclude now ended 0 b).Meets (fun _ c => Watched now a c)
      fun e c => e.Breaks ∨ e = .error .endOfStream ∨
        (e = .error (.timeout (now.since a.link.lastProgress)) ∧ TimedOut now a c) := by
  have hsame (timeouts : Nat) (htimeouts : timeouts = a.timeoutsAfter now) : Watched now a
      { b.purge now with link := { (b.purge now).link with timeouts := timeouts } } := by
    subst hb
    refine ⟨rfl, htimeouts, ?_, fun ha => ha.congr rfl fun k asm hk => ?_⟩
    · rw [if_pos hquiet]
      rfl
    · exact (Option.filter_eq_some_iff.mp ((purged_purge now a 0).inbound k ▸ hk)).1
  have htimeouts : (b.purge now).link.timeouts = a.link.timeouts := by rw [hb]; rfl
  rw [conclude]
  cases ended with
  | true => exact .inr (.inl rfl)
  | false =>
    have hexpires : a.expires now =
        ((b.purge now).link.isWaiting && (b.purge now).link.expired now) := by
      rw [expires, hended, hquiet, hb]
      rfl
    dsimp only
    rw [if_neg Bool.false_ne_true, if_neg (Nat.lt_irrefl 0)]
    cases hwaiting : (b.purge now).link.isWaiting with
    | false =>
      rw [hwaiting, Bool.false_and] at hexpires
      rw [if_neg Bool.false_ne_true]
      exact hsame (b.purge now).link.timeouts
        (by rw [timeoutsAfter, if_pos hquiet, hexpires, htimeouts]; rfl)
    | true =>
      rw [hwaiting, Bool.true_and] at hexpires
      rw [if_pos rfl]
      refine (checkTimeout_cases now (b.purge now)).imp ?_ ?_
      · rintro _ c rfl
        exact hsame _ (by rw [timeoutsAfter, if_pos hquiet, hexpires, htimeouts])
      · rintro e c (⟨f, rfl⟩ | ⟨rfl, hexpired, rfl, hmany, hlong⟩)
        · exact .inl trivial
        · right; right
          subst hb
          exact ⟨rfl, hquiet, hexpires.trans hexpired, rfl, (purged_purge now a 0).inbound,
            hwaiting, hmany, hlong⟩

/-- Any receive: it succeeds, or the channel or a fault breaks it, or it reaches the end of the
stream, or it runs out of patience. -/
theorem receiveBundles_clock (now : Moment) (a : Attached σ) :
    (receiveBundles now a).Meets (fun _ b => Watched now a b)
      fun e b => e.Breaks ∨ e = .error .endOfStream ∨
        (e = .error (.timeout (now.since a.link.lastProgress)) ∧ TimedOut now a b) := by
  cases hended : a.intake.ended with
  | error e =>
    rw [receiveBundles_failed hended]
    exact .inl ⟨e, rfl⟩
  | ok ended =>
    have hhears : a.hears = Wire.fragments a.pieces := by rw [hears, hended]
    by_cases hquiet : a.hears = []
    · obtain ⟨log, hlog⟩ := handleAll_quiet (hhears.symm.trans hquiet) now 0 a.loaded
      rw [receiveBundles_handled hended hlog]
      exact conclude_quiet hquiet hended rfl now
    · have hall := handleAll_clocked now a.pieces 0 a.loaded
      rw [← hhears] at hall
      cases hr : handleAll now 0 a.pieces a.loaded with
      | error e b =>
        rw [hr] at hall
        rw [receiveBundles_broken hended hr]
        exact .inl hall
      | ok count b =>
        rw [hr] at hall
        rw [receiveBundles_handled hended hr]
        obtain ⟨rfl, hb⟩ := hall
        have hcount : 0 < 0 + a.hears.length := by
          have := List.length_pos_iff.mpr hquiet
          omega
        refine (conclude_heard hcount now b).imp ?_ fun e c he => .inr (.inl he)
        rintro _ c rfl
        refine ⟨hb.settings, ?_, ?_, fun ha => ?_⟩
        · rw [timeoutsAfter, if_neg hquiet]
        · have hprogress := hb.lastProgress
          rw [if_neg hquiet] at hprogress ⊢
          exact hprogress
        · have hloaded : a.loaded.link.Timely now := ha.congr rfl fun _ _ hk => hk
          refine (hb.timely hloaded).congr rfl fun k asm hk => ?_
          exact (Option.filter_eq_some_iff.mp ((purged_purge now b 0).inbound k ▸ hk)).1

omit [Channel σ] in
theorem since_le_since (now : Moment) {earlier later : Moment} (h : earlier.ns ≤ later.ns) :
    (now.since later).ns ≤ (now.since earlier).ns := Nat.sub_le_sub_left h now.ns

/-- A receive that runs out of patience waits for acks only: unfinished bundles that are not
overdue yet got a fragment less than half the least timeout ago, and that was progress. -/
theorem TimedOut.outbound_only (h : TimedOut now a b) (ha : a.link.Timely now) :
    (∀ k asm, b.link.inbound.get? k = some asm → asm.complete = true) ∧
      b.link.outbound.isEmpty = false := by
  have hcomplete (k : Key) (asm : Assembly) (hk : b.link.inbound.get? k = some asm) :
      asm.complete = true := by
    rw [h.inbound, Option.filter_eq_some_iff] at hk
    obtain ⟨hget, hkept⟩ := hk
    cases hopen : asm.complete with
    | true => rfl
    | false =>
      have holder := since_le_since now (ha.arrival_le k asm hget hopen)
      have hlong := h.tooLong
      have hhalf : a.link.settings.minTimeout.half.ns = a.link.settings.minTimeout.ns / 2 := rfl
      rw [isOverdue, if_neg (by rw [hopen]; exact Bool.false_ne_true), Bool.not_eq_true',
        decide_eq_false_iff_not] at hkept
      omega
  refine ⟨hcomplete, ?_⟩
  cases hempty : b.link.outbound.isEmpty with
  | false => rfl
  | true =>
    obtain ⟨k, asm, hk, hopen⟩ := Link.exists_unfinished h.waiting hempty
    rw [hcomplete k asm hk] at hopen
    cases hopen

end Attached

end BundleLink
