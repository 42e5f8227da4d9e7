import BundleLink.Proofs.Handling

/-!
# A clock that does not move

While time stands still, the gaps between arrivals are zero, so the lag that is assumed only depends
on how many fragments have arrived. Deadlines lie in the future, nothing is overdue and no timeout
is counted, provided that no deadline is too late for the clock.

* `Link.frame`         what neither handling nor reading fragments changes;
* `Link.stilled l n`   the link with `n` more gaps of length zero;
* `Link.Calm`          no deadline and no patience of such a link is beyond the limits, which has to
  be looked at for some gaps only, once these repeat themselves (`Link.calm_of_period`);
* `Link.Still`         what a link has in common with the one at the start;
* `Still.deadline`, `Still.patience`  these can be computed, and deadlines lie in the future.
-/

namespace BundleLink

deriving instance DecidableEq for Window

/-- the window after `n` values of zero seconds -/
def Window.stilled (w : Window Float) : Nat → Window Float
  | 0 => w
  | n + 1 => (w.stilled n).add Span.zero.toSeconds

/-- a window that comes back after `period` more values only takes on finitely many states -/
theorem Window.stilled_of_period {w : Window Float} {first period : Nat} (hperiod : 0 < period)
    (h : w.stilled (first + period) = w.stilled first) (n : Nat) :
    ∃ m, m ≤ first + period ∧ w.stilled n = w.stilled m := by
  induction n with
  | zero => exact ⟨0, Nat.zero_le _, rfl⟩
  | succ n ih =>
    obtain ⟨m, hm, hsame⟩ := ih
    rcases Nat.lt_or_eq_of_le hm with hlt | rfl
    · exact ⟨m + 1, hlt, by rw [Window.stilled, hsame]; rfl⟩
    · exact ⟨first + 1, Nat.add_le_add_left hperiod first, by rw [Window.stilled, hsame, h]; rfl⟩

namespace Link

/-- the link without its bundles, its raw bytes and the number of its timeouts -/
def frame (l : Link) : Link := { l.core with raw := [], timeouts := 0 }

def stilled (l : Link) (n : Nat) : Link := { l with gaps := l.gaps.stilled n }

/-- how long a link waits for progress before it counts a timeout -/
def patience (l : Link) : Except Fault Span :=
  l.lag >>= fun lag => lag.times l.settings.timeoutMultiplier

/-- With this lag no deadline of a bundle and no patience is beyond the limits. -/
def Bearable (l : Link) (now : Moment) (lag : Span) : Prop :=
  lag.ns * (Fragment.maxCount + 1) < Span.limit ∧
    lag.ns * l.settings.timeoutMultiplier < Span.limit ∧
    now.ns + lag.ns * (Fragment.maxCount + 1) < Moment.limit

instance (l : Link) (now : Moment) (lag : Span) : Decidable (l.Bearable now lag) :=
  inferInstanceAs (Decidable (_ ∧ _))

/-- the lags that are assumed while `count` fragments arrive -/
def Calm (l : Link) (now : Moment) (count : Nat) : Prop :=
  ∀ n, n ≤ count → ∃ lag, (l.stilled n).lag = .ok lag ∧ l.Bearable now lag

instance (l : Link) (now : Moment) (count : Nat) : Decidable (l.Calm now count) :=
  have (n : Nat) : Decidable (∃ lag, (l.stilled n).lag = .ok lag ∧ l.Bearable now lag) :=
    match (l.stilled n).lag with
    | .ok lag =>
      if hb : l.Bearable now lag then isTrue ⟨lag, rfl, hb⟩
      else isFalse fun ⟨_, hlag, hb'⟩ => hb (Except.ok.inj hlag ▸ hb')
    | .error _ => isFalse fun ⟨_, hlag, _⟩ => nomatch hlag
  inferInstanceAs (Decidable (∀ n, n ≤ count → _))

/-- the lags of a link whose gaps come back are known once and for all -/
theorem calm_of_period {l : Link} {now : Moment} (first period : Nat) (hperiod : 0 < period)
    (h : l.gaps.stilled (first + period) = l.gaps.stilled first)
    (hcalm : l.Calm now (first + period)) (count : Nat) : l.Calm now count := by
  intro n _
  obtain ⟨m, hm, hsame⟩ := Window.stilled_of_period hperiod h n
  rw [stilled, hsame]
  exact hcalm m hm

theorem lag_congr {l l' : Link} (hsettings : l'.settings = l.settings) (hgaps : l'.gaps = l.gaps) :
    l'.lag = l.lag := by
  rw [lag, lag, meanGap, meanGap, hsettings, hgaps]

/-- Settings and gaps are all that counts, and fewer fragments lead to fewer lags. -/
theorem Calm.congr {l l' : Link} {now : Moment} {count fewer : Nat} (h : l.Calm now count)
    (hsettings : l'.settings = l.settings) (hgaps : l'.gaps = l.gaps) (hfewer : fewer ≤ count) :
    l'.Calm now fewer := by
  intro n hn
  obtain ⟨lag, hlag, hbearable⟩ := h n (Nat.le_trans hn hfewer)
  have hstilled : (l'.stilled n).lag = (l.stilled n).lag := by
    have hsame : (l'.stilled n).gaps = (l.stilled n).gaps := by
      rw [stilled, stilled, hgaps]
    have hsettled : (l'.stilled n).settings = (l.stilled n).settings := hsettings
    exact lag_congr hsettled hsame
  refine ⟨lag, hstilled.trans hlag, ?_⟩
  rw [Bearable, hsettings]
  exact hbearable

/-- The link came from `start` while the clock stood at `now` and at most `count` fragments
arrived. -/
structure Still (start : Link) (now : Moment) (count : Nat) (l : Link) : Prop where
  settings : l.settings = start.settings
  gaps : ∃ n, n ≤ count ∧ l.gaps = start.gaps.stilled n
  arrival : ∀ t, l.lastArrival = some t → t = now
  progress : l.lastProgress = now

variable {start l l' : Link} {now : Moment} {count limit : Nat}

theorem Still.congr (h : Still start now count l) (hframe : l'.frame = l.frame) :
    Still start now count l' := by
  have hsettings := congrArg Link.settings hframe
  have hgaps := congrArg Link.gaps hframe
  have harrival := congrArg Link.lastArrival hframe
  have hprogress := congrArg Link.lastProgress hframe
  refine ⟨Eq.trans hsettings h.settings, ?_, ?_, Eq.trans hprogress h.progress⟩
  · obtain ⟨n, hn, hstilled⟩ := h.gaps
    exact ⟨n, hn, Eq.trans hgaps hstilled⟩
  · intro t ht
    exact h.arrival t (Eq.trans harrival.symm ht)

/-- the lag is that of the start after some gaps of length zero -/
theorem Still.lag (h : Still start now count l) :
    ∃ n, n ≤ count ∧ l.lag = (start.stilled n).lag := by
  obtain ⟨n, hn, hgaps⟩ := h.gaps
  exact ⟨n, hn, lag_congr (l := start.stilled n) h.settings hgaps⟩

/-- the least lag is positive, so deadlines lie in the future -/
theorem lt_deadline {count : Nat} {d : Moment} (hmin : 0 < l.settings.minLag.ns)
    (h : l.deadline now count = .ok d) : now.ns < d.ns := by
  rw [deadline, Link.lag] at h
  cases hspan : Span.ofSeconds? l.meanGap with
  | error e =>
    rw [hspan] at h
    cases h
  | ok span =>
    rw [hspan] at h
    replace h : ((span.max l.settings.minLag).times (max count leastRemaining) >>= now.add) =
      .ok d := h
    rw [Span.times] at h
    split at h
    · replace h : now.add ⟨(span.max l.settings.minLag).ns * max count leastRemaining⟩ = .ok d := h
      rw [Moment.add] at h
      split at h
      · cases h
        have hlag : 0 < (span.max l.settings.minLag).ns :=
          Nat.lt_of_lt_of_le hmin (Nat.le_max_right _ _)
        have hcount : 0 < max count leastRemaining :=
          Nat.lt_of_lt_of_le (by decide) (Nat.le_max_right _ _)
        exact Nat.lt_add_of_pos_right (Nat.mul_pos hlag hcount)
      · cases h
    · cases h

/-- with a lag that leaves room for as many fragments as there can be -/
theorem exists_deadline {lag : Span} (hlag : l.lag = .ok lag)
    (hspan : lag.ns * (Fragment.maxCount + 1) < Span.limit)
    (hmoment : now.ns + lag.ns * (Fragment.maxCount + 1) < Moment.limit) {missing : Nat}
    (hmissing : missing ≤ Fragment.maxCount + 1) : ∃ d, l.deadline now missing = .ok d := by
  have hwait : lag.ns * max missing leastRemaining ≤ lag.ns * (Fragment.maxCount + 1) :=
    Nat.mul_le_mul_left _ (Nat.max_le.mpr ⟨hmissing, by decide⟩)
  have htimes := Span.times_of_lt (Nat.lt_of_le_of_lt hwait hspan)
  have hadd := Moment.add_of_lt (m := now) (d := ⟨lag.ns * max missing leastRemaining⟩)
    (Nat.lt_of_le_of_lt (Nat.add_le_add_left hwait _) hmoment)
  rw [deadline, hlag]
  show ∃ e, (lag.times (max missing leastRemaining) >>= now.add) = .ok e
  rw [htimes]
  exact ⟨_, hadd⟩

theorem Still.deadline (h : Still start now count l) (hcalm : Calm start now limit)
    (hlimit : count ≤ limit) {missing : Nat} (hmissing : missing ≤ Fragment.maxCount + 1) :
    ∃ d, l.deadline now missing = .ok d := by
  obtain ⟨n, hn, hlag⟩ := h.lag
  obtain ⟨lag, heq, hspan, -, hmoment⟩ := hcalm n (Nat.le_trans hn hlimit)
  exact exists_deadline (hlag.trans heq) hspan hmoment hmissing

theorem Still.patience (h : Still start now count l) (hcalm : Calm start now limit)
    (hlimit : count ≤ limit) : ∃ d, l.patience = .ok d := by
  obtain ⟨n, hn, hlag⟩ := h.lag
  obtain ⟨d, hd, -, hspan, -⟩ := hcalm n (Nat.le_trans hn hlimit)
  rw [Link.patience, hlag, hd, h.settings]
  exact ⟨_, Span.times_of_lt hspan⟩

end Link

namespace Attached

open Link (Still Calm)

variable {σ : Type} {start : Link} {now : Moment} {count limit : Nat} {a : Attached σ}

theorem still_arrived (h : Still start now count a.link) :
    Still start now (count + 1) (a.arrived now).link := by
  refine ⟨h.settings, ?_, fun t ht => (Option.some.inj ht).symm, rfl⟩
  obtain ⟨n, hn, hgaps⟩ := h.gaps
  cases hlast : a.link.lastArrival with
  | none =>
    refine ⟨n, Nat.le_succ_of_le hn, ?_⟩
    rw [← hgaps, arrived, hlast]
  | some t =>
    obtain rfl := h.arrival t hlast
    refine ⟨n + 1, Nat.succ_le_succ hn, ?_⟩
    rw [Window.stilled, ← hgaps, arrived, hlast]
    dsimp only
    rw [Moment.since_self]

theorem conclude_ok (h : Still start now count a.link) (hcalm : Calm start now limit)
    (hlimit : count ≤ limit) (handled : Nat) : ∃ b, conclude now false handled a = .ok () b := by
  have hprogress : (a.purge now).link.lastProgress = now := h.progress
  rw [conclude]
  dsimp only
  rw [if_neg Bool.false_ne_true]
  split
  · exact ⟨_, rfl⟩
  · split
    · obtain ⟨d, hd⟩ := h.patience hcalm hlimit
      have hpatience : ((a.purge now).link.lag >>= fun lag =>
          lag.times (a.purge now).link.settings.timeoutMultiplier) = .ok d := hd
      have hle : Span.zero.ns ≤ d.ns := Nat.zero_le _
      rw [checkTimeout, hpatience]
      dsimp only
      rw [hprogress, Moment.since_self, if_pos hle]
      exact ⟨_, rfl⟩
    · exact ⟨_, rfl⟩

end Attached

end BundleLink
