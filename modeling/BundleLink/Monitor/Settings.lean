import BundleLink.Pool.Settings
import BundleLink.Time.Span

/-!
# Settings of a monitor

* `MonitorSettings`        the number of workers that receive, and the pause between two rounds;
* `MonitorSettings.check`  the rule that the settings may break;
* `MonitorSettings.pool`   the settings of the pool of receiving workers, all of which are kept.
-/

namespace BundleLink

structure MonitorSettings where
  receivers : Nat := 4
  pause : Span := .ofMillis 5
  deriving DecidableEq, Repr

inductive MonitorSettingsError where
  | noReceivers
  deriving DecidableEq, Repr

def MonitorSettingsError.message : MonitorSettingsError → String
  | .noReceivers => "receiver pool size must be positive"

namespace MonitorSettings

def check (s : MonitorSettings) : Except MonitorSettingsError Unit :=
  if s.receivers = 0 then .error .noReceivers else .ok ()

def pool (s : MonitorSettings) : PoolSettings := ⟨"conduit-receiver", s.receivers, s.receivers⟩

/-- valid settings make valid settings of the pool -/
theorem check_pool {s : MonitorSettings} (h : s.check = .ok ()) : s.pool.check = .ok () := by
  unfold check at h
  split at h
  · cases h
  · simp [PoolSettings.check, pool, *]

end MonitorSettings

end BundleLink
