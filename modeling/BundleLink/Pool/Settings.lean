/-!
# Settings of a task pool

* `PoolSettings`        how many workers may run and how many are kept when idle;
* `PoolSettings.check`  the first rule that the settings break, if any.
-/

namespace BundleLink

structure PoolSettings where
  /-- the start of the workers' names -/
  name : String
  /-- how many tasks may run at a time -/
  maxActive : Nat
  /-- how many idle workers are kept; others end when they become idle -/
  maxIdle : Nat
  deriving DecidableEq, Repr

inductive PoolSettingsError where
  | noWorkers (name : String)
  | tooManyIdle (name : String) (idle active : Nat)
  deriving DecidableEq, Repr

def PoolSettingsError.message : PoolSettingsError → String
  | .noWorkers name => s!"pool {name} must allow at least one active worker"
  | .tooManyIdle name idle active =>
    s!"pool {name} retains up to {idle} idle workers, but allows only {active} active workers"

namespace PoolSettings

def check (s : PoolSettings) : Except PoolSettingsError Unit :=
  if s.maxActive = 0 then .error (.noWorkers s.name)
  else if s.maxActive < s.maxIdle then .error (.tooManyIdle s.name s.maxIdle s.maxActive)
  else .ok ()

/-- the name of a worker -/
def workerName (s : PoolSettings) (worker : Nat) : String := s!"{s.name}-{worker}"

theorem check_eq_ok_iff (s : PoolSettings) :
    s.check = .ok () ↔ 0 < s.maxActive ∧ s.maxIdle ≤ s.maxActive := by
  unfold check
  split
  · simp_all
  · split <;> simp_all
    omega

end PoolSettings

end BundleLink
