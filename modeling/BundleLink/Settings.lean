import BundleLink.Bundle.Split
import BundleLink.Time.SpanText

/-!
# Settings of a link

* `Settings`           what can be chosen for a link, with the usual choice of each;
* `Settings.datagram`  fragments that fill an Ethernet frame;
* `Settings.check`     the first rule that the settings break, if any.
-/

namespace BundleLink

structure Settings where
  /-- the greatest payload of a data fragment -/
  fragmentSize : Nat := 4096
  /-- the layout that a link starts with -/
  layout : Layout := .plain
  /-- how many bytes are read from the channel at a time -/
  readChunk : Nat := 65536
  /-- reading stops while this many bytes wait to be taken apart -/
  rawLimit : Nat := 1048576
  /-- the lag that is assumed before any fragment has arrived -/
  initialLag : Span := .ofMillis 50
  /-- the least lag that is ever assumed -/
  minLag : Span := .ofMillis 1
  /-- without progress for this many lags, a receive counts as a timeout -/
  timeoutMultiplier : Nat := 20
  /-- a link fails after more than this many timeouts in a row -/
  maxTimeouts : Nat := 3
  /-- … and not before this time has passed without progress -/
  minTimeout : Span := .ofSeconds 10
  deriving DecidableEq, Repr

/-- the rules that settings can break -/
inductive SettingsError where
  | fragmentSize (size : Nat)
  | readChunk (size : Nat)
  | rawLimit (limit chunk : Nat)
  | minLag
  | initialLag (initial least : Span)
  | timeoutMultiplier
  deriving DecidableEq, Repr

def SettingsError.message : SettingsError → String
  | .fragmentSize size =>
    s!"fragment size must be between 1 and {Fragment.maxPayload}, was {size}"
  | .readChunk size => s!"read chunk size {size} must hold at least one complete fragment"
  | .rawLimit limit chunk =>
    s!"max buffered raw bytes {limit} must not be smaller than the read chunk size {chunk}"
  | .minLag => "minimum lag must be positive"
  | .initialLag initial least =>
    s!"initial lag {initial.text} is smaller than the minimum lag {least.text}"
  | .timeoutMultiplier => "timeout multiplier must be positive"

namespace Settings

/-- a datagram of 1472 bytes holds the fragment and 40 bytes more -/
def datagram : Settings := { fragmentSize := 1472 - 40 }

def check (s : Settings) : Except SettingsError Unit :=
  if !Bundle.validSize s.fragmentSize then .error (.fragmentSize s.fragmentSize)
  else if s.readChunk < s.fragmentSize + s.layout.headerLength then .error (.readChunk s.readChunk)
  else if s.rawLimit < s.readChunk then .error (.rawLimit s.rawLimit s.readChunk)
  else if s.minLag.ns = 0 then .error .minLag
  else if s.initialLag.ns < s.minLag.ns then .error (.initialLag s.initialLag s.minLag)
  else if s.timeoutMultiplier = 0 then .error .timeoutMultiplier
  else .ok ()

/-- settings that break no rule -/
def Valid (s : Settings) : Prop := s.check = .ok ()

instance (s : Settings) : Decidable s.Valid :=
  match h : s.check with
  | .ok () => isTrue h
  | .error e => isFalse (by simp [Valid, h])

theorem valid_iff (s : Settings) : s.Valid ↔ Bundle.validSize s.fragmentSize = true ∧
    s.fragmentSize + s.layout.headerLength ≤ s.readChunk ∧ s.readChunk ≤ s.rawLimit ∧
    0 < s.minLag.ns ∧ s.minLag.ns ≤ s.initialLag.ns ∧ 0 < s.timeoutMultiplier := by
  simp only [Valid, check]
  grind

theorem valid_default : Valid {} := by decide

theorem valid_datagram : Valid datagram := by decide

end Settings

end BundleLink
