import BundleLink.Bundle.Join
import BundleLink.Link.Attached
import BundleLink.Wire.Scan

/-!
# Receiving

One receive reads what the channel has, takes it apart, handles the fragments in order, drops
bundles that are overdue and then looks at the clock.

* `fill`                   reads until there is nothing more or the raw bytes reach their limit;
* `Attached.handle`        one fragment: `handleControl` for acks and naks, else `handleBundle`;
* `Attached.handleAll`     the pieces of the raw bytes, up to the first failure;
* `Attached.purge`         drops inbound bundles whose time is over;
* `Attached.checkTimeout`  counts a timeout, and fails if there were too many;
* `Attached.receive`       one receive; a link that fails in it is closed.

A bundle whose fragments are all there is acknowledged before it is put into the queue of ready
bundles, and stays inbound until the peer acknowledges the ack or its deadline passes: fragments
that arrive until then are answered by another ack.
-/

namespace BundleLink

/-! ## reading from the channel -/

/-- what a series of reads yields -/
structure Intake (σ : Type) where
  /-- the bytes of each read, the last one first -/
  chunks : List Bytes
  /-- whether the stream has ended, or why reading failed -/
  ended : Except IoError Bool
  channel : σ

/-- reads while there is room for at least one byte; the last chunk may go beyond that -/
def fill {σ : Type} [Channel σ] (chunk room : Nat) (acc : List Bytes) (ch : σ) : Intake σ :=
  if _h : 0 < room ∧ 0 < chunk then
    match _hr : Channel.read chunk ch with
    | (.error e, ch') => ⟨acc, .error e, ch'⟩
    | (.ok .nothing, ch') => ⟨acc, .ok false, ch'⟩
    | (.ok .endOfStream, ch') => ⟨acc, .ok true, ch'⟩
    | (.ok (.data bs), ch') => fill chunk (room - bs.length) (bs :: acc) ch'
  else ⟨acc, .ok false, ch⟩
termination_by room + Channel.lull ch
decreasing_by
  have hle := Channel.lull_read_le chunk ch
  rw [_hr] at hle
  dsimp only at hle
  cases bs with
  | nil =>
    have hlt := Channel.lull_read_lt chunk ch _h.2 (by rw [_hr])
    rw [_hr] at hlt
    exact Nat.add_lt_add_left hlt room
  | cons b bs =>
    simp only [List.length_cons]
    omega

namespace Attached

variable {σ : Type} [Channel σ]

/-- the reads of one receive; the bytes go behind the raw bytes that were left over -/
def fillRaw (a : Attached σ) : Outcome σ Bool :=
  let room := a.link.settings.rawLimit - a.link.raw.length
  let intake := fill a.link.settings.readChunk room [] a.channel
  let bytes := intake.chunks.reverse.flatten
  let a : Attached σ :=
    { link :=
        { a.link with
          raw := a.link.raw ++ bytes
          traffic := a.link.traffic.bytesArrived bytes.length }
      channel := intake.channel }
  match intake.ended with
  | .error e => ioFailure e a
  | .ok ended => .ok ended a

/-! ## handling fragments -/

/-- a fragment arrived: the gap since the one before is noted -/
def arrived (now : Moment) (a : Attached σ) : Attached σ :=
  let gaps :=
    match a.link.lastArrival with
    | some previous => a.link.gaps.add (now.since previous).toSeconds
    | none => a.link.gaps
  { a with
    link :=
      { a.link with
        gaps := gaps
        lastArrival := some now
        lastProgress := now
        traffic := a.link.traffic.fragmentReceived } }

/-- An ack of a bundle that was sent is acknowledged itself. An ack of an ack ends the time for
which a finished bundle is kept. -/
def handleControl (f : Fragment) (a : Attached σ) : Outcome σ Unit :=
  let k := f.key
  if f.length < Fragment.ackLength then .ok () (a.warn (.nakReceived k))
  else
    match a.link.outbound.get? k with
    | some _ =>
      answer (.ack k) { a with link := { a.link with outbound := a.link.outbound.erase k } }
    | none => .ok () { a with link := { a.link with inbound := a.link.inbound.erase k } }

def putInbound (k : Key) (assembly : Assembly) (a : Attached σ) : Attached σ :=
  { a with link := { a.link with inbound := a.link.inbound.put k assembly } }

def eraseInbound (k : Key) (a : Attached σ) : Attached σ :=
  { a with link := { a.link with inbound := a.link.inbound.erase k } }

/-- Gives a bundle up and tells the peer so. The peer could not tell a nak for a key with a zero in
it from a stray control fragment, so there is none for such keys. -/
def reject (k : Key) (why : Rejection) (a : Attached σ) : Outcome σ Unit :=
  let a := (a.warn (.rejected k why)).eraseInbound k
  if k.isProper then answer (.nak k) a else .ok () a

/-- puts a bundle into the queue of ready ones -/
def deliver (bundle : Bytes) (a : Attached σ) : Attached σ :=
  { a with
    link :=
      { a.link with
        ready := a.link.ready ++ [bundle]
        traffic := a.link.traffic.bundleReceived } }

/-- the fragments of a bundle are all there -/
def finish (k : Key) (assembly : Assembly) (a : Attached σ) : Outcome σ Unit :=
  let (fs, assembly) := assembly.release
  match Bundle.join a.link.layout fs with
  | .error (.fault e) => .error (.fault e) a
  | .error (.error e) => reject k (.bundle e) a
  | .ok bundle =>
    match answer (.ack k) (a.putInbound k { assembly with complete := true }) with
    | .error e a => .error e a
    | .ok () a =>
      .ok () ((a.putInbound k { assembly with complete := true, acked := true }).deliver bundle)

/-- a fragment for a bundle under assembly, which was taken out of the inbound ones -/
def assemble (k : Key) (f : Fragment) (now : Moment) (assembly : Assembly) (a : Attached σ) :
    Outcome σ Unit :=
  match assembly.insert f with
  | (.duplicate, assembly) => .ok () (a.putInbound k assembly)
  | (.invalid why, _) => reject k (.misfit why) a
  | (.added, assembly) =>
    match a.link.deadline now (assembly.missing.getD 0) with
    | .error e => .error (.fault e) a
    | .ok deadline =>
      let assembly := { assembly with lastArrival := now, deadline := deadline }
      if assembly.isCollected then finish k assembly a else .ok () (a.putInbound k assembly)

def handleBundle (f : Fragment) (now : Moment) (a : Attached σ) : Outcome σ Unit :=
  let k := f.key
  if f.number = 0 ∧ f.length ≤ 0 then .ok () (a.warn (.strayControl f.length k))
  else
    match a.link.lag with
    | .error e => .error (.fault e) a
    | .ok _ =>
      match a.link.inbound.get? k with
      | some assembly =>
        if assembly.complete then
          if assembly.acked then answer (.ack k) a else .ok () a
        else assemble k f now assembly (a.eraseInbound k)
      | none =>
        match a.link.deadline now 0 with
        | .error e => .error (.fault e) a
        | .ok deadline => assemble k f now (.empty now deadline) a

def handle (f : Fragment) (now : Moment) (a : Attached σ) : Outcome σ Unit :=
  if f.isControl then handleControl f a else handleBundle f now a

/-- handles the fragments among pieces, counting them from `count` on -/
def handleAll (now : Moment) (count : Nat) : List Wire.Piece → Attached σ → Outcome σ Nat
  | [], a => .ok count a
  | .skipped size flaw :: ps, a =>
    handleAll now count ps (a.warn (.dropped size a.link.description flaw))
  | .fragment f _ :: ps, a =>
    match handle f now (a.arrived now) with
    | .ok () a => handleAll now (count + 1) ps a
    | .error e a => .error e a

/-- takes the raw bytes apart and yields the number of fragments -/
def takeApart (now : Moment) (a : Attached σ) : Outcome σ Nat :=
  let (ps, rest) := Wire.scan a.link.layout a.link.raw
  handleAll now 0 ps { a with link := { a.link with raw := rest } }

/-! ## looking at the clock -/

/-- A finished bundle is dropped at its deadline, an unfinished one after half the least timeout
without a new fragment. -/
def isOverdue (settings : Settings) (now : Moment) (assembly : Assembly) : Bool :=
  if assembly.complete then assembly.deadline.ns ≤ now.ns
  else settings.minTimeout.half.ns < (now.since assembly.lastArrival).ns

/-- the warning about a bundle that is dropped -/
def overdueWarning (k : Key) (assembly : Assembly) : Option Warning :=
  if assembly.complete then none else some (.overdue k assembly.missing)

def purge (now : Moment) (a : Attached σ) : Attached σ :=
  let overdue := isOverdue a.link.settings now
  let warnings := a.link.inbound.entries.filterMap fun e =>
    if overdue e.2 then overdueWarning e.1 e.2 else none
  { a with
    link :=
      { a.link with
        inbound := a.link.inbound.keep fun _ assembly => !overdue assembly
        log := warnings ++ a.link.log } }

/-- Without progress for many lags a timeout is counted. The link fails when there were too many in
a row, unless the least timeout has not passed yet. -/
def checkTimeout (now : Moment) (a : Attached σ) : Outcome σ Unit :=
  let elapsed := now.since a.link.lastProgress
  match a.link.lag >>= fun lag => lag.times a.link.settings.timeoutMultiplier with
  | .error e => .error (.fault e) a
  | .ok patience =>
    if elapsed.ns ≤ patience.ns then .ok () a
    else if Link.maxTimeoutCount ≤ a.link.timeouts then .error (.fault .counterFull) a
    else
      let a := { a with link := { a.link with timeouts := a.link.timeouts + 1 } }
      if a.link.settings.maxTimeouts < a.link.timeouts
          ∧ a.link.settings.minTimeout.ns < elapsed.ns then
        .error (.error (.timeout elapsed)) a
      else .ok () a

/-- what follows the handling of `count` fragments -/
def conclude (now : Moment) (ended : Bool) (count : Nat) (a : Attached σ) : Outcome σ Unit :=
  let a := a.purge now
  if ended then .error (.error .endOfStream) a
  else if 0 < count then .ok () { a with link := { a.link with timeouts := 0 } }
  else if a.link.isWaiting then checkTimeout now a
  else .ok () a

def receiveBundles (now : Moment) (a : Attached σ) : Outcome σ Unit :=
  match fillRaw a with
  | .error e a => .error e a
  | .ok ended a =>
    match takeApart now a with
    | .error e a => .error e a
    | .ok count a => conclude now ended count a

def receive (now : Moment) (a : Attached σ) : Outcome σ Unit :=
  if a.link.connected then settle (receiveBundles now a) else .error (.error .notConnected) a

theorem receive_of_closed {a : Attached σ} (h : a.link.connected = false) (now : Moment) :
    a.receive now = .error (.error .notConnected) a := by
  simp [receive, h]

end Attached

end BundleLink
