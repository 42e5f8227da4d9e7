import BundleLink.Assembly
import BundleLink.Link.Traffic
import BundleLink.Link.Warning
import BundleLink.Settings
import BundleLink.Table
import BundleLink.Time.Seconds
import BundleLink.Window

/-!
# Links

A link is one end of a connection over which applications exchange bundles. What it writes, it keeps
as OUTBOUND until the peer acknowledges it; what it receives, it assembles as INBOUND and then puts
into a queue of bundles that are ready to be read.

* `Link`          the state of one end;
* `Link.opened`   the state at the start;
* `Link.lag`      how long a fragment is expected to take: the mean of the most recent gaps between
  arrivals, but no less than the least lag of the settings;
* `Link.read`, `Link.readInto`, `Link.readText`  take the oldest bundle that is ready;
* `Link.tryClaim`, `Link.unclaim`  exclusive permission to receive.
-/

namespace BundleLink

structure Link where
  id : Nat
  /-- the description of its channel -/
  description : String
  settings : Settings
  layout : Layout
  fragmentSize : Nat
  connected : Bool
  /-- somebody holds the permission to receive -/
  claimed : Bool
  /-- bytes that were read from the channel and not taken apart yet -/
  raw : Bytes
  /-- the bundles sent that the peer has not acknowledged yet -/
  outbound : Table Key (List Fragment)
  /-- the bundles of the peer under assembly, and those finished not long ago -/
  inbound : Table Key Assembly
  /-- the bundles that nobody read yet, the oldest one first -/
  ready : List Bytes
  generation : UInt64
  /-- the message number of the next bundle -/
  nextMessage : UInt64
  /-- the most recent gaps between arriving fragments, in seconds -/
  gaps : Window Float
  lastArrival : Option Moment
  /-- the last arrival of a fragment, or the last write while nothing was outbound -/
  lastProgress : Moment
  /-- the timeouts counted since a fragment was last received -/
  timeouts : Nat
  traffic : Traffic
  /-- the warnings, the last one first -/
  log : List Warning
  deriving Repr

namespace Link

/-- how many gaps make up the mean -/
def gapCount : Nat := 5

/-- a bundle is given time for at least this many fragments -/
def leastRemaining : Nat := 5

/-- the greatest number of timeouts that can be counted -/
def maxTimeoutCount : Nat := UInt32.size - 1

/-- the message number that the counter can not go beyond, and which no bundle gets -/
def lastMessage : UInt64 := 0xFFFFFFFFFFFFFFFF

/-- the generation after which there is no other -/
def lastGeneration : UInt64 := 0xFFFFFFFFFFFFFFFF

def opened (id : Nat) (description : String) (settings : Settings) (generation : UInt64)
    (now : Moment) : Link where
  id := id
  description := description
  settings := settings
  layout := settings.layout
  fragmentSize := settings.fragmentSize
  connected := true
  claimed := false
  raw := []
  outbound := .empty
  inbound := .empty
  ready := []
  generation := generation
  nextMessage := 1
  gaps := .single gapCount settings.initialLag.toSeconds
  lastArrival := none
  lastProgress := now
  timeouts := 0
  traffic := .none
  log := []

def warn (l : Link) (w : Warning) : Link := { l with log := w :: l.log }

/-- rounding may take the mean of gaps slightly below zero -/
def meanGap (l : Link) : Float := let mean := l.gaps.mean; if 0 < mean then mean else 0

def lag (l : Link) : Except Fault Span :=
  (Span.ofSeconds? l.meanGap).map fun d => d.max l.settings.minLag

/-- the moment by which `count` more fragments, or at least five, are expected -/
def deadline (l : Link) (now : Moment) (count : Nat) : Except Fault Moment := do
  let lag ← l.lag
  let wait ← lag.times (max count leastRemaining)
  now.add wait

def hasInput (l : Link) : Bool := !l.ready.isEmpty

def hasRaw (l : Link) : Bool := !l.raw.isEmpty

/-- the number of bundles that the peer has not acknowledged yet -/
def unacknowledged (l : Link) : Nat := l.outbound.size

/-- something is still expected of the peer: an ack, or more fragments -/
def isWaiting (l : Link) : Bool :=
  !l.outbound.isEmpty || l.inbound.entries.any fun e => !e.2.complete

/-! ## settings that change while the link is open -/

def setLayout (l : Link) (layout : Layout) : Link := { l with layout := layout }

def setFragmentSize (l : Link) (size : Nat) : Except LinkError Unit × Link :=
  if Bundle.validSize size then (.ok (), { l with fragmentSize := size })
  else (.error (.bundle (.invalidFragmentSize size)), l)

/-- bundles written from now on belong to a new generation -/
def advanceGeneration (l : Link) : Except Fault UInt64 × Link :=
  if l.generation = lastGeneration then (.error .counterFull, l)
  else (.ok (l.generation + 1), { l with generation := l.generation + 1 })

/-! ## bundles that are ready -/

/-- the answer of a link that has no bundle: none yet, or none any more -/
def nothingReady {α : Type} (l : Link) : Except LinkError (Option α) :=
  if l.connected then .ok none else .error .notConnected

def read (l : Link) : Except LinkError (Option Bytes) × Link :=
  match l.ready with
  | [] => (l.nothingReady, l)
  | bundle :: rest => (.ok (some bundle), { l with ready := rest })

/-- Copies the oldest bundle to the start of `buffer` and yields its length. A bundle that does not
fit stays in the queue. -/
def readInto (l : Link) (buffer : Bytes) : Except LinkError (Option Nat) × Bytes × Link :=
  match l.ready with
  | [] => (l.nothingReady, buffer, l)
  | bundle :: rest =>
    if buffer.length < bundle.length then
      (.error (.bufferTooSmall bundle.length buffer.length), buffer, l)
    else
      (.ok (some bundle.length), bundle ++ buffer.drop bundle.length, { l with ready := rest })

/-- A bundle that is no text stays in the queue. -/
def readText (l : Link) : Except LinkError (Option String) × Link :=
  match l.ready with
  | [] => (l.nothingReady, l)
  | bundle :: rest =>
    match Utf8.decode bundle with
    | .error flaw => (.error (.invalidText flaw), l)
    | .ok text => (.ok (some text), { l with ready := rest })

/-! ## the permission to receive -/

/-- whether the claim was granted -/
def tryClaim (l : Link) : Bool × Link := (!l.claimed, { l with claimed := true })

def unclaim (l : Link) : Link := { l with claimed := false }

@[simp] theorem ready_warn (l : Link) (w : Warning) : (l.warn w).ready = l.ready := rfl

@[simp] theorem unclaim_claimed (l : Link) : l.unclaim.claimed = false := rfl

theorem read_cons {l : Link} {bundle : Bytes} {rest : List Bytes} (h : l.ready = bundle :: rest) :
    l.read = (.ok (some bundle), { l with ready := rest }) := by
  simp [read, h]

end Link

end BundleLink
