import BundleLink.Channel.Duplex
import BundleLink.Channel.Either
import BundleLink.Link.Receive
import BundleLink.Link.Write
import BundleLink.Roster

/-!
# Networks of links

A network holds all links that were ever opened on one roster, the memory channels between them,
and the clock. The ends of a memory channel are taken by links, or are left to a peer outside the
network. Other links have a channel of their own, of any type `τ`.

* `Network τ`              roster, links, memory channels and clock;
* `Network.openLink`       opens a link on a channel, if its settings are valid;
* `Network.operate`        runs an operation of one link on its channel, and strikes the link off
  the roster if it is closed afterwards;
* `Network.adjust`         changes the state of the protocol of a link without using its channel;
* `Network.alter`          changes those parts of a link that are not part of that state;
* `Network.close`, `Network.closeAll`, `Network.advance`.

A fault leaves the state of the protocol half changed, and so it HALTS the link that met it: later
operations on this state end in a fault of their own. This is also true of closing, which declares
the link closed but does not come to its channel and to the roster. The bundles that are ready and
the permission to receive are no part of that state. Other links do not notice.
-/

namespace BundleLink

/-- how a link reaches its channel -/
inductive Plug (τ : Type) where
  /-- one side of a memory channel -/
  | wire (index : Nat) (side : Side)
  | own (channel : τ)
  deriving Repr

structure Station (τ : Type) where
  link : Link
  plug : Plug τ
  /-- the link met a fault -/
  halted : Bool
  deriving Repr

/-- how a link that met a fault answers to operations on its channel -/
def Link.refusal (l : Link) : Failure LinkError :=
  if l.connected then .fault .halted else .error .notConnected

/-- what closing does to a link that met a fault -/
def Link.disconnect (l : Link) : Except (Failure LinkError) Unit × Link :=
  (if l.connected then .error (.fault .halted) else .ok (), { l with connected := false })

structure Network (τ : Type) where
  now : Moment
  roster : Roster
  stations : Table Nat (Station τ)
  /-- the memory channels, in the order in which they were made -/
  wires : Array Duplex
  deriving Repr

namespace Network

variable {τ : Type}

def empty : Network τ := ⟨.start, .empty, .empty, #[]⟩

def link? (n : Network τ) (id : Nat) : Option Link := (n.stations.get? id).map Station.link

def wireAt (n : Network τ) (i : Nat) : Duplex := n.wires[i]?.getD .empty

def setWire (n : Network τ) (i : Nat) (d : Duplex) : Network τ :=
  { n with wires := n.wires.setIfInBounds i d }

/-- makes a memory channel and yields its index -/
def newWire (n : Network τ) : Nat × Network τ :=
  (n.wires.size, { n with wires := n.wires.push .empty })

def advance (n : Network τ) (d : Span) : Except Fault (Network τ) :=
  (n.now.add d).map fun now => { n with now := now }

/-- Opens a link on the channel of a plug and yields its number. Invalid settings are refused and
leave no trace. -/
def openLink (settings : Settings) (generation : UInt64) (description : String) (plug : Plug τ)
    (n : Network τ) : Except SettingsError Nat × Network τ :=
  match settings.check with
  | .error e => (.error e, n)
  | .ok () =>
    let (id, roster) := n.roster.enrol
    let link := Link.opened id description settings generation n.now
    (.ok id, { n with roster := roster, stations := n.stations.put id ⟨link, plug, false⟩ })

/-- the channel that a plug gives access to -/
def channelOf (n : Network τ) : Plug τ → End ⊕ τ
  | .wire i side => .inl ⟨side, n.wireAt i⟩
  | .own ch => .inr ch

/-- puts a link and its channel back; a closed link leaves the roster -/
def putBack (id : Nat) (plug : Plug τ) (halted : Bool) (a : Attached (End ⊕ τ)) (n : Network τ) :
    Network τ :=
  let n := if a.link.connected then n else { n with roster := n.roster.strike id }
  match plug, a.channel with
  | .wire i side, .inl e =>
    { n.setWire i e.duplex with stations := n.stations.put id ⟨a.link, .wire i side, halted⟩ }
  | _, .inr ch => { n with stations := n.stations.put id ⟨a.link, .own ch, halted⟩ }
  | .own ch, .inl _ => { n with stations := n.stations.put id ⟨a.link, .own ch, halted⟩ }

/-- changes a link without using its channel or the state of its protocol -/
def alter {α : Type} (id : Nat) (f : Link → α × Link) (n : Network τ) : Option (α × Network τ) :=
  match n.stations.get? id with
  | none => none
  | some station =>
    let (x, link) := f station.link
    some (x, { n with stations := n.stations.put id { station with link := link } })

/-- runs an operation of a link on its channel -/
def operate {α : Type} (id : Nat) (op : Attached (End ⊕ τ) → Outcome (End ⊕ τ) α) (n : Network τ) :
    Option (Except (Failure LinkError) α × Network τ) :=
  match n.stations.get? id with
  | none => none
  | some station =>
    if station.halted then n.alter id fun l => (.error l.refusal, l)
    else
      let n := { n with stations := n.stations.erase id }
      match op ⟨station.link, n.channelOf station.plug⟩ with
      | .ok x a => some (.ok x, n.putBack id station.plug false a)
      | .error e a => some (.error e, n.putBack id station.plug e.isFault a)

/-- changes the state of the protocol of a link without using its channel -/
def adjust {α : Type} (id : Nat) (f : Link → Except (Failure LinkError) α × Link)
    (n : Network τ) : Option (Except (Failure LinkError) α × Network τ) :=
  match n.stations.get? id with
  | none => none
  | some station =>
    if station.halted then n.alter id fun l => (.error (.fault .halted), l)
    else
      let (r, link) := f station.link
      some (r, { n with stations := n.stations.put id ⟨link, station.plug, faulted r⟩ })

def setLayout (id : Nat) (layout : Layout) (n : Network τ) :
    Option (Except (Failure LinkError) Unit × Network τ) :=
  n.adjust id fun l => (.ok (), l.setLayout layout)

def setFragmentSize (id : Nat) (size : Nat) (n : Network τ) :
    Option (Except (Failure LinkError) Unit × Network τ) :=
  n.adjust id fun l => let (r, l) := l.setFragmentSize size; (r.mapError .error, l)

def advanceGeneration (id : Nat) (n : Network τ) :
    Option (Except (Failure LinkError) UInt64 × Network τ) :=
  n.adjust id fun l => let (r, l) := l.advanceGeneration; (faulting r, l)

variable [Channel τ]

def close (id : Nat) (n : Network τ) : Option (Except (Failure LinkError) Unit × Network τ) :=
  match n.stations.get? id with
  | none => none
  | some station =>
    if station.halted then n.alter id Link.disconnect
    else n.operate id fun a => .ok () a.close

/-- closes these links, one after the other, up to the first fault -/
def closeEach : List Nat → Network τ → Except (Failure LinkError) Unit × Network τ
  | [], n => (.ok (), n)
  | id :: ids, n =>
    match n.close id with
    | none => n.closeEach ids
    | some (.ok _, n) => n.closeEach ids
    | some (.error e, n) => (.error e, n)

/-- closes all links that are on the roster at first, in the order of opening -/
def closeAll (n : Network τ) : Except (Failure LinkError) Unit × Network τ :=
  n.closeEach n.roster.ids

def write (id : Nat) (buffer : Bytes) (flushNow : Bool) (n : Network τ) :
    Option (Except (Failure LinkError) Unit × Network τ) :=
  n.operate id (Attached.write buffer flushNow n.now)

def receive (id : Nat) (n : Network τ) : Option (Except (Failure LinkError) Unit × Network τ) :=
  n.operate id (Attached.receive n.now)

/-! ## the other end of a memory channel -/

/-- a peer outside the network writes at its side -/
def peerWrite (i : Nat) (side : Side) (bs : Bytes) (n : Network τ) :
    Except IoError Unit × Network τ :=
  let (r, d) := (n.wireAt i).write side bs
  (r, n.setWire i d)

/-- a peer outside the network reads all that is there for its side -/
def peerDrain (i : Nat) (side : Side) (n : Network τ) : Bytes × Network τ :=
  let d := n.wireAt i
  let (bs, p) := (d.inbound side).drain
  (bs, n.setWire i (d.setInbound side p))

def peerClose (i : Nat) (n : Network τ) : Network τ := n.setWire i (n.wireAt i).close

end Network

end BundleLink
