import BundleLink.Proofs.Lossy.Basic

/-!
# One link on a channel that may do anything

Each call of the channel may succeed or fail, as the channel likes. The writes and flushes of a
receive are watched together with what the receive does in between: the bundles that it assembles
and those that it makes ready.

* `Traced σ`             a channel that keeps a record of its writes and flushes;
* `Attached.completes`   the bundle that is whole with a fragment, if one is;
* `Deed`, `Attached.deeds`  what the handling of one fragment does, in order;
* `Attached.during`      what is told of one fragment after the other during a receive;
* `Session`, `Session.run`  a link, its application and its channel, and what they do in a run.
-/

namespace BundleLink

/-! ## recording calls -/

/-- a call that was made, with the error if it failed -/
inductive ChannelCall where
  | write (bytes : Bytes) (failure : Option IoError)
  | flush (failure : Option IoError)
  deriving DecidableEq, Repr

def ChannelCall.failure (r : Except IoError Unit) : Option IoError :=
  match r with
  | .ok () => none
  | .error e => some e

structure Traced (σ : Type) where
  channel : σ
  /-- the writes and flushes, the oldest one first -/
  calls : List ChannelCall

instance {σ : Type} [Channel σ] : Channel (Traced σ) where
  read n t := ((Channel.read n t.channel).1, { t with channel := (Channel.read n t.channel).2 })
  write bs t :=
    ((Channel.write bs t.channel).1,
      { channel := (Channel.write bs t.channel).2
        calls := t.calls ++ [.write bs (ChannelCall.failure (Channel.write bs t.channel).1)] })
  flush t :=
    ((Channel.flush t.channel).1,
      { channel := (Channel.flush t.channel).2
        calls := t.calls ++ [.flush (ChannelCall.failure (Channel.flush t.channel).1)] })
  close t := ((Channel.close t.channel).1, { t with channel := (Channel.close t.channel).2 })
  lull t := Channel.lull t.channel
  length_read_le n t bs h := Channel.length_read_le n t.channel bs h
  lull_read_le n t := Channel.lull_read_le n t.channel
  lull_read_lt n t hn h := Channel.lull_read_lt n t.channel hn h

/-! ## what the handling of a fragment does -/

/-- the bundle that the fragments of an assembly make up together with one more -/
def Link.collects (l : Link) (f : Fragment) (now : Moment) (assembly : Assembly) : Option Bytes :=
  match assembly.insert f with
  | (.added, assembly) =>
    match l.deadline now (assembly.missing.getD 0), Bundle.join l.layout assembly.fragments with
    | .ok _, .ok bundle => if assembly.isCollected then some bundle else none
    | _, _ => none
  | _ => none

/-- the bundle that is assembled when the fragment arrives -/
def Link.completes (l : Link) (f : Fragment) (now : Moment) : Option Bytes :=
  if f.isControl ∨ (f.number = 0 ∧ f.length ≤ 0) then none
  else
    match l.inbound.get? f.key with
    | some assembly => if assembly.complete then none else l.collects f now assembly
    | none =>
      match l.deadline now 0 with
      | .ok deadline => l.collects f now (.empty now deadline)
      | .error _ => none

inductive Deed where
  /-- the fragments of a bundle were all there, and they made up this one -/
  | assembled (k : Key) (bundle : Bytes)
  | called (c : ChannelCall)
  /-- a bundle was put into the queue of ready ones -/
  | delivered (k : Key) (bundle : Bytes)
  deriving DecidableEq, Repr

namespace Deed

def assembly : Deed → Option (Key × Bytes)
  | .assembled k bundle => some (k, bundle)
  | _ => none

def delivery : Deed → Option (Key × Bytes)
  | .delivered k bundle => some (k, bundle)
  | _ => none

def call : Deed → Option ChannelCall
  | .called c => some c
  | _ => none

/-- the bundles assembled, the oldest one first -/
def assemblies (ds : List Deed) : List (Key × Bytes) := ds.filterMap Deed.assembly

/-- the bundles made ready, the oldest one first -/
def deliveries (ds : List Deed) : List (Key × Bytes) := ds.filterMap Deed.delivery

/-- the calls made, the oldest one first -/
def calls (ds : List Deed) : List ChannelCall := ds.filterMap Deed.call

@[simp] theorem assemblies_append (ds es : List Deed) :
    assemblies (ds ++ es) = assemblies ds ++ assemblies es := List.filterMap_append

@[simp] theorem deliveries_append (ds es : List Deed) :
    deliveries (ds ++ es) = deliveries ds ++ deliveries es := List.filterMap_append

@[simp] theorem calls_append (ds es : List Deed) : calls (ds ++ es) = calls ds ++ calls es :=
  List.filterMap_append

theorem assemblies_called (cs : List ChannelCall) : assemblies (cs.map called) = [] := by
  induction cs with
  | nil => rfl
  | cons c cs ih => exact ih

theorem deliveries_called (cs : List ChannelCall) : deliveries (cs.map called) = [] := by
  induction cs with
  | nil => rfl
  | cons c cs ih => exact ih

theorem calls_called (cs : List ChannelCall) : calls (cs.map called) = cs := by
  induction cs with
  | nil => rfl
  | cons c cs ih => exact congrArg (c :: ·) ih

end Deed

namespace Attached

/-- what is told of the fragments among pieces while they are handled, up to the first failure -/
def along {σ α : Type} [Channel σ] (tell : Fragment → Attached σ → List α) (now : Moment) :
    List Wire.Piece → Attached σ → List α
  | [], _ => []
  | .skipped size flaw :: ps, a =>
    along tell now ps (a.warn (.dropped size a.link.description flaw))
  | .fragment f _ :: ps, a =>
    tell f (a.arrived now) ++
      match handle f now (a.arrived now) with
      | .ok () b => along tell now ps b
      | .error _ _ => []

/-- the same for one receive -/
def during {σ α : Type} [Channel σ] (tell : Fragment → Attached σ → List α) (now : Moment)
    (a : Attached σ) : List α :=
  if a.link.connected then
    match fillRaw a with
    | .ok _ b =>
      let (ps, rest) := Wire.scan b.link.layout b.link.raw
      along tell now ps { b with link := { b.link with raw := rest } }
    | .error _ _ => []
  else []

variable {σ : Type} [Channel σ]

/-- The handling of a fragment assembles a bundle, then calls the channel, and then delivers. -/
def deeds (now : Moment) (f : Fragment) (a : Attached (Traced σ)) : List Deed :=
  let b := (handle f now a).after
  (a.link.completes f now).toList.map (Deed.assembled f.key) ++
    (b.channel.calls.drop a.channel.calls.length).map Deed.called ++
    (b.link.ready.drop a.link.ready.length).map (Deed.delivered f.key)

end Attached

/-! ## sessions -/

structure Session (σ : Type) where
  party : Party
  channel : Traced σ
  /-- what the receives did, the oldest deed first -/
  history : List Deed

namespace Session

variable {σ : Type}

inductive Event where
  /-- an operation at a moment -/
  | act (op : Pair.Operation) (now : Moment)
  | setLayout (layout : Layout)

/-- a link that was just opened on a channel -/
def opened (id : Nat) (description : String) (settings : Settings) (generation : UInt64)
    (now : Moment) (channel : σ) : Session σ where
  party :=
    { link := .opened id description settings generation now
      halted := false
      taken := []
      accepted := [] }
  channel := ⟨channel, []⟩
  history := []

def attached (s : Session σ) : Attached (Traced σ) := ⟨s.party.link, s.channel⟩

def setLink (s : Session σ) (l : Link) : Session σ :=
  { s with party := { s.party with link := l } }

/-- what an operation on the channel leaves; `buffers` count as accepted if it succeeds -/
def settle (s : Session σ) (buffers : List Bytes) (deeds : List Deed) :
    Outcome (Traced σ) Unit → Session σ
  | .ok () a =>
    { party := { s.party with link := a.link, accepted := s.party.accepted ++ buffers }
      channel := a.channel
      history := s.history ++ deeds }
  | .error (.error _) a =>
    { party := { s.party with link := a.link }
      channel := a.channel
      history := s.history ++ deeds }
  | .error (.fault _) a =>
    { party := { s.party with link := a.link, halted := true }
      channel := a.channel
      history := s.history ++ deeds }

variable [Channel σ]

/-- what a receive at a moment would do -/
def deeds (s : Session σ) (now : Moment) : List Deed :=
  s.attached.during (Attached.deeds now) now

/-- an operation that needs the state of the protocol, which a fault makes inaccessible -/
def work (s : Session σ) (now : Moment) : Pair.Operation → Session σ
  | .write buffer flushNow => s.settle [buffer] [] (s.attached.write buffer flushNow now)
  | .writeText text flushNow =>
    s.settle [Utf8.encode text] [] (s.attached.write (Utf8.encode text) flushNow now)
  | .receive => s.settle [] (s.deeds now) (s.attached.receive now)
  | .setFragmentSize size => s.setLink (s.party.link.setFragmentSize size).2
  | .advanceGeneration => { s with party := s.party.advance }
  | .close => { s.setLink s.attached.close.link with channel := s.attached.close.channel }
  | _ => s

def act (s : Session σ) (now : Moment) (op : Pair.Operation) : Session σ :=
  let x := s.party
  match op with
  | .read => { s with party := x.gets x.link.read }
  | .readInto buffer =>
    let (r, out, l) := x.link.readInto buffer
    { s with party := x.gets (r.map (Option.map fun n => out.take n), l) }
  | .readText =>
    let (r, l) := x.link.readText
    { s with party := x.gets (r.map (Option.map Utf8.encode), l) }
  | .close =>
    if x.halted then s.setLink { x.link with connected := false } else s.work now op
  | op => if x.halted then s else s.work now op

def step (s : Session σ) : Event → Session σ
  | .act op now => s.act now op
  | .setLayout layout =>
    if s.party.halted then s else s.setLink (s.party.link.setLayout layout)

def run (s : Session σ) (es : List Event) : Session σ := es.foldl step s

end Session

end BundleLink
