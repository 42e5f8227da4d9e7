import BundleLink.Channel.Basic
import BundleLink.Link.Basic

/-!
# A link on its channel

Everything that a link does on its channel is a function from the pair of both to an outcome, which
holds the pair afterwards whether or not the operation succeeded.

* `Attached σ`         a link together with its channel;
* `Outcome σ α`        a value, or a failure, and the state in which it leaves the pair;
* `Attached.close`     ends the connection, whatever the channel says to that;
* `Attached.transmit`, `Attached.transmitAll`, `Attached.answer`  write one fragment, several
  fragments, and a control fragment that is flushed at once;
* `Attached.settle`    closes a link that met a fatal error.
-/

namespace BundleLink

structure Attached (σ : Type) where
  link : Link
  channel : σ

abbrev Outcome (σ α : Type) := EStateM.Result (Failure LinkError) (Attached σ) α

/-- the pair after an operation -/
def Outcome.after {σ α : Type} : Outcome σ α → Attached σ
  | .ok _ a => a
  | .error _ a => a

namespace Attached

variable {σ : Type}

def warn (a : Attached σ) (w : Warning) : Attached σ := { a with link := a.link.warn w }

/-- the failure of a channel call -/
def ioFailure {α : Type} (e : IoError) (a : Attached σ) : Outcome σ α := .error (.error (.io e)) a

variable [Channel σ]

/-- Protocol state is dropped, but bundles that are ready stay. -/
def close (a : Attached σ) : Attached σ :=
  if a.link.connected then
    { link := { a.link with connected := false, outbound := .empty, inbound := .empty, raw := [] }
      channel := (Channel.close a.channel).2 }
  else a

/-- writes the wire form of a fragment to the channel -/
def transmit (f : Fragment) (a : Attached σ) : Outcome σ Unit :=
  let wire := f.wire a.link.layout
  match Channel.write wire a.channel with
  | (.error e, ch) => ioFailure e { a with channel := ch }
  | (.ok (), ch) =>
    .ok ()
      { link := { a.link with traffic := a.link.traffic.fragmentSent wire.length }
        channel := ch }

def transmitAll : List Fragment → Attached σ → Outcome σ Unit
  | [], a => .ok () a
  | f :: fs, a =>
    match transmit f a with
    | .ok () a => transmitAll fs a
    | .error e a => .error e a

def flush (a : Attached σ) : Outcome σ Unit :=
  match Channel.flush a.channel with
  | (.error e, ch) => ioFailure e { a with channel := ch }
  | (.ok (), ch) => .ok () { a with channel := ch }

/-- writes an ack or a nak -/
def answer (f : Fragment) (a : Attached σ) : Outcome σ Unit :=
  match transmit f a with
  | .ok () a => flush a
  | .error e a => .error e a

/-- a fatal error closes the link -/
def settle {α : Type} : Outcome σ α → Outcome σ α
  | .error (.error e) a =>
    if e.isFatal then .error (.error e) (a.warn (.closing a.link.id a.link.description e)).close
    else .error (.error e) a
  | r => r

@[simp] theorem settle_ok {α : Type} (x : α) (a : Attached σ) :
    settle (.ok x a : Outcome σ α) = .ok x a := rfl

@[simp] theorem transmitAll_nil (a : Attached σ) : transmitAll [] a = .ok () a := rfl

theorem close_of_closed {a : Attached σ} (h : a.link.connected = false) : a.close = a := by
  simp [close, h]

@[simp] theorem close_connected (a : Attached σ) : a.close.link.connected = false := by
  unfold close
  split
  · rfl
  · simp_all

@[simp] theorem close_ready (a : Attached σ) : a.close.link.ready = a.link.ready := by
  unfold close
  split <;> rfl

/-- closing twice is closing once -/
theorem close_close (a : Attached σ) : a.close.close = a.close :=
  close_of_closed (close_connected a)

end Attached

end BundleLink
