import BundleLink.Bundle.Split
import BundleLink.Link.Attached

/-!
# Writing bundles

A bundle is cut into fragments, all of which are written at once, and counts as outbound from then
on.

* `Attached.writeBundle`  the protocol of one write;
* `Attached.write`        one write; a link that fails in it is closed.
-/

namespace BundleLink.Attached

variable {σ : Type} [Channel σ]

/-- the bundle is on its way; the wait for the peer starts now if nothing else was outbound -/
def recordSent (k : Key) (fs : List Fragment) (now : Moment) (a : Attached σ) : Attached σ :=
  { a with
    link :=
      { a.link with
        lastProgress := if a.link.outbound.isEmpty then now else a.link.lastProgress
        outbound := a.link.outbound.put k fs
        traffic := a.link.traffic.bundleSent } }

def writeBundle (buffer : Bytes) (flushNow : Bool) (now : Moment) (a : Attached σ) :
    Outcome σ Unit :=
  let k : Key := ⟨a.link.generation, a.link.nextMessage⟩
  match Bundle.split a.link.layout a.link.fragmentSize k buffer with
  | .error e => .error (e.mapError LinkError.bundle) a
  | .ok fs =>
    if a.link.nextMessage = Link.lastMessage then .error (.fault .counterFull) a
    else
      let a := { a with link := { a.link with nextMessage := a.link.nextMessage + 1 } }
      match transmitAll fs a with
      | .error e a => .error e a
      | .ok () a =>
        let a := recordSent k fs now a
        if flushNow then flush a else .ok () a

def write (buffer : Bytes) (flushNow : Bool) (now : Moment) (a : Attached σ) : Outcome σ Unit :=
  if a.link.connected then settle (writeBundle buffer flushNow now a)
  else .error (.error .notConnected) a

theorem write_of_closed {a : Attached σ} (h : a.link.connected = false) (buffer : Bytes)
    (flushNow : Bool) (now : Moment) :
    a.write buffer flushNow now = .error (.error .notConnected) a := by
  simp [write, h]

end BundleLink.Attached
