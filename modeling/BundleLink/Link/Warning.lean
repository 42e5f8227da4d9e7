import BundleLink.Assembly
import BundleLink.Link.Error
import BundleLink.Wire.Extract

/-!
# Warnings of a link

What a link has to put up with, or gives up, is written to its log as a value.

* `Rejection`        why a bundle of the peer is given up;
* `Warning`          an entry of the log;
* `Warning.message`  its text, in which generations are written by a given function.
-/

namespace BundleLink

inductive Rejection where
  | misfit (why : Misfit)
  | bundle (e : BundleError)
  deriving DecidableEq, Repr

def Rejection.message : Rejection → String
  | .misfit why => why.message
  | .bundle e => e.message

inductive Warning where
  /-- bytes that belong to no fragment were dropped -/
  | dropped (size : Nat) (description : String) (flaw : Wire.Flaw)
  /-- the peer could not make a bundle of the fragments it was sent -/
  | nakReceived (k : Key)
  /-- neither a header, nor data, nor control -/
  | strayControl (length : Int16) (k : Key)
  /-- a bundle of the peer was given up because of its fragments -/
  | rejected (k : Key) (why : Rejection)
  /-- a bundle of the peer was given up because its fragments stopped coming -/
  | overdue (k : Key) (missing : Option Nat)
  /-- the link is closed because of an error -/
  | closing (id : Nat) (description : String) (e : LinkError)
  deriving DecidableEq, Repr

namespace Warning

/-- the generation, written by `label`, and the message -/
def keyText (label : UInt64 → String) (k : Key) : String :=
  s!"({label k.generation}, {k.message})"

/-- a number that may be unknown -/
def countText : Option Nat → String
  | none => "None"
  | some n => s!"Some({n})"

def message (label : UInt64 → String) : Warning → String
  | .dropped size description flaw =>
    s!"dropping {size} bytes from {description}: {flaw.message}"
  | .nakReceived k =>
    s!"peer could not process bundle {keyText label k} - retransmission is not supported"
  | .strayControl length k =>
    s!"dropping control fragment with length {length} for invalid bundle {keyText label k}"
  | .rejected k why => s!"discarding bundle {keyText label k}: {why.message}"
  | .overdue k missing =>
    s!"discarding incomplete bundle {keyText label k}: "
      ++ s!"{countText missing} missing fragments are overdue"
  | .closing id description e => s!"closing conduit #{id} on {description}: {e.message}"

end Warning

end BundleLink
