import BundleLink.Tally

/-!
# Traffic of a link

Six totals: bytes, fragments and bundles, sent and received. Fragments include headers and control.
-/

namespace BundleLink

structure Traffic where
  bytesSent : Tally
  bytesReceived : Tally
  fragmentsSent : Tally
  fragmentsReceived : Tally
  bundlesSent : Tally
  bundlesReceived : Tally
  deriving DecidableEq, Repr

namespace Traffic

def none : Traffic := ⟨.zero, .zero, .zero, .zero, .zero, .zero⟩

def fragmentSent (t : Traffic) (size : Nat) : Traffic :=
  { t with bytesSent := t.bytesSent.add size, fragmentsSent := t.fragmentsSent.add 1 }

def bytesArrived (t : Traffic) (size : Nat) : Traffic :=
  { t with bytesReceived := t.bytesReceived.add size }

def fragmentReceived (t : Traffic) : Traffic :=
  { t with fragmentsReceived := t.fragmentsReceived.add 1 }

def bundleSent (t : Traffic) : Traffic := { t with bundlesSent := t.bundlesSent.add 1 }

def bundleReceived (t : Traffic) : Traffic := { t with bundlesReceived := t.bundlesReceived.add 1 }

/-- the totals in the order sent, received for bytes, fragments, bundles -/
def totals (t : Traffic) : List Nat :=
  [t.bytesSent.total, t.bytesReceived.total, t.fragmentsSent.total, t.fragmentsReceived.total,
    t.bundlesSent.total, t.bundlesReceived.total]

end Traffic

end BundleLink
