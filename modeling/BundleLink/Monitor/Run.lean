import BundleLink.Monitor.Basic

/-!
# Runs of a monitor without pauses

One round looks at all links on the roster, and the receive on each of them ends before the next one
begins. Rounds are repeated until one of them changes nothing any more.

* `Monitor.visit`   all steps that a link goes through in a round;
* `Monitor.round`   a round;
* `Monitor.settle`  rounds until the traffic has come to rest.
-/

namespace BundleLink.Monitor

variable {τ : Type}

def orSame (step : Monitor τ → Option (Monitor τ)) (m : Monitor τ) : Monitor τ := (step m).getD m

/-- the worker that the submission of the scanner was given -/
def workerFor (m : Monitor τ) : Option Nat :=
  match m.scanner with
  | .submitting ticket =>
    match m.pool.callState? ticket with
    | some (.holding worker) => some worker
    | _ => none
  | _ => none

/-- looks at one link and receives on it, if it can be claimed and is open -/
def visit [Channel τ] (m : Monitor τ) : Monitor τ :=
  let m := orSame (submit none) (orSame scan m)
  match m.workerFor with
  | some worker =>
    orSame (giveBack worker) (orSame (finish worker) (orSame (take worker) (orSame handOver m)))
  | none => m

/-- as many visits as there are links on the roster, and one that starts over -/
def round [Channel τ] (m : Monitor τ) : Monitor τ :=
  (List.range (m.network.roster.size + 1)).foldl (fun m _ => m.visit) m

/-- what a round that has nothing to do leaves as it is -/
def standing (m : Monitor τ) : List (Bool × Traffic) :=
  m.network.stations.entries.map (fun e => (e.1, e.2.link))
    |>.mergeSort (fun a b => a.1 ≤ b.1)
    |>.map fun e => (e.2.connected, e.2.traffic)

/-- at most `limit` rounds, up to the first one that changes nothing -/
def settle [Channel τ] : Nat → Monitor τ → Monitor τ
  | 0, m => m
  | limit + 1, m =>
    let next := m.round
    if next.standing = m.standing then next else settle limit next

end BundleLink.Monitor
