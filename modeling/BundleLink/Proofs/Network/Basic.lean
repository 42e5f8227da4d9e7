import BundleLink.Network
import BundleLink.Proofs.Calling
import BundleLink.Proofs.Pair.Basic

/-!
# Networks in use

Applications make calls on the links of a network, one at a time, while peers outside the network do
as they like with the other ends of the channels.

* `Response`               what a call hands back, `Network.perform` the call;
* `Network.Step`, `Network.Reachable`  all that can happen to a network;
* `Plug.Fits`           the channel is the one that the plug gives access to, and stays so;
* `Network.leave`       the network after an operation of a link, with one lemma for each part;
* `Network.Performed`   the ways that a call can take, `exists_performed` that it takes one;
* `Network.Tidy`        closed links are not on the roster, unless they met a fault, and each plug
  has a channel behind it.
-/

namespace BundleLink

/-! ## calls of an application -/

inductive Yield where
  | done
  | bundle (bundle : Option Bytes)
  | length (length : Option Nat)
  | text (text : Option String)
  deriving DecidableEq, Repr

/-- what a call hands back -/
structure Response where
  result : Except (Failure LinkError) Yield
  /-- the buffer that was lent for the call, as it is afterwards -/
  buffer : Bytes
  deriving Repr

namespace Response

def done : Response := ⟨.ok .done, []⟩

/-- the response to an operation that hands nothing out -/
def ofCall {α : Type} (r : Except (Failure LinkError) α) : Response := ⟨r.map fun _ => .done, []⟩

/-- the response to a read -/
def ofLink {α : Type} (yield : α → Yield) (r : Except LinkError α) (buffer : Bytes) : Response :=
  ⟨(r.map yield).mapError .error, buffer⟩

def failure (r : Response) : Option (Failure LinkError) :=
  match r.result with
  | .ok _ => none
  | .error e => some e

/-- The call met a fault. -/
def isFault (r : Response) : Bool := faulted r.result

theorem isFault_ofCall {α : Type} (r : Except (Failure LinkError) α) :
    (ofCall r).isFault = faulted r := by cases r <;> rfl

theorem isFault_ofLink {α : Type} (yield : α → Yield) (r : Except LinkError α) (buffer : Bytes) :
    (ofLink yield r buffer).isFault = false := by cases r <;> rfl

theorem isFault_of_error {r : Response} {e : LinkError} (h : r.failure = some (.error e)) :
    r.isFault = false := by
  obtain ⟨result, buffer⟩ := r
  rcases result with ⟨e' | f⟩ | _
  · rfl
  · cases h
  · rfl

theorem failure_ofCall {α : Type} {r : Except (Failure LinkError) α} {e : Failure LinkError}
    (h : (ofCall r).failure = some e) : r = .error e := by
  cases r with
  | ok _ => cases h
  | error f => exact congrArg Except.error (Option.some.inj h)

theorem failure_ofLink {α : Type} {yield : α → Yield} {r : Except LinkError α} {buffer : Bytes}
    {e : LinkError} (h : (ofLink yield r buffer).failure = some (.error e)) : r = .error e := by
  cases r with
  | ok _ => cases h
  | error f => exact congrArg Except.error (Failure.error.inj (Option.some.inj h))

end Response

/-- the buffer that the application lends for the call -/
def Pair.Operation.lent : Pair.Operation → Bytes
  | .readInto buffer => buffer
  | _ => []

/-- the operations that leave the channel alone -/
def Link.serve (l : Link) : Pair.Operation → Response × Link
  | .read => (.ofLink .bundle l.read.1 [], l.read.2)
  | .readInto buffer =>
    let (r, buffer, l) := l.readInto buffer
    (.ofLink .length r buffer, l)
  | .readText => (.ofLink .text l.readText.1 [], l.readText.2)
  | .setFragmentSize size =>
    (.ofCall ((l.setFragmentSize size).1.mapError Failure.error), (l.setFragmentSize size).2)
  | .advanceGeneration =>
    (.ofCall (faulting l.advanceGeneration.1 : Except (Failure LinkError) UInt64),
      l.advanceGeneration.2)
  | _ => (.done, l)

/-- the station of a link after such an operation -/
def Station.served {τ : Type} (s : Station τ) (op : Pair.Operation) : Station τ :=
  { s with link := (s.link.serve op).2, halted := (s.link.serve op).1.isFault }

/-- The operation takes bundles out of the queue. -/
def Pair.Operation.isReading : Pair.Operation → Bool
  | .read | .readInto _ | .readText => true
  | _ => false

/-- all operations, once a fault has halted the link -/
def Link.serveHalted (l : Link) (op : Pair.Operation) : Response × Link :=
  match op with
  | .write .. | .writeText .. | .receive => (.ofCall (.error l.refusal : Except _ Unit), l)
  | .setFragmentSize _ | .advanceGeneration =>
    (.ofCall (.error (.fault .halted) : Except _ Unit), l)
  | .close => (.ofCall l.disconnect.1, l.disconnect.2)
  | op => l.serve op

/-- The channel is left alone. -/
def Pair.Operation.isLocal : Pair.Operation → Bool
  | .read | .readInto _ | .readText | .setFragmentSize _ | .advanceGeneration => true
  | .write .. | .writeText .. | .receive | .close => false

/-- the operations on the channel -/
def Attached.call {σ : Type} [Channel σ] (op : Pair.Operation) (now : Moment) (a : Attached σ) :
    Outcome σ Unit :=
  match op with
  | .write buffer flushNow => a.write buffer flushNow now
  | .writeText text flushNow => a.write (Utf8.encode text) flushNow now
  | .receive => a.receive now
  | .close => .ok () a.close
  | _ => .ok () a

theorem Link.serve_connected (l : Link) (op : Pair.Operation) :
    (l.serve op).2.connected = l.connected := by
  cases op with
  | read =>
    show l.read.2.connected = _
    rw [read]
    split <;> rfl
  | readInto buffer =>
    show (l.readInto buffer).2.2.connected = _
    rw [readInto]
    split
    · rfl
    · split <;> rfl
  | readText =>
    show l.readText.2.connected = _
    rw [readText]
    split
    · rfl
    · split <;> rfl
  | setFragmentSize size =>
    show (l.setFragmentSize size).2.connected = _
    rw [setFragmentSize]
    split <;> rfl
  | advanceGeneration =>
    show l.advanceGeneration.2.connected = _
    rw [advanceGeneration]
    split <;> rfl
  | _ => rfl

/-! ## plugs -/

namespace Plug

variable {τ : Type}

/-- the plug of a link whose channel is left like this -/
def holding : Plug τ → End ⊕ τ → Plug τ
  | .wire i side, .inl _ => .wire i side
  | .own ch, .inl _ => .own ch
  | _, .inr ch => .own ch

/-- the memory channels, when one side of one of them is left like this -/
def rewire : Plug τ → End ⊕ τ → Array Duplex → Array Duplex
  | .wire i _, .inl e, wires => wires.setIfInBounds i e.duplex
  | _, _, wires => wires

theorem size_rewire (plug : Plug τ) (ch : End ⊕ τ) (wires : Array Duplex) :
    (plug.rewire ch wires).size = wires.size := by
  cases plug <;> cases ch <;> first | rfl | exact Array.size_setIfInBounds

/-- The channel is of the kind that the plug gives access to. -/
def Fits : Plug τ → End ⊕ τ → Prop
  | .wire _ side, .inl e => e.side = side
  | .own _, .inr _ => True
  | _, _ => False

theorem fits_channelOf (plug : Plug τ) (n : Network τ) : plug.Fits (n.channelOf plug) := by
  cases plug with
  | wire i side => exact (rfl : side = side)
  | own ch => trivial

variable [Channel τ] {plug : Plug τ} {ch ch' : End ⊕ τ}

theorem Fits.leads (h : plug.Fits ch) (hleads : Channel.Leads ch ch') : plug.Fits ch' := by
  induction hleads with
  | refl => exact h
  | @read ch' n _ ih => cases plug <;> cases ch' <;> exact ih
  | @write ch' bs _ ih => cases plug <;> cases ch' <;> exact ih
  | @flush ch' _ ih => cases plug <;> cases ch' <;> exact ih

theorem Fits.close (h : plug.Fits ch) : plug.Fits (Channel.close ch).2 := by
  cases plug <;> cases ch <;> exact h

end Plug

/-! ## the network after an operation -/

namespace Network

open Pair (Operation)

variable {τ : Type} {n n' : Network τ} {id : Nat} {s : Station τ}

/-- There is a channel behind the plug. -/
def Offers (n : Network τ) : Plug τ → Prop
  | .wire i _ => i < n.wires.size
  | .own _ => True

theorem Offers.mono {plug : Plug τ} (hsize : n.wires.size ≤ n'.wires.size)
    (h : n.Offers plug) : n'.Offers plug := by
  cases plug with
  | wire i side => exact Nat.lt_of_lt_of_le h hsize
  | own ch => trivial

theorem holding_channelOf (n : Network τ) (plug : Plug τ) :
    plug.holding (n.channelOf plug) = plug := by
  cases plug <;> rfl

theorem rewire_channelOf (n : Network τ) (plug : Plug τ) :
    plug.rewire (n.channelOf plug) n.wires = n.wires := by
  cases plug with
  | own ch => rfl
  | wire i side =>
    show n.wires.setIfInBounds i (n.wires[i]?.getD .empty) = n.wires
    cases hi : n.wires[i]? with
    | none => exact Array.setIfInBounds_eq_of_size_le (Array.getElem?_eq_none_iff.mp hi)
    | some d =>
      obtain ⟨hbound, hd⟩ := Array.getElem?_eq_some_iff.mp hi
      rw [Option.getD_some, ← hd, Array.setIfInBounds, dif_pos hbound, Array.set_getElem_self]

/-- what an operation of a link leaves of the network, if it leaves the link and its channel so -/
def leave (n : Network τ) (id : Nat) (plug : Plug τ) (halted : Bool) (a : Attached (End ⊕ τ)) :
    Network τ :=
  ({ n with stations := n.stations.erase id }).putBack id plug halted a

section
variable (n id) (plug : Plug τ) (halted : Bool) (a : Attached (End ⊕ τ))

theorem leave_eq : n.leave id plug halted a =
    { now := n.now
      roster := if a.link.connected then n.roster else n.roster.strike id
      stations := (n.stations.erase id).put id ⟨a.link, plug.holding a.channel, halted⟩
      wires := plug.rewire a.channel n.wires } := by
  obtain ⟨link, channel⟩ := a
  unfold leave putBack
  cases plug <;> cases channel <;> dsimp only <;> split <;> rfl

theorem get?_leave (j : Nat) : (n.leave id plug halted a).stations.get? j =
    if j = id then some ⟨a.link, plug.holding a.channel, halted⟩ else n.stations.get? j := by
  rw [leave_eq, Table.get?_put, Table.get?_erase]
  split <;> rfl

theorem size_wires_leave : (n.leave id plug halted a).wires.size = n.wires.size := by
  rw [leave_eq]
  exact plug.size_rewire a.channel n.wires

variable {plug}

theorem offers_leave (h : n.Offers plug) :
    (n.leave id plug halted a).Offers (plug.holding a.channel) := by
  have hsame : (n.leave id plug halted a).Offers plug :=
    h.mono (Nat.le_of_eq (size_wires_leave ..).symm)
  generalize n.leave id plug halted a = m at hsame
  cases plug <;> cases a.channel <;> first | exact hsame | trivial

/-- the plug gives access to the channel as it was left -/
theorem channelOf_leave (hoffers : n.Offers plug) (hfits : plug.Fits a.channel) :
    (n.leave id plug halted a).channelOf (plug.holding a.channel) = a.channel := by
  obtain ⟨link, channel⟩ := a
  rw [leave_eq]
  rcases plug with ⟨i, side⟩ | ch <;> rcases channel with e | ch'
  · have hside : e.side = side := hfits
    have hbound : i < n.wires.size := hoffers
    show Sum.inl (End.mk side ((n.wires.setIfInBounds i e.duplex)[i]?.getD .empty)) = Sum.inl e
    rw [Array.getElem?_setIfInBounds_self_of_lt hbound, ← hside]
    rfl
  · exact hfits.elim
  · exact hfits.elim
  · rfl

end

/-- the result of an operation -/
def result {σ α : Type} : Outcome σ α → Except (Failure LinkError) α
  | .ok x _ => .ok x
  | .error e _ => .error e

theorem operate_eq {α : Type} (hs : n.stations.get? id = some s) (hrunning : s.halted = false)
    {op : Attached (End ⊕ τ) → Outcome (End ⊕ τ) α} {r : Outcome (End ⊕ τ) α}
    (hr : op ⟨s.link, n.channelOf s.plug⟩ = r) :
    n.operate id op =
      some (result r, n.leave id s.plug (faulted (result r)) r.after) := by
  have hchannel : ({ n with stations := n.stations.erase id } : Network τ).channelOf s.plug =
      n.channelOf s.plug := by cases s.plug <;> rfl
  rw [operate, hs]
  dsimp only
  rw [if_neg (by rw [hrunning]; exact Bool.false_ne_true), hchannel, hr]
  cases r <;> rfl

theorem alter_eq {α : Type} (hs : n.stations.get? id = some s) (f : Link → α × Link) :
    n.alter id f = some ((f s.link).1,
      { n with stations := n.stations.put id { s with link := (f s.link).2 } }) := by
  rw [alter, hs]

theorem adjust_eq {α : Type} (hs : n.stations.get? id = some s) (hrunning : s.halted = false)
    (f : Link → Except (Failure LinkError) α × Link) :
    n.adjust id f = some ((f s.link).1,
      { n with stations := n.stations.put id ⟨(f s.link).2, s.plug, faulted (f s.link).1⟩ }) := by
  rw [adjust, hs]
  dsimp only
  rw [if_neg (by rw [hrunning]; exact Bool.false_ne_true)]

theorem adjust_halted {α : Type} (hs : n.stations.get? id = some s) (hhalted : s.halted = true)
    (f : Link → Except (Failure LinkError) α × Link) :
    n.adjust id f =
      some (.error (.fault .halted), { n with stations := n.stations.put id s }) := by
  rw [adjust, hs]
  dsimp only
  rw [if_pos hhalted, alter_eq hs]

/-! ## the roster and the plugs -/

/-- Links that are closed are not on the roster, unless they met a fault before that, and each plug
has a channel behind it. -/
structure Tidy (n : Network τ) : Prop where
  struck : ∀ id s, n.stations.get? id = some s → s.link.connected = false → s.halted = false →
    id ∉ n.roster.ids
  offered : ∀ id s, n.stations.get? id = some s → n.Offers s.plug

theorem tidy_empty : Tidy (.empty : Network τ) := by
  constructor <;> intro id s hget <;> cases hget

/-- the stations and the roster stay -/
theorem Tidy.of_same (h : Tidy n) (hstations : n'.stations = n.stations)
    (hroster : n'.roster = n.roster) (hsize : n.wires.size ≤ n'.wires.size) : Tidy n' := by
  constructor
  · rw [hstations, hroster]
    exact h.struck
  · intro j t hj
    rw [hstations] at hj
    exact (h.offered j t hj).mono hsize

/-- only one station changes, and nothing else comes onto the roster -/
theorem Tidy.of_station (h : Tidy n)
    (hstations : ∀ j, n'.stations.get? j = if j = id then some s else n.stations.get? j)
    (hroster : ∀ j, j ≠ id → j ∈ n'.roster.ids → j ∈ n.roster.ids)
    (hsize : n.wires.size ≤ n'.wires.size)
    (hstruck : s.link.connected = false → s.halted = false → id ∉ n'.roster.ids)
    (hoffered : n'.Offers s.plug) : Tidy n' := by
  constructor
  · intro j t hj hclosed hrunning
    rw [hstations] at hj
    split at hj
    · rename_i hsame
      cases hj
      rw [hsame]
      exact hstruck hclosed hrunning
    · rename_i hother
      exact fun hmem => h.struck j t hj hclosed hrunning (hroster j hother hmem)
  · intro j t hj
    rw [hstations] at hj
    split at hj
    · cases hj
      exact hoffered
    · exact (h.offered j t hj).mono hsize

theorem Tidy.leave (h : Tidy n) (hs : n.stations.get? id = some s) (halted : Bool)
    (a : Attached (End ⊕ τ)) : Tidy (n.leave id s.plug halted a) := by
  have hroster := congrArg Network.roster (leave_eq n id s.plug halted a)
  refine h.of_station (get?_leave n id s.plug halted a) ?_
    (Nat.le_of_eq (size_wires_leave ..).symm) ?_ (offers_leave n id halted a (h.offered id s hs))
  · intro j hj hmem
    rw [hroster] at hmem
    split at hmem
    · exact hmem
    · exact (Roster.mem_ids_strike.mp hmem).1
  · intro hclosed _ hmem
    replace hclosed : a.link.connected = false := hclosed
    rw [hroster, hclosed, if_neg Bool.false_ne_true] at hmem
    exact (Roster.mem_ids_strike.mp hmem).2 rfl

theorem Tidy.put (h : Tidy n) (hs : n.stations.get? id = some s) {t : Station τ}
    (hclosing : t.link.connected = false → t.halted = false →
      s.link.connected = false ∧ s.halted = false) (hoffered : n.Offers t.plug) :
    Tidy { n with stations := n.stations.put id t } := by
  refine h.of_station (fun j => Table.get?_put n.stations j id t) (fun _ _ hmem => hmem)
    (Nat.le_refl _) (fun hclosed hrunning => ?_) hoffered
  obtain ⟨hbefore, hrunning'⟩ := hclosing hclosed hrunning
  exact h.struck id s hs hbefore hrunning'

theorem Tidy.alter (h : Tidy n) {α : Type} {x : α} {f : Link → α × Link}
    (hkeeps : ∀ l, (f l).2.connected = l.connected) (halter : n.alter id f = some (x, n')) :
    Tidy n' := by
  cases hs : n.stations.get? id with
  | none =>
    rw [Network.alter, hs] at halter
    cases halter
  | some s =>
    rw [alter_eq hs] at halter
    cases halter
    exact h.put hs (fun hclosed hrunning => ⟨(hkeeps s.link).symm.trans hclosed, hrunning⟩)
      (h.offered id s hs)

theorem Tidy.openLink (h : Tidy n) (settings : Settings) (generation : UInt64)
    (description : String) {plug : Plug τ} (hoffered : n.Offers plug) :
    Tidy (n.openLink settings generation description plug).2 := by
  rw [Network.openLink]
  split
  · exact h
  · refine h.of_station (fun j => Table.get?_put n.stations j n.roster.nextId _) ?_
      (Nat.le_refl _) (fun hclosed _ => nomatch hclosed) hoffered
    intro j hj hmem
    rcases List.mem_append.mp hmem with hold | hnew
    · exact hold
    · exact absurd (List.mem_singleton.mp hnew) hj

theorem Tidy.advance (h : Tidy n) {d : Span} (hpassed : n.advance d = .ok n') : Tidy n' := by
  rw [Network.advance] at hpassed
  cases hnow : n.now.add d with
  | error f =>
    rw [hnow] at hpassed
    cases hpassed
  | ok now =>
    rw [hnow] at hpassed
    rw [← Except.ok.inj hpassed]
    exact h.of_same rfl rfl (Nat.le_refl _)

/-! ## what can happen -/

variable [Channel τ]

/-- an application makes a call on a link -/
def perform (id : Nat) (op : Operation) (n : Network τ) : Option (Response × Network τ) :=
  match op with
  | .write buffer flushNow => (n.write id buffer flushNow).map fun (r, n) => (.ofCall r, n)
  | .writeText text flushNow =>
    (n.write id (Utf8.encode text) flushNow).map fun (r, n) => (.ofCall r, n)
  | .receive => (n.receive id).map fun (r, n) => (.ofCall r, n)
  | .setFragmentSize size => (n.setFragmentSize id size).map fun (r, n) => (.ofCall r, n)
  | .advanceGeneration => (n.advanceGeneration id).map fun (r, n) => (.ofCall r, n)
  | .close => (n.close id).map fun (r, n) => (.ofCall r, n)
  | op => n.alter id fun l => l.serve op

theorem perform_none (hs : n.stations.get? id = none) (op : Operation) :
    n.perform id op = none := by
  cases op <;> simp only [perform, write, receive, setFragmentSize, advanceGeneration, close,
    operate, adjust, alter, hs, Option.map_none]

/-- reads do not need the state of the protocol, whatever has become of it -/
theorem perform_reading (hs : n.stations.get? id = some s) {op : Operation}
    (h : op.isReading = true) :
    n.perform id op = some ((s.link.serve op).1,
      { n with stations := n.stations.put id { s with link := (s.link.serve op).2 } }) := by
  cases op with
  | read => exact alter_eq hs fun l => l.serve .read
  | readInto buffer => exact alter_eq hs fun l => l.serve (.readInto buffer)
  | readText => exact alter_eq hs fun l => l.serve .readText
  | _ => cases h

theorem perform_local (hs : n.stations.get? id = some s) (hrunning : s.halted = false)
    {op : Operation} (h : op.isLocal = true) :
    n.perform id op =
      some ((s.link.serve op).1, { n with stations := n.stations.put id (s.served op) }) := by
  have hreading (hop : op.isReading = true) (hfault : (s.link.serve op).1.isFault = false) :
      n.perform id op =
        some ((s.link.serve op).1, { n with stations := n.stations.put id (s.served op) }) := by
    rw [perform_reading hs hop, Station.served, hfault, ← hrunning]
  cases op with
  | read => exact hreading rfl (Response.isFault_ofLink ..)
  | readInto buffer => exact hreading rfl (Response.isFault_ofLink ..)
  | readText => exact hreading rfl (Response.isFault_ofLink ..)
  | setFragmentSize size =>
    rw [perform, setFragmentSize, adjust_eq hs hrunning, Station.served, Link.serve,
      Response.isFault_ofCall]
    rfl
  | advanceGeneration =>
    rw [perform, advanceGeneration, adjust_eq hs hrunning, Station.served, Link.serve,
      Response.isFault_ofCall]
    rfl
  | _ => cases h

theorem perform_call (hs : n.stations.get? id = some s) (hrunning : s.halted = false)
    {op : Operation} (h : op.isLocal = false) {r : Outcome (End ⊕ τ) Unit}
    (hr : Attached.call op n.now ⟨s.link, n.channelOf s.plug⟩ = r) :
    n.perform id op =
      some (.ofCall (result r), n.leave id s.plug (faulted (result r)) r.after) := by
  subst hr
  cases op with
  | write buffer flushNow => rw [perform, write, operate_eq hs hrunning rfl]; rfl
  | writeText text flushNow => rw [perform, write, operate_eq hs hrunning rfl]; rfl
  | receive => rw [perform, receive, operate_eq hs hrunning rfl]; rfl
  | close =>
    rw [perform, close, hs]
    dsimp only
    rw [if_neg (by rw [hrunning]; exact Bool.false_ne_true), operate_eq hs hrunning rfl]
    rfl
  | _ => cases h

theorem perform_halted (hs : n.stations.get? id = some s) (hhalted : s.halted = true)
    (op : Operation) :
    n.perform id op = some ((s.link.serveHalted op).1,
      { n with stations := n.stations.put id { s with link := (s.link.serveHalted op).2 } }) := by
  have hoperate (op : Attached (End ⊕ τ) → Outcome (End ⊕ τ) Unit) :
      n.operate id op =
        some (.error s.link.refusal, { n with stations := n.stations.put id s }) := by
    rw [operate, hs]
    dsimp only
    rw [if_pos hhalted, alter_eq hs]
  cases op with
  | read => exact perform_reading hs rfl
  | readInto buffer => exact perform_reading hs rfl
  | readText => exact perform_reading hs rfl
  | write buffer flushNow => rw [perform, write, hoperate]; rfl
  | writeText text flushNow => rw [perform, write, hoperate]; rfl
  | receive => rw [perform, receive, hoperate]; rfl
  | setFragmentSize size => rw [perform, setFragmentSize, adjust_halted hs hhalted]; rfl
  | advanceGeneration => rw [perform, advanceGeneration, adjust_halted hs hhalted]; rfl
  | close =>
    rw [perform, close, hs]
    dsimp only
    rw [if_pos hhalted, alter_eq hs]
    rfl

/-- The ways of a call on the link of the station `s`: a fault has halted the link before, or
the call leaves the channel alone, or it is made on the channel. -/
inductive Performed (n : Network τ) (id : Nat) (s : Station τ) (op : Operation) :
    Response → Network τ → Prop
  | halted (before : s.halted = true) :
      Performed n id s op (s.link.serveHalted op).1
        { n with stations := n.stations.put id { s with link := (s.link.serveHalted op).2 } }
  | aside (running : s.halted = false) (isLocal : op.isLocal = true) :
      Performed n id s op (s.link.serve op).1 { n with stations := n.stations.put id (s.served op) }
  | channel (running : s.halted = false) (isCall : op.isLocal = false)
      (r : Outcome (End ⊕ τ) Unit)
      (called : Attached.call op n.now ⟨s.link, n.channelOf s.plug⟩ = r) :
      Performed n id s op (.ofCall (result r)) (n.leave id s.plug (faulted (result r)) r.after)

theorem exists_performed (hs : n.stations.get? id = some s) (op : Operation) :
    ∃ response n', n.perform id op = some (response, n') ∧ Performed n id s op response n' := by
  cases hhalted : s.halted with
  | true => exact ⟨_, _, perform_halted hs hhalted op, .halted hhalted⟩
  | false =>
    cases hlocal : op.isLocal with
    | true => exact ⟨_, _, perform_local hs hhalted hlocal, .aside hhalted hlocal⟩
    | false => exact ⟨_, _, perform_call hs hhalted hlocal rfl, .channel hhalted hlocal _ rfl⟩

/-- a call that has a response takes one of these ways -/
theorem performed_of_perform {op : Operation} {response : Response}
    (h : n.perform id op = some (response, n')) :
    ∃ s, n.stations.get? id = some s ∧ Performed n id s op response n' := by
  cases hs : n.stations.get? id with
  | none =>
    rw [perform_none hs] at h
    cases h
  | some s =>
    obtain ⟨response', m, hperform, hperformed⟩ := exists_performed hs op
    rw [hperform] at h
    cases h
    exact ⟨s, rfl, hperformed⟩

/-- The network takes one step. -/
inductive Step (n : Network τ) : Network τ → Prop
  | perform {id : Nat} {op : Operation} {response : Response} {n' : Network τ}
      (performed : n.perform id op = some (response, n')) : Step n n'
  /-- a link is opened, unless its settings are refused -/
  | openLink (settings : Settings) (generation : UInt64) (description : String) (plug : Plug τ)
      (offered : n.Offers plug) : Step n (n.openLink settings generation description plug).2
  /-- a link is changed in a way that leaves it open or closed, such as by a claim -/
  | alter {α : Type} {id : Nat} {x : α} {n' : Network τ} (f : Link → α × Link)
      (keeps : ∀ l, (f l).2.connected = l.connected) (altered : n.alter id f = some (x, n')) :
      Step n n'
  /-- something happens at the other end of a link's own channel -/
  | replace {id : Nat} {link : Link} {old : τ} {halted : Bool} (new : τ)
      (found : n.stations.get? id = some ⟨link, .own old, halted⟩) :
      Step n { n with stations := n.stations.put id ⟨link, .own new, halted⟩ }
  | newWire : Step n n.newWire.2
  /-- a peer outside the network uses a memory channel -/
  | setWire (i : Nat) (d : Duplex) : Step n (n.setWire i d)
  | advance {d : Span} {n' : Network τ} (passed : n.advance d = .ok n') : Step n n'

inductive Reachable : Network τ → Prop
  | empty : Reachable empty
  | step {n n' : Network τ} (before : Reachable n) (taken : Step n n') : Reachable n'

theorem Tidy.perform (h : Tidy n) {op : Operation} {response : Response}
    (hperform : n.perform id op = some (response, n')) : Tidy n' := by
  obtain ⟨s, hs, hperformed⟩ := performed_of_perform hperform
  have hoffered := h.offered id s hs
  cases hperformed with
  | halted before =>
    exact h.put hs (fun _ hrunning => nomatch before.symm.trans hrunning) hoffered
  | aside running isLocal =>
    refine h.put hs (fun hclosed _ => ⟨?_, running⟩) hoffered
    exact (s.link.serve_connected op).symm.trans hclosed
  | channel running isCall r called => exact h.leave hs _ _

theorem Tidy.step (h : Tidy n) (hstep : Step n n') : Tidy n' := by
  cases hstep with
  | perform performed => exact h.perform performed
  | openLink settings generation description plug offered =>
    exact h.openLink settings generation description offered
  | alter f keeps altered => exact h.alter keeps altered
  | replace new found =>
    exact h.put found (fun hclosed hrunning => ⟨hclosed, hrunning⟩) trivial
  | newWire => exact h.of_same rfl rfl (Array.size_push _ ▸ Nat.le_succ _)
  | setWire i d => exact h.of_same rfl rfl (Nat.le_of_eq Array.size_setIfInBounds.symm)
  | advance passed => exact h.advance passed

/-- Whatever happens, links that are closed are not on the roster, unless they met a fault. -/
theorem Reachable.tidy (h : Reachable n) : Tidy n := by
  induction h with
  | empty => exact tidy_empty
  | step _ taken ih => exact ih.step taken

end Network

end BundleLink
