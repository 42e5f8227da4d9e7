import BundleLink.Proofs.Network.Claims
import BundleLink.Proofs.Network.Uses
import Mathlib.Logic.Function.Basic
import Mathlib.Logic.Relation

/-!
# A diary of a network

All that happens to a network from its start is told as a series of events. Along with it a record
is kept of the numbers that were given to links, of the calls that each link made on its channel,
and of the bundles that it handed out to its reader. A fault ends a call, and the closing of all
links if it comes up there; other links and later events go on.

* `Network.Event`          opening of links, calls, closing of all links, whatever others do to the
  channels, and time that goes by;
* `Network.Diary`          a network with its record, `Diary.run` what events make of it;
* `Diary.closeAll_network` closing all links is closing one after the other;
* `Diary.Effect`           the four kinds of changes of which all events consist, `run_effects`.
-/

namespace BundleLink

open Pair (Operation)

namespace Network

variable {τ : Type}

/-- whether the link with the number is there and connected -/
def isConnected (n : Network τ) (id : Nat) : Bool := ((n.link? id).map Link.connected).getD false

/-- whether the link with the number met a fault -/
def hasHalted (n : Network τ) (id : Nat) : Bool :=
  ((n.stations.get? id).map Station.halted).getD false

/-- the bundles of a link that nobody read yet -/
def queue (n : Network τ) (id : Nat) : List Bytes := ((n.link? id).map Link.ready).getD []

/-- the calls that an operation of a link makes on its channel -/
def uses [Channel τ] (id : Nat) (op : Operation) (n : Network τ) : List ChannelUse :=
  match n.stations.get? id with
  | some s => if s.halted then [] else Attached.uses op n.now ⟨s.link, n.channelOf s.plug⟩
  | none => []

/-- something happens to a link's own channel from outside -/
def replace (id : Nat) (new : τ) (n : Network τ) : Network τ :=
  match n.stations.get? id with
  | some ⟨link, .own _, halted⟩ => { n with stations := n.stations.put id ⟨link, .own new, halted⟩ }
  | _ => n

/-- a change of a link that is no operation -/
inductive Change where
  | layout (layout : Layout)
  | claim
  | unclaim

/-- the network after the change, if there is a link with the number -/
def change (id : Nat) (c : Change) (n : Network τ) : Option (Network τ) :=
  match c with
  | .layout new => (n.setLayout id new).map Prod.snd
  | .claim => (n.alter id Link.tryClaim).map Prod.snd
  | .unclaim => (n.alter id fun l => ((), l.unclaim)).map Prod.snd

inductive Event (τ : Type) where
  | openLink (settings : Settings) (generation : UInt64) (description : String) (plug : Plug τ)
  | call (id : Nat) (op : Operation)
  | closeAll
  | change (id : Nat) (c : Change)
  | replace (id : Nat) (new : τ)
  | newWire
  /-- a peer outside the network uses a memory channel -/
  | setWire (i : Nat) (d : Duplex)
  /-- time goes by -/
  | pass (d : Span)

structure Record where
  /-- the numbers that were given to links, the first one first -/
  opened : List Nat
  /-- the calls that each link made on its channel, the first one first -/
  uses : Nat → List ChannelUse
  /-- the bundles that each link handed out, the first one first -/
  taken : Nat → List Bytes

namespace Record

def empty : Record := ⟨[], fun _ => [], fun _ => []⟩

def enter (r : Record) (id : Nat) : Record := { r with opened := r.opened ++ [id] }

def add (r : Record) (id : Nat) (us : List ChannelUse) (bs : List Bytes) : Record :=
  { r with
    uses := Function.update r.uses id (r.uses id ++ us)
    taken := Function.update r.taken id (r.taken id ++ bs) }

theorem uses_add (r : Record) (id : Nat) (us : List ChannelUse) (bs : List Bytes) (j : Nat) :
    (r.add id us bs).uses j = if j = id then r.uses id ++ us else r.uses j :=
  Function.update_apply ..

theorem taken_add (r : Record) (id : Nat) (us : List ChannelUse) (bs : List Bytes) (j : Nat) :
    (r.add id us bs).taken j = if j = id then r.taken id ++ bs else r.taken j :=
  Function.update_apply ..

theorem add_nil (r : Record) (id : Nat) : r.add id [] [] = r := by
  rw [add, List.append_nil, List.append_nil, Function.update_eq_self, Function.update_eq_self]

end Record

structure Diary (τ : Type) where
  network : Network τ
  record : Record

namespace Diary

def start : Diary τ := ⟨.empty, .empty⟩

def openLink (settings : Settings) (generation : UInt64) (description : String) (plug : Plug τ)
    (d : Diary τ) : Diary τ :=
  match d.network.openLink settings generation description plug with
  | (.ok id, n) => { d with network := n, record := d.record.enter id }
  | (.error _, n) => { d with network := n }

variable [Channel τ]

def call (id : Nat) (op : Operation) (d : Diary τ) : Diary τ :=
  match d.network.perform id op with
  | some (response, n) =>
    { network := n
      record := d.record.add id (d.network.uses id op) response.bundle?.toList }
  | none => d

/-- closes these links, one after the other, up to the first fault -/
def closeEach : List Nat → Diary τ → Diary τ
  | [], d => d
  | id :: ids, d =>
    match d.network.close id with
    | some (.error _, _) => d.call id .close
    | _ => closeEach ids (d.call id .close)

/-- closes all links that are on the roster at first -/
def closeAll (d : Diary τ) : Diary τ := d.closeEach d.network.roster.ids

/-- An event that can not happen changes nothing. -/
def step (d : Diary τ) : Event τ → Diary τ
  | .openLink settings generation description plug =>
    d.openLink settings generation description plug
  | .call id op => d.call id op
  | .closeAll => d.closeAll
  | .change id c =>
    match d.network.change id c with
    | some n => { d with network := n }
    | none => d
  | .replace id new => { d with network := d.network.replace id new }
  | .newWire => { d with network := d.network.newWire.2 }
  | .setWire i w => { d with network := d.network.setWire i w }
  | .pass t =>
    match d.network.advance t with
    | .ok n => { d with network := n }
    | .error _ => d

def run (d : Diary τ) (es : List (Event τ)) : Diary τ := es.foldl step d

omit [Channel τ] in
theorem link?_of_get? {n : Network τ} {id : Nat} {s : Station τ} (h : n.stations.get? id = some s) :
    n.link? id = some s.link := by
  rw [link?, h]
  rfl

omit [Channel τ] in
theorem hasHalted_of_get? {n : Network τ} {id : Nat} {s : Station τ}
    (h : n.stations.get? id = some s) : n.hasHalted id = s.halted := by
  rw [hasHalted, h]
  rfl

/-! ## closing all links -/

theorem network_call (id : Nat) (d : Diary τ) :
    (d.call id .close).network = ((d.network.close id).map Prod.snd).getD d.network := by
  rw [call, perform]
  cases d.network.close id <;> rfl

theorem closeEach_network (ids : List Nat) (d : Diary τ) :
    (d.closeEach ids).network = (d.network.closeEach ids).2 := by
  induction ids generalizing d with
  | nil => rfl
  | cons id ids ih =>
    have hcall := network_call id d
    rw [closeEach, Network.closeEach]
    rcases hclose : d.network.close id with _ | ⟨_ | _, n⟩
    · rw [hclose] at hcall
      exact (ih _).trans (congrArg (fun n => (n.closeEach ids).2) hcall)
    · rw [hclose] at hcall
      exact hcall
    · rw [hclose] at hcall
      exact (ih _).trans (congrArg (fun n => (n.closeEach ids).2) hcall)

theorem closeAll_network (d : Diary τ) : d.closeAll.network = d.network.closeAll.2 :=
  closeEach_network d.network.roster.ids d

/-! ## what events consist of -/

/-- One thing happens, as far as links, the roster and the record are concerned. -/
inductive Effect (d d' : Diary τ) : Prop
  | still (links : ∀ j, d'.network.link? j = d.network.link? j)
      (halts : ∀ j, d'.network.hasHalted j = d.network.hasHalted j)
      (roster : d'.network.roster = d.network.roster) (record : d'.record = d.record)
  /-- An operation or a change of one link, which may end in a fault. The link stays on the roster
  with what it was, or is struck off it and is closed. -/
  | turn (id : Nat) (l l' : Link) (halted : Bool) (us : List ChannelUse) (bs : List Bytes)
      (found : d.network.link? id = some l) (running : d.network.hasHalted id = false)
      (turn : l.Turn l' us bs)
      (links : ∀ j, d'.network.link? j = if j = id then some l' else d.network.link? j)
      (halts : ∀ j, d'.network.hasHalted j = if j = id then halted else d.network.hasHalted j)
      (roster : d'.network.roster = d.network.roster ∧ l'.connected = l.connected ∨
        d'.network.roster = d.network.roster.strike id ∧ l'.connected = false)
      (record : d'.record = d.record.add id us bs)
  /-- the same to a link that met a fault before -/
  | rest (id : Nat) (l l' : Link) (bs : List Bytes) (found : d.network.link? id = some l)
      (halted : d.network.hasHalted id = true) (rest : l.Rest l' bs)
      (links : ∀ j, d'.network.link? j = if j = id then some l' else d.network.link? j)
      (halts : ∀ j, d'.network.hasHalted j = d.network.hasHalted j)
      (roster : d'.network.roster = d.network.roster) (record : d'.record = d.record.add id [] bs)
  | opened (l : Link) (connected : l.connected = true) (ready : l.ready = [])
      (links : ∀ j, d'.network.link? j =
        if j = d.network.roster.nextId then some l else d.network.link? j)
      (halts : ∀ j, d'.network.hasHalted j =
        if j = d.network.roster.nextId then false else d.network.hasHalted j)
      (roster : d'.network.roster = d.network.roster.enrol.2)
      (record : d'.record = d.record.enter d.network.roster.nextId)

abbrev Effects : Diary τ → Diary τ → Prop := Relation.ReflTransGen Effect

omit [Channel τ] in
theorem link?_of_put {n n' : Network τ} {id : Nat} {t : Station τ}
    (h : ∀ j, n'.stations.get? j = if j = id then some t else n.stations.get? j) (j : Nat) :
    n'.link? j = if j = id then some t.link else n.link? j := by
  rw [link?, h]
  split <;> rfl

omit [Channel τ] in
theorem link?_put (n : Network τ) (id : Nat) (t : Station τ) (j : Nat) :
    ({ n with stations := n.stations.put id t } : Network τ).link? j =
      if j = id then some t.link else n.link? j :=
  link?_of_put (fun j => Table.get?_put n.stations j id t) j

omit [Channel τ] in
theorem hasHalted_of_put {n n' : Network τ} {id : Nat} {t : Station τ}
    (h : ∀ j, n'.stations.get? j = if j = id then some t else n.stations.get? j) (j : Nat) :
    n'.hasHalted j = if j = id then t.halted else n.hasHalted j := by
  rw [hasHalted, h]
  split <;> rfl

omit [Channel τ] in
theorem hasHalted_put (n : Network τ) (id : Nat) (t : Station τ) (j : Nat) :
    ({ n with stations := n.stations.put id t } : Network τ).hasHalted j =
      if j = id then t.halted else n.hasHalted j :=
  hasHalted_of_put (fun j => Table.get?_put n.stations j id t) j

omit [Channel τ] in
/-- a link that keeps running, or keeps being halted -/
theorem hasHalted_put_same {n : Network τ} {id : Nat} {s t : Station τ}
    (hs : n.stations.get? id = some s) (hhalted : t.halted = s.halted) (j : Nat) :
    ({ n with stations := n.stations.put id t } : Network τ).hasHalted j = n.hasHalted j := by
  rw [hasHalted_put]
  split
  · rename_i heq
    rw [heq, hasHalted_of_get? hs, hhalted]
  · rfl

omit [Channel τ] in
theorem openLink_effects (settings : Settings) (generation : UInt64) (description : String)
    (plug : Plug τ) (d : Diary τ) :
    Effects d (d.openLink settings generation description plug) := by
  rw [openLink, Network.openLink]
  cases settings.check with
  | error e => exact .refl
  | ok _ =>
    refine .single (.opened (.opened d.network.roster.nextId description settings generation
      d.network.now) rfl rfl ?_ ?_ rfl rfl)
    · exact link?_put d.network d.network.roster.nextId ⟨_, plug, false⟩
    · exact hasHalted_put d.network d.network.roster.nextId ⟨_, plug, false⟩

theorem call_effects (id : Nat) (op : Operation) (d : Diary τ) : Effects d (d.call id op) := by
  rw [call]
  cases hperform : d.network.perform id op with
  | none => exact .refl
  | some result =>
    obtain ⟨response, n⟩ := result
    obtain ⟨s, hs, hperformed⟩ := performed_of_perform hperform
    have hl := link?_of_get? hs
    have hhalted := hasHalted_of_get? hs
    dsimp only
    rw [uses, hs]
    dsimp only
    cases hperformed with
    | halted before =>
      rw [if_pos before]
      exact .single (.rest id s.link _ _ hl (hhalted.trans before) (s.link.serveHalted_rest op)
        (link?_put d.network id { s with link := (s.link.serveHalted op).2 })
        (hasHalted_put_same (t := { s with link := (s.link.serveHalted op).2 }) hs rfl) rfl rfl)
    | aside running isLocal =>
      rw [if_neg (by rw [running]; exact Bool.false_ne_true), Attached.uses_of_local isLocal]
      exact .single (.turn id s.link _ _ [] _ hl (hhalted.trans running) (s.link.serve_turn op)
        (link?_put d.network id (s.served op)) (hasHalted_put d.network id (s.served op))
        (.inl ⟨rfl, s.link.serve_connected op⟩) rfl)
    | channel running isCall r called =>
      have hturn := Attached.call_turn op d.network.now ⟨s.link, d.network.channelOf s.plug⟩
      rw [if_neg (by rw [running]; exact Bool.false_ne_true)]
      rw [called] at hturn
      generalize Attached.uses op d.network.now ⟨s.link, d.network.channelOf s.plug⟩ = us at hturn
      have hget := get?_leave d.network id s.plug (faulted (result r)) r.after
      refine .single (.turn id s.link r.after.link _ us [] hl (hhalted.trans running) hturn
        (link?_of_put hget) (hasHalted_of_put hget) ?_ ?_)
      · dsimp only
        rw [leave_eq]
        cases hconnected : r.after.link.connected with
        | true => exact .inl ⟨rfl, (hturn.stays hconnected).1.symm⟩
        | false => exact .inr ⟨rfl, rfl⟩
      · rw [Response.bundle?_ofCall]
        rfl

theorem closeEach_effects (ids : List Nat) (d : Diary τ) : Effects d (d.closeEach ids) := by
  induction ids generalizing d with
  | nil => exact .refl
  | cons id ids ih =>
    rw [closeEach]
    split
    · exact call_effects id .close d
    · exact (call_effects id .close d).trans (ih _)

omit [Channel τ] in
theorem roster_replace (id : Nat) (new : τ) (n : Network τ) :
    (n.replace id new).roster = n.roster := by
  rw [replace]
  split <;> rfl

omit [Channel τ] in
theorem link?_replace (id : Nat) (new : τ) (n : Network τ) (j : Nat) :
    (n.replace id new).link? j = n.link? j ∧ (n.replace id new).hasHalted j = n.hasHalted j := by
  rw [replace]
  split
  · rename_i link old halted hs
    refine ⟨?_, hasHalted_put_same (t := ⟨link, .own new, halted⟩) hs rfl j⟩
    rw [link?_put]
    split
    · rename_i heq
      rw [heq, link?_of_get? hs]
    · rfl
  · exact ⟨rfl, rfl⟩

omit [Channel τ] in
/-- something about a link changes, but neither its queue nor whether it is open -/
theorem put_effects {d : Diary τ} {id : Nat} {s : Station τ} {l : Link}
    (hs : d.network.stations.get? id = some s) (hconnected : l.connected = s.link.connected)
    (hready : l.ready = s.link.ready) :
    Effects d { d with
      network :=
        { d.network with stations := d.network.stations.put id { s with link := l } } } := by
  have hl := link?_of_get? hs
  have hhalted := hasHalted_of_get? hs
  have hlinks := link?_put d.network id { s with link := l }
  by_cases h : s.halted = true
  · exact .single (.rest id s.link l [] hl (hhalted.trans h)
      ⟨hready, fun hopen => hconnected.symm.trans hopen⟩ hlinks
      (hasHalted_put_same (t := { s with link := l }) hs rfl) rfl (d.record.add_nil id).symm)
  · exact .single (.turn id s.link l s.halted [] [] hl
      (hhalted.trans (Bool.eq_false_iff.mpr h)) (.of_same hconnected hready) hlinks
      (hasHalted_put d.network id { s with link := l }) (.inl ⟨rfl, hconnected⟩)
      (d.record.add_nil id).symm)

omit [Channel τ] in
theorem alter_effects {α : Type} {d : Diary τ} {id : Nat} {f : Link → α × Link} {n : Network τ}
    (hkeeps : ∀ l, (f l).2.connected = l.connected ∧ (f l).2.ready = l.ready)
    (h : (d.network.alter id f).map Prod.snd = some n) : Effects d { d with network := n } := by
  cases hs : d.network.stations.get? id with
  | none =>
    rw [alter, hs] at h
    cases h
  | some s =>
    rw [alter_eq hs] at h
    cases h
    exact put_effects hs (hkeeps s.link).1 (hkeeps s.link).2

omit [Channel τ] in
theorem change_effects (id : Nat) (c : Change) (d : Diary τ) {n : Network τ}
    (h : d.network.change id c = some n) : Effects d { d with network := n } := by
  cases c with
  | claim => exact alter_effects (fun l => ⟨rfl, rfl⟩) h
  | unclaim => exact alter_effects (fun l => ⟨rfl, rfl⟩) h
  | layout new =>
    rw [change, setLayout] at h
    cases hs : d.network.stations.get? id with
    | none =>
      rw [adjust, hs] at h
      cases h
    | some s =>
      cases hhalted : s.halted with
      | true =>
        rw [adjust_halted hs hhalted] at h
        cases h
        exact put_effects hs rfl rfl
      | false =>
        rw [adjust_eq hs hhalted] at h
        cases h
        have hput := put_effects (l := s.link.setLayout new) hs rfl rfl
        rw [hhalted] at hput
        exact hput

theorem step_effects (d : Diary τ) (e : Event τ) : Effects d (d.step e) := by
  cases e with
  | openLink settings generation description plug => exact openLink_effects ..
  | call id op => exact call_effects id op d
  | closeAll => exact closeEach_effects _ d
  | change id c =>
    rw [step]
    split
    · rename_i n hchange
      exact change_effects id c d hchange
    · exact .refl
  | replace id new =>
    exact .single (.still (fun j => (link?_replace id new d.network j).1)
      (fun j => (link?_replace id new d.network j).2) (roster_replace id new d.network) rfl)
  | newWire => exact .single (.still (fun _ => rfl) (fun _ => rfl) rfl rfl)
  | setWire i w => exact .single (.still (fun _ => rfl) (fun _ => rfl) rfl rfl)
  | pass t =>
    rw [step]
    cases hpassed : d.network.advance t with
    | error f => exact .refl
    | ok n =>
      obtain ⟨now, rfl⟩ := advance_ok hpassed
      exact .single (.still (fun _ => rfl) (fun _ => rfl) rfl rfl)

theorem run_effects (d : Diary τ) (es : List (Event τ)) : Effects d (d.run es) := by
  induction es generalizing d with
  | nil => exact .refl
  | cons e es ih => exact (step_effects d e).trans (ih (d.step e))

theorem run_append (d : Diary τ) (es later : List (Event τ)) :
    d.run (es ++ later) = (d.run es).run later := List.foldl_append

end Diary

end Network

end BundleLink
