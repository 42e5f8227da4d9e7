import BundleLink.Proofs.Answering
import BundleLink.Proofs.Balance
import BundleLink.Proofs.Pair.Basic
import BundleLink.Proofs.Reassembly.Still

/-!
# One receive while the clock stands still

A link whose clock does not move, and whose peer can still write, handles the messages on their way
to it without failure, as long as every fragment fits into the raw bytes. The bundles of both sides
stay in balance, provided that the two sides use different generations.

* `Attached.Said`      what was written while fragments were handled;
* `Exchange`           the messages between a link and its peer, in both directions;
* `Exchange.handleAll` several fragments;
* `Attended`           what a receive leaves, and `Exchange.receive` that it does.
-/

namespace BundleLink

open Link (Still Calm)

namespace Attached

variable {σ : Type} [Channel σ] [Medium σ] {a b c : Attached σ} {fs gs : List Fragment}

/-- On the way from `a` to `b` the fragments `fs` were written and nothing was read. -/
structure Said (layout : Layout) (fs : List Fragment) (a b : Attached σ) : Prop where
  terms : b.link.terms = a.link.terms
  raw : b.link.raw = a.link.raw
  incoming : Medium.incoming b.channel = Medium.incoming a.channel
  isOpen : Medium.isOpen b.channel = Medium.isOpen a.channel
  description : Medium.description b.channel = Medium.description a.channel
  outgoing : Medium.outgoing b.channel =
    Medium.outgoing a.channel ++ fs.map (Fragment.wire layout)

theorem Said.refl (layout : Layout) (a : Attached σ) : Said layout [] a a :=
  ⟨rfl, rfl, rfl, rfl, rfl, (List.append_nil _).symm⟩

theorem Said.trans {layout : Layout} (h : Said layout fs a b) (h' : Said layout gs b c) :
    Said layout (fs ++ gs) a c := by
  refine ⟨h'.terms.trans h.terms, h'.raw.trans h.raw, h'.incoming.trans h.incoming,
    h'.isOpen.trans h.isOpen, h'.description.trans h.description, ?_⟩
  rw [h'.outgoing, h.outgoing, List.map_append, List.append_assoc]

theorem Sent.said {now : Moment} (h : Sent fs (a.arrived now) b) : Said a.link.layout fs a b :=
  ⟨h.terms, h.raw, h.incoming, h.isOpen, h.description, h.outgoing⟩

end Attached

/-- The messages `pending` are on their way to the link `l`, which has handled the fragments `seen`
of the first one and has still to handle `todo`; the messages `back` are on their way to the party
`x` at the other end. The application at this end has read the bundles `taken`. -/
structure Exchange (own peers : UInt64 → Prop) (layout : Layout) (now : Moment) (x : Party)
    (taken : List Bytes) (l : Link) (pending back : List Message) (seen todo : List Fragment) :
    Prop where
  passage : Passage layout x.link.nextMessage x.accepted (taken ++ l.ready) now l.inbound pending
    seen todo
  balance : (∀ g, own g → ¬ peers g) →
    Balance own l.nextMessage l.outbound x.link.inbound back pending ∧
      Balance peers x.link.nextMessage x.link.outbound l.inbound pending back

variable {own peers : UInt64 → Prop} {layout : Layout} {now : Moment} {x : Party}
  {taken : List Bytes} {σ : Type} {start : Link} {count : Nat} {a b : Attached σ}
  {pending back pending' : List Message} {seen seen' rest fs todo : List Fragment} {f : Fragment}
  {ks : List Key}

theorem Exchange.congr {l l' : Link}
    (h : Exchange own peers layout now x taken l pending back seen todo)
    (hready : l'.ready = l.ready) (hinbound : l'.inbound = l.inbound)
    (houtbound : l'.outbound = l.outbound) (hnext : l'.nextMessage = l.nextMessage) :
    Exchange own peers layout now x taken l' pending back seen todo := by
  constructor
  · rw [hready, hinbound]
    exact h.passage
  · rw [houtbound, hinbound, hnext]
    exact h.balance

variable [Channel σ] [Medium σ]

/-- what becomes of both directions when a fragment is handled -/
theorem Exchange.advanced
    (h : Exchange own peers layout now x taken a.link pending back seen (f :: rest))
    (hb : Advanced layout x.link.nextMessage x.accepted taken now (a.arrived now) pending seen rest
      b pending' seen' ks) :
    Exchange own peers layout now x taken b.link pending' (back ++ acks ks) seen' rest := by
  refine ⟨hb.passage, fun hapart => ?_⟩
  obtain ⟨hmine, htheirs⟩ := h.balance hapart
  have hnext : b.link.nextMessage = a.link.nextMessage := hb.sent.nextMessage
  rw [hnext]
  exact ⟨Balance.speaks (a := a.arrived now) hmine hb.progress,
    Balance.listens (a := a.arrived now) htheirs hmine hapart h.passage.numbered
      h.passage.distinct hb.progress⟩

omit [Channel σ] [Medium σ] in
theorem Exchange.purged
    (h : Exchange own peers layout now x taken a.link pending back seen todo)
    (hpurged : Attached.Purged now a b) :
    Exchange own peers layout now x taken b.link pending back seen todo := by
  have hnext := Link.nextMessage_of_terms hpurged.terms
  constructor
  · rw [hpurged.ready]
    exact h.passage.purged hpurged.inbound
  · intro hapart
    obtain ⟨hmine, htheirs⟩ := h.balance hapart
    rw [hpurged.outbound, hnext]
    refine ⟨hmine, htheirs.purged fun k asm hk => ?_⟩
    rw [hpurged.inbound, Option.filter_eq_some_iff] at hk
    exact hk.1

/-- No fragment of the messages that are on their way fails. -/
theorem Exchange.handleAll (hcalm : ∀ n, Calm start now n) (fs : List Fragment) (handled : Nat)
    (h : Exchange own peers layout now x taken a.link pending back seen (fs ++ todo))
    (hlayout : a.link.layout = layout) (hopen : Medium.isOpen a.channel = true)
    (hstill : Still start now count a.link) :
    ∃ b pending' seen' ks,
      Attached.handleAll now handled (fs.map (Wire.whole layout)) a = .ok (handled + fs.length) b ∧
        Attached.Said layout (ks.map Fragment.ack) a b ∧ ks.length ≤ fs.length ∧
        Still start now (count + fs.length) b.link ∧
        Exchange own peers layout now x taken b.link pending' (back ++ acks ks) seen' todo := by
  induction fs generalizing a pending back seen handled count with
  | nil =>
    refine ⟨a, pending, seen, [], rfl, .refl layout a, Nat.le_refl 0, hstill, ?_⟩
    rw [show back ++ acks [] = back from List.append_nil back]
    exact h
  | cons f fs ih =>
    have harrived : Still start now (count + 1) (a.arrived now).link :=
      Attached.still_arrived hstill
    have hpassage : Passage (a.arrived now).link.layout x.link.nextMessage x.accepted
        (taken ++ (a.arrived now).link.ready) now (a.arrived now).link.inbound pending seen
        (f :: (fs ++ todo)) := by
      rw [show (a.arrived now).link.layout = layout from hlayout]
      exact h.passage
    obtain ⟨b, pending', seen', ks, hb, hadvanced⟩ := hpassage.handle hopen fun m hm =>
      harrived.deadline (hcalm (count + 1)) (Nat.le_refl _) hm
    rw [show (a.arrived now).link.layout = layout from hlayout] at hadvanced
    have hsaid := hadvanced.sent.said
    rw [hlayout] at hsaid
    have hframe := congrArg Link.frame hadvanced.sent.core
    have hstill' : Still start now (count + 1) b.link := harrived.congr hframe
    obtain ⟨c, pending'', seen'', ks', hc, hsaid', hfew, hstill'', hexchange⟩ :=
      ih (handled + 1) (h.advanced hadvanced) (hadvanced.sent.layout.trans hlayout)
        (hsaid.isOpen.trans hopen) hstill'
    refine ⟨c, pending'', seen'', ks ++ ks', ?_, ?_, ?_, ?_, ?_⟩
    · rw [List.map_cons, Wire.whole, Attached.handleAll, hb]
      dsimp only
      rw [hc, List.length_cons]
      congr 1
      omega
    · rw [List.map_append]
      exact hsaid.trans hsaid'
    · have hone := hadvanced.few
      rw [List.length_append, List.length_cons]
      omega
    · rw [List.length_cons, Nat.add_comm fs.length 1, ← Nat.add_assoc]
      exact hstill''
    · rw [acks, List.map_append, ← List.append_assoc]
      exact hexchange

/-- What a receive leaves where the fragments `fs` were still to be handled. -/
structure Attended (own peers : UInt64 → Prop) (layout : Layout) (now : Moment) (x : Party)
    (taken : List Bytes) (start : Link) (back : List Message) (fs : List Fragment)
    (a b : Attached σ) : Prop where
  terms : b.link.terms = a.link.terms
  isOpen : Medium.isOpen b.channel = Medium.isOpen a.channel
  description : Medium.description b.channel = Medium.description a.channel
  still : ∃ count, Still start now count b.link
  progress : ∃ done todo pending seen ks, fs = done ++ todo ∧ (done = [] → todo = []) ∧
    ks.length ≤ done.length ∧ b.stream = Fragment.wires layout todo ∧
    Medium.outgoing b.channel =
      Medium.outgoing a.channel ++ (ks.map Fragment.ack).map (Fragment.wire layout) ∧
    Exchange own peers layout now x taken b.link pending (back ++ acks ks) seen todo

/-- A receive succeeds, and unless nothing was there it handles at least one fragment. -/
theorem Exchange.receive (hprompt : Medium.Prompt σ) (hcalm : ∀ n, Calm start now n)
    (h : Exchange own peers layout now x taken a.link pending back seen fs)
    (hconnected : a.link.connected = true) (hlayout : a.link.layout = layout)
    (hopen : Medium.isOpen a.channel = true) (hended : a.intake.ended = .ok false)
    (hchunk : 0 < a.link.settings.readChunk)
    (hroom : ∀ f ∈ fs, f.wireLength layout ≤ a.link.settings.rawLimit)
    (hstream : a.stream = Fragment.wires layout fs) (hstill : Still start now count a.link) :
    ∃ b, a.receive now = .ok () b ∧ Attended own peers layout now x taken start back fs a b := by
  obtain ⟨done, todo, rfl, -, hloaded, hraw, heq⟩ :=
    Attached.receiveBundles_loaded hlayout h.passage.fits hstream hended now
  have hexchange : Exchange own peers layout now x taken a.loaded.link pending back seen
      (done ++ todo) :=
    h.congr hloaded.ready hloaded.inbound hloaded.outbound
      (Link.nextMessage_of_terms hloaded.terms)
  have hframe := congrArg Link.frame hloaded.core
  obtain ⟨c, pending', seen', ks, hc, hsaid, hfew, hstill', hexchange'⟩ :=
    Exchange.handleAll hcalm done 0 hexchange ((Link.layout_of_terms hloaded.terms).trans hlayout)
      (hloaded.isOpen.trans hopen) (hstill.congr hframe)
  obtain ⟨d, hd⟩ := Attached.conclude_ok hstill' (hcalm _) (Nat.le_refl _) (0 + done.length)
  have hpurged := Attached.conclude_meets now false (0 + done.length) c
  rw [hd] at hpurged
  rw [hc] at heq
  have hreceive : a.receive now = .ok () d := by
    rw [Attached.receive, if_pos hconnected, heq]
    show Attached.settle (Attached.conclude now false (0 + done.length) c) = _
    rw [hd, Attached.settle_ok]
  obtain ⟨hpurged, -⟩ := hpurged
  have hframe' := congrArg Link.frame hpurged.core
  refine ⟨d, hreceive, hpurged.terms.trans (hsaid.terms.trans hloaded.terms), ?_, ?_,
    ⟨_, hstill'.congr hframe'⟩, done, todo, pending', seen', ks, rfl, ?_, hfew, ?_, ?_,
    hexchange'.purged hpurged⟩
  · rw [hpurged.channel, hsaid.isOpen, hloaded.isOpen]
  · rw [hpurged.channel, hsaid.description, hloaded.description]
  · rintro rfl
    exact Attached.nothing_left hprompt hchunk hended hloaded hraw hroom
  · rw [Attached.stream, hpurged.raw, hpurged.channel, hsaid.raw, hsaid.incoming]
    exact hloaded.stream
  · rw [hpurged.channel, hsaid.outgoing, hloaded.outgoing]

end BundleLink
