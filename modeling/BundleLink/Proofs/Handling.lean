import BundleLink.Proofs.Assembly
import BundleLink.Proofs.Medium

/-!
# What handling a fragment does

The fragments of a correct peer are acks and fragments of its bundles. This file says what one of
them does to a link on a medium.

* `Link.core`             what handling a fragment leaves alone;
* `Attached.Sent fs a b`  on the way from `a` to `b` the fragments `fs` were written;
* `Attached.handle_ack`   an ack, with `AckResult` for its three outcomes;
* `Attached.handle_part`  a fragment of a bundle that is not complete yet, with `PartResult` for its
  five outcomes;
* `Attached.handle_again` a fragment of a bundle that is complete and acknowledged.
-/

namespace BundleLink

/-- the link without its tables, its queue, its traffic and its log -/
def Link.core (l : Link) : Link :=
  { l with outbound := .empty, inbound := .empty, ready := [], traffic := .none, log := [] }

namespace Attached

variable {σ : Type} [Channel σ] [Medium σ]

/-! ## writing -/

/-- On the way from `a` to `b` the fragments `fs` were written, nothing was read, and of the link
only tables, queue, traffic and log changed. -/
structure Sent (fs : List Fragment) (a b : Attached σ) : Prop where
  core : b.link.core = a.link.core
  outgoing : Medium.outgoing b.channel =
    Medium.outgoing a.channel ++ fs.map (Fragment.wire a.link.layout)
  incoming : Medium.incoming b.channel = Medium.incoming a.channel
  isOpen : Medium.isOpen b.channel = Medium.isOpen a.channel
  description : Medium.description b.channel = Medium.description a.channel

theorem Sent.layout {fs : List Fragment} {a b : Attached σ} (h : Sent fs a b) :
    b.link.layout = a.link.layout := by
  have hcore := congrArg Link.layout h.core
  exact hcore

theorem Sent.deadline {fs : List Fragment} {a b : Attached σ} (h : Sent fs a b) (now : Moment)
    (n : Nat) : b.link.deadline now n = a.link.deadline now n := by
  have hcore := congrArg (fun l : Link => l.deadline now n) h.core
  exact hcore

theorem Sent.of_core {a b : Attached σ} (h : b.link.core = a.link.core)
    (hch : b.channel = a.channel) : Sent [] a b :=
  ⟨h, by rw [hch]; exact (List.append_nil _).symm, by rw [hch], by rw [hch], by rw [hch]⟩

theorem Sent.refl (a : Attached σ) : Sent [] a a := .of_core rfl rfl

theorem Sent.trans {fs gs : List Fragment} {a b c : Attached σ} (h : Sent fs a b)
    (h' : Sent gs b c) : Sent (fs ++ gs) a c := by
  refine ⟨h'.core.trans h.core, ?_, h'.incoming.trans h.incoming, h'.isOpen.trans h.isOpen,
    h'.description.trans h.description⟩
  rw [h'.outgoing, h.outgoing, h.layout, List.map_append, List.append_assoc]

/-- writing alone: tables and queue are as before -/
structure Wrote (fs : List Fragment) (a b : Attached σ) : Prop extends Sent fs a b where
  outbound : b.link.outbound = a.link.outbound
  inbound : b.link.inbound = a.link.inbound
  ready : b.link.ready = a.link.ready

theorem Wrote.trans {fs gs : List Fragment} {a b c : Attached σ} (h : Wrote fs a b)
    (h' : Wrote gs b c) : Wrote (fs ++ gs) a c :=
  ⟨h.toSent.trans h'.toSent, h'.outbound.trans h.outbound, h'.inbound.trans h.inbound,
    h'.ready.trans h.ready⟩

theorem transmit_open {a : Attached σ} (h : Medium.isOpen a.channel = true) (f : Fragment) :
    ∃ b, transmit f a = .ok () b ∧ Wrote [f] a b := by
  have hok := Medium.write_ok (f.wire a.link.layout) a.channel h
  have hout := Medium.outgoing_write (f.wire a.link.layout) a.channel h
  have hin := Medium.incoming_write (f.wire a.link.layout) a.channel
  have hopen := Medium.isOpen_write (f.wire a.link.layout) a.channel
  have hdesc := Medium.description_write (f.wire a.link.layout) a.channel
  generalize hr : Channel.write (f.wire a.link.layout) a.channel = r at hok hout hin hopen hdesc
  obtain ⟨r, ch⟩ := r
  subst hok
  have heq : transmit f a = .ok ()
      { link :=
          { a.link with traffic := a.link.traffic.fragmentSent (f.wire a.link.layout).length }
        channel := ch } := by
    rw [transmit]
    simp only [hr]
  exact ⟨_, heq, ⟨rfl, hout, hin, hopen, hdesc⟩, rfl, rfl, rfl⟩

theorem transmit_closed {a : Attached σ} (h : Medium.isOpen a.channel = false) (f : Fragment) :
    ∃ e, transmit f a = .error (.error (.io e)) a := by
  obtain ⟨e, he⟩ := Medium.write_closed (f.wire a.link.layout) a.channel h
  refine ⟨e, ?_⟩
  rw [transmit]
  simp only [he]
  rfl

theorem transmitAll_open (fs : List Fragment) {a : Attached σ}
    (h : Medium.isOpen a.channel = true) : ∃ b, transmitAll fs a = .ok () b ∧ Wrote fs a b := by
  induction fs generalizing a with
  | nil => exact ⟨a, rfl, .refl a, rfl, rfl, rfl⟩
  | cons f fs ih =>
    obtain ⟨b, hb, hwrote⟩ := transmit_open h f
    obtain ⟨c, hc, hwrote'⟩ := ih (a := b) (hwrote.isOpen.trans h)
    refine ⟨c, ?_, hwrote.trans hwrote'⟩
    rw [transmitAll, hb]
    exact hc

theorem transmitAll_closed {fs : List Fragment} (hfs : fs ≠ []) {a : Attached σ}
    (h : Medium.isOpen a.channel = false) :
    ∃ e, transmitAll fs a = .error (.error (.io e)) a := by
  cases fs with
  | nil => exact absurd rfl hfs
  | cons f fs =>
    obtain ⟨e, he⟩ := transmit_closed h f
    exact ⟨e, by rw [transmitAll, he]⟩

theorem flush_eq (a : Attached σ) : flush a = .ok () a := by
  rw [flush, Medium.flush_ok]

theorem answer_open {a : Attached σ} (h : Medium.isOpen a.channel = true) (f : Fragment) :
    ∃ b, answer f a = .ok () b ∧ Wrote [f] a b := by
  obtain ⟨b, hb, hwrote⟩ := transmit_open h f
  exact ⟨b, by rw [answer, hb]; exact flush_eq b, hwrote⟩

theorem answer_closed {a : Attached σ} (h : Medium.isOpen a.channel = false) (f : Fragment) :
    ∃ e, answer f a = .error (.error (.io e)) a := by
  obtain ⟨e, he⟩ := transmit_closed h f
  exact ⟨e, by rw [answer, he]⟩

/-! ## acks -/

theorem isControl_ack {k : Key} (hk : k.isProper = true) : (Fragment.ack k).isControl = true := by
  have hkey : (Fragment.ack k).key = k := rfl
  rw [Fragment.isControl, hkey, hk]
  rfl

theorem not_nak (k : Key) : ¬ (Fragment.ack k).length < Fragment.ackLength := by
  show ¬ Fragment.ackLength < Fragment.ackLength
  decide

/-- How the handling of the ack for `k` ends. -/
inductive AckResult (k : Key) (a : Attached σ) : Outcome σ Unit → Prop
  /-- a bundle that was sent is acknowledged, and the channel takes the ack for the ack -/
  | confirmed (b : Attached σ) (fs : List Fragment) (known : a.link.outbound.get? k = some fs)
      (sent : Sent [.ack k] a b) (ready : b.link.ready = a.link.ready)
      (inbound : b.link.inbound = a.link.inbound)
      (outbound : ∀ j, b.link.outbound.get? j = if j = k then none else a.link.outbound.get? j) :
      AckResult k a (.ok () b)
  /-- a bundle that was sent is acknowledged, but the channel does not take the ack for the ack -/
  | unanswered (e : IoError) (b : Attached σ) (fs : List Fragment)
      (known : a.link.outbound.get? k = some fs) (isOpen : Medium.isOpen a.channel = false)
      (sent : Sent [] a b) (ready : b.link.ready = a.link.ready) :
      AckResult k a (.error (.error (.io e)) b)
  /-- no such bundle was sent, so one that was received is forgotten -/
  | forgotten (b : Attached σ) (unknown : a.link.outbound.get? k = none) (sent : Sent [] a b)
      (ready : b.link.ready = a.link.ready) (outbound : b.link.outbound = a.link.outbound)
      (inbound : ∀ j, b.link.inbound.get? j = if j = k then none else a.link.inbound.get? j) :
      AckResult k a (.ok () b)

theorem handle_ack {k : Key} (hk : k.isProper = true) (now : Moment) (a : Attached σ) :
    AckResult k a (handle (.ack k) now a) := by
  rw [handle, if_pos (isControl_ack hk), handleControl, if_neg (not_nak k), Fragment.key_ack]
  dsimp only
  cases hout : a.link.outbound.get? k with
  | none =>
    exact .forgotten _ hout (.of_core rfl rfl) rfl rfl fun j => Table.get?_erase _ j k
  | some fs =>
    generalize hc : ({ a with link := { a.link with outbound := a.link.outbound.erase k } } :
      Attached σ) = c
    have hsame : Sent [] a c := by
      rw [← hc]
      exact .of_core rfl rfl
    have hready : c.link.ready = a.link.ready := by rw [← hc]
    have hinbound : c.link.inbound = a.link.inbound := by rw [← hc]
    have houtbound (j : Key) :
        c.link.outbound.get? j = if j = k then none else a.link.outbound.get? j := by
      rw [← hc]
      exact Table.get?_erase _ j k
    cases hopen : Medium.isOpen a.channel with
    | true =>
      obtain ⟨b, hb, hwrote⟩ := answer_open (hsame.isOpen.trans hopen) (.ack k)
      show AckResult k a (answer (.ack k) c)
      rw [hb]
      exact .confirmed b fs hout (hsame.trans hwrote.toSent) (hwrote.ready.trans hready)
        (hwrote.inbound.trans hinbound) fun j => by rw [hwrote.outbound, houtbound]
    | false =>
      obtain ⟨e, he⟩ := answer_closed (hsame.isOpen.trans hopen) (.ack k)
      show AckResult k a (answer (.ack k) c)
      rw [he]
      exact .unanswered e c fs hout hopen hsame hready

/-! ## fragments of bundles -/

/-- What the table of inbound bundles says of the bundle with the fragments `parts` while it is not
complete: nothing if none of them is among `seen`, else which of them are. -/
def Partial (parts seen : List Fragment) : Option Assembly → Prop
  | none => ∀ f ∈ parts, f ∉ seen
  | some asm => asm.Holds parts seen

theorem Partial.congr {parts seen seen' : List Fragment} {o : Option Assembly}
    (h : Partial parts seen o) (hseen : ∀ f ∈ parts, f ∈ seen ↔ f ∈ seen') :
    Partial parts seen' o := by
  cases o with
  | none => exact fun f hf hf' => h f hf ((hseen f hf).mpr hf')
  | some asm => exact Assembly.Holds.congr h hseen

/-- Between `a` and `b` the fragments `fs` were written, the table of outbound bundles stayed, and
of the inbound ones only the bundle with key `k` changed. -/
structure Touched (k : Key) (fs : List Fragment) (a b : Attached σ) : Prop extends
    Sent fs a b where
  outbound : b.link.outbound = a.link.outbound
  others : ∀ j, j ≠ k → b.link.inbound.get? j = a.link.inbound.get? j

/-- How the handling of the fragment `f` of the bundle `k` ends, if those of its fragments that are
among `seen` were handled before and it is not complete. -/
inductive PartResult (now : Moment) (k : Key) (buffer : Bytes) (parts seen : List Fragment)
    (f : Fragment) (a : Attached σ) : Outcome σ Unit → Prop
  /-- a deadline is no moment, or none can be computed -/
  | faulted (e : Fault) (b : Attached σ) (n : Nat) (e' : Fault)
      (touched : Touched k [] a b) (ready : b.link.ready = a.link.ready)
      (bound : n ≤ Fragment.maxCount + 1) (cause : a.link.deadline now n = .error e') :
      PartResult now k buffer parts seen f a (.error (.fault e) b)
  /-- the fragment was seen before -/
  | repeated (b : Attached σ) (old : f ∈ seen) (touched : Touched k [] a b)
      (ready : b.link.ready = a.link.ready)
      (entry : b.link.inbound.get? k = a.link.inbound.get? k) :
      PartResult now k buffer parts seen f a (.ok () b)
  /-- the fragment is new, and others are still missing -/
  | added (b : Attached σ) (asm : Assembly) (new : f ∉ seen)
      (unfinished : ¬ ∀ g ∈ parts, g ∈ f :: seen) (touched : Touched k [] a b)
      (ready : b.link.ready = a.link.ready) (entry : b.link.inbound.get? k = some asm)
      (holds : asm.Holds parts (f :: seen)) (recent : asm.lastArrival = now) :
      PartResult now k buffer parts seen f a (.ok () b)
  /-- the fragment is the last one that was missing, and the channel takes the ack -/
  | completed (b : Attached σ) (asm : Assembly) (n : Nat) (new : f ∉ seen)
      (finished : ∀ g ∈ parts, g ∈ f :: seen) (isOpen : Medium.isOpen a.channel = true)
      (touched : Touched k [.ack k] a b) (ready : b.link.ready = a.link.ready ++ [buffer])
      (entry : b.link.inbound.get? k = some asm) (complete : asm.complete = true)
      (acked : asm.acked = true) (deadline : a.link.deadline now n = .ok asm.deadline) :
      PartResult now k buffer parts seen f a (.ok () b)
  /-- the fragment is the last one that was missing, but the channel does not take the ack -/
  | unanswered (e : IoError) (b : Attached σ) (new : f ∉ seen)
      (finished : ∀ g ∈ parts, g ∈ f :: seen) (isOpen : Medium.isOpen a.channel = false)
      (touched : Touched k [] a b) (ready : b.link.ready = a.link.ready) :
      PartResult now k buffer parts seen f a (.error (.error (.io e)) b)

section
variable {layout : Layout} {k : Key} {buffer : Bytes} {parts seen : List Fragment} {f : Fragment}
  {now : Moment}

theorem Touched.putInbound {fs : List Fragment} {a b : Attached σ} (h : Touched k fs a b)
    (asm : Assembly) : Touched k fs a (b.putInbound k asm) := by
  refine ⟨⟨h.core, h.outgoing, h.incoming, h.isOpen, h.description⟩, h.outbound, ?_⟩
  intro j hj
  show (b.link.inbound.put k asm).get? j = _
  rw [Table.get?_put, if_neg hj, h.others j hj]

theorem Touched.deliver {fs : List Fragment} {a b : Attached σ} (h : Touched k fs a b)
    (bundle : Bytes) : Touched k fs a (b.deliver bundle) :=
  ⟨⟨h.core, h.outgoing, h.incoming, h.isOpen, h.description⟩, h.outbound, h.others⟩

theorem touched_eraseInbound (k : Key) (a : Attached σ) : Touched k [] a (a.eraseInbound k) := by
  refine ⟨.of_core rfl rfl, rfl, ?_⟩
  intro j hj
  show (a.link.inbound.erase k).get? j = _
  rw [Table.get?_erase, if_neg hj]

omit [Channel σ] [Medium σ] in
theorem get?_putInbound (k : Key) (asm : Assembly) (a : Attached σ) :
    (a.putInbound k asm).link.inbound.get? k = some asm := by
  show (a.link.inbound.put k asm).get? k = _
  rw [Table.get?_put, if_pos rfl]

theorem Touched.trans {fs gs : List Fragment} {a b c : Attached σ} (h : Touched k fs a b)
    (h' : Touched k gs b c) : Touched k (fs ++ gs) a c :=
  ⟨h.toSent.trans h'.toSent, h'.outbound.trans h.outbound,
    fun j hj => (h'.others j hj).trans (h.others j hj)⟩

theorem Wrote.touched {fs : List Fragment} {a b : Attached σ} (h : Wrote fs a b) (k : Key) :
    Touched k fs a b :=
  ⟨h.toSent, h.outbound, fun j _ => by rw [h.inbound]⟩

/-- all fragments are there: the bundle is acknowledged and becomes ready -/
theorem finish_part {a c : Attached σ} {asm : Assembly} {n : Nat}
    (hp : Bundle.Parts a.link.layout k buffer parts) (hc : Touched k [] a c)
    (hready : c.link.ready = a.link.ready) (hholds : asm.Holds parts (f :: seen)) (hnew : f ∉ seen)
    (hall : ∀ g ∈ parts, g ∈ f :: seen) (hdeadline : a.link.deadline now n = .ok asm.deadline) :
    PartResult now k buffer parts seen f a (finish k asm c) := by
  have hjoin : Bundle.join c.link.layout asm.fragments = .ok buffer := by
    rw [hc.layout, Assembly.fragments_eq hp hholds hall]
    exact hp.joined
  rw [finish, Assembly.release]
  dsimp only
  rw [hjoin]
  dsimp only
  generalize hd : c.putInbound k _ = d
  have htouched : Touched k [] a d := by
    rw [← hd]
    exact hc.putInbound _
  have hsame : d.link.ready = a.link.ready := by
    rw [← hd]
    exact hready
  cases hopen : Medium.isOpen a.channel with
  | true =>
    obtain ⟨b, hb, hwrote⟩ := answer_open (htouched.isOpen.trans hopen) (.ack k)
    rw [hb]
    have hanswered : Touched k [.ack k] a b := htouched.trans (hwrote.touched k)
    refine .completed _ _ n hnew hall hopen ((hanswered.putInbound _).deliver buffer) ?_
      (get?_putInbound k _ b) rfl rfl hdeadline
    show b.link.ready ++ [buffer] = _
    rw [hwrote.ready, hsame]
  | false =>
    obtain ⟨e, he⟩ := answer_closed (htouched.isOpen.trans hopen) (.ack k)
    rw [he]
    exact .unanswered e d hnew hall hopen htouched hsame

theorem assemble_part {a c : Attached σ} {asm : Assembly}
    (hp : Bundle.Parts a.link.layout k buffer parts) (hc : Touched k [] a c)
    (hready : c.link.ready = a.link.ready) (hf : f ∈ parts) (hholds : asm.Holds parts seen)
    (hentry : f ∈ seen → a.link.inbound.get? k = some asm) :
    PartResult now k buffer parts seen f a (assemble k f now asm c) := by
  rw [assemble]
  by_cases hseen : f ∈ seen
  · rw [Assembly.insert_seen hp hholds hf hseen]
    refine .repeated _ hseen (hc.putInbound asm) hready ?_
    rw [get?_putInbound, hentry hseen]
  · obtain ⟨asm', hinsert, hholds'⟩ := Assembly.insert_new hp hholds hf hseen
    rw [hinsert]
    dsimp only
    cases hd : c.link.deadline now (asm'.missing.getD 0) with
    | error e =>
      rw [hc.deadline] at hd
      exact .faulted e c _ e hc hready (Assembly.missing_le hp hholds') hd
    | ok d =>
      rw [hc.deadline] at hd
      dsimp only
      have hlate : Assembly.Holds parts (f :: seen)
          { asm' with lastArrival := now, deadline := d } :=
        ⟨hholds'.slot, hholds'.size_le, hholds'.present, hholds'.declared, hholds'.unfinished⟩
      have hiff := Assembly.isCollected_iff hp hlate
      split
      · rename_i hcollected
        exact finish_part hp hc hready hlate hseen (hiff.mp hcollected) hd
      · rename_i hcollected
        exact .added _ _ hseen (fun hall => hcollected (hiff.mpr hall))
          (hc.putInbound _) hready (get?_putInbound k _ c) hlate rfl

theorem lag_eq_error {l : Link} {e : Fault} (h : l.lag = .error e) (now : Moment) (n : Nat) :
    l.deadline now n = .error e := by
  rw [Link.deadline, h]
  rfl

theorem handle_part {a : Attached σ} (hp : Bundle.Parts a.link.layout k buffer parts)
    (hf : f ∈ parts) (hpart : Partial parts seen (a.link.inbound.get? k)) :
    PartResult now k buffer parts seen f a (handle f now a) := by
  have hcontrol : ¬ f.isControl = true := by
    rw [hp.isControl_eq hf]
    exact Bool.false_ne_true
  have hstray : ¬ (f.number = 0 ∧ f.length ≤ 0) := fun h => hp.length_pos hf h.1 h.2
  rw [handle, if_neg hcontrol, handleBundle, hp.key f hf, if_neg hstray]
  cases hlag : a.link.lag with
  | error e =>
    exact .faulted e a 0 e ⟨.refl a, rfl, fun _ _ => rfl⟩ rfl (Nat.zero_le _)
      (lag_eq_error hlag now 0)
  | ok lag =>
    dsimp only
    cases hentry : a.link.inbound.get? k with
    | none =>
      rw [hentry] at hpart
      dsimp only
      cases hd : a.link.deadline now 0 with
      | error e =>
        exact .faulted e a 0 e ⟨.refl a, rfl, fun _ _ => rfl⟩ rfl (Nat.zero_le _) hd
      | ok d =>
        exact assemble_part hp ⟨.refl a, rfl, fun _ _ => rfl⟩ rfl hf
          (Assembly.Holds.empty now d hpart) fun hseen => absurd hseen (hpart f hf)
    | some asm =>
      rw [hentry] at hpart
      have hholds : asm.Holds parts seen := hpart
      dsimp only
      rw [if_neg (by rw [hholds.unfinished]; exact Bool.false_ne_true)]
      exact assemble_part hp (touched_eraseInbound k a) rfl hf hholds fun _ => hentry

/-- a fragment of a bundle that is complete: the ack is repeated -/
theorem handle_again {a : Attached σ} {asm : Assembly}
    (hp : Bundle.Parts a.link.layout k buffer parts) (hf : f ∈ parts)
    (hentry : a.link.inbound.get? k = some asm) (hcomplete : asm.complete = true)
    (hacked : asm.acked = true) (hopen : Medium.isOpen a.channel = true) :
    (∃ b, handle f now a = .ok () b ∧ Wrote [.ack k] a b) ∨
      ∃ e e', handle f now a = .error (.fault e) a ∧ a.link.deadline now 0 = .error e' := by
  have hcontrol : ¬ f.isControl = true := by
    rw [hp.isControl_eq hf]
    exact Bool.false_ne_true
  have hstray : ¬ (f.number = 0 ∧ f.length ≤ 0) := fun h => hp.length_pos hf h.1 h.2
  rw [handle, if_neg hcontrol, handleBundle, hp.key f hf, if_neg hstray]
  cases hlag : a.link.lag with
  | error e => exact .inr ⟨e, e, rfl, lag_eq_error hlag now 0⟩
  | ok lag =>
    rw [hentry]
    dsimp only
    rw [if_pos hcomplete, if_pos hacked]
    exact .inl (answer_open hopen (.ack k))

end

end Attached

end BundleLink
