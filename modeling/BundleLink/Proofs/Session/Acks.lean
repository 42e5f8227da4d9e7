import BundleLink.Channel.Script
import BundleLink.Proofs.Pair.Order
import BundleLink.Proofs.Session.Deeds

/-!
# Acks on the wire and bundles in the queue

A bundle is put into the queue of ready ones after its ack was written and flushed. So when the ack
is on the wire the bundle is in the queue by the end of the receive, however the channel behaves,
with one exception: if the flush fails, the receive ends there and the bundle is lost.

* `Session.Inv`            at rest everything assembled was delivered;
* `Inv.act`, `Inv.run`     the invariant survives operations and runs;
* `Session.assemblies_isPrefix_deliveries`  the result.
-/

namespace BundleLink

theorem Wire.wire_inj {layout : Layout} {f g : Fragment} (hf : f.Fits layout) (hg : g.Fits layout)
    (h : f.wire layout = g.wire layout) : f = g := by
  have hread := Wire.extract_wire hf []
  rw [h, Wire.extract_wire hg] at hread
  exact (Wire.Extraction.fragment.inj hread).1.symm

theorem Fragment.ack_inj {j k : Key} (h : Fragment.ack j = Fragment.ack k) : j = k :=
  congrArg Fragment.key h

namespace Session

variable {σ : Type} {s : Session σ} {x : Party}

/-- The queue holds what was delivered and not read yet, and while the link is at work all bundles
that it assembled were delivered. -/
structure Inv (s : Session σ) : Prop where
  received : s.party.delivered = (Deed.deliveries s.history).map Prod.snd
  balanced : s.party.Active → Deed.assemblies s.history = Deed.deliveries s.history

theorem inv_opened (id : Nat) (description : String) (settings : Settings) (generation : UInt64)
    (now : Moment) (channel : σ) :
    Inv (opened id description settings generation now channel) := ⟨rfl, fun _ => rfl⟩

/-- operations of the link alone -/
theorem Inv.alone (h : Inv s) (hdelivered : x.delivered = s.party.delivered)
    (hactive : x.Active → s.party.Active) (t : Traced σ) :
    Inv { s with party := x, channel := t } :=
  ⟨hdelivered.trans h.received, fun hx => h.balanced (hactive hx)⟩

theorem Inv.same (h : Inv s) (hsame : s.party.Same x) : Inv { s with party := x } :=
  h.alone hsame.delivered (fun hx => (hsame.active hx).1) s.channel

/-- operations on the channel -/
theorem Inv.settle (h : Inv s) (buffers : List Bytes) {ds : List Deed}
    {r : Outcome (Traced σ) Unit}
    (hready : r.after.link.ready = s.party.link.ready ++ (Deed.deliveries ds).map Prod.snd)
    (hbalanced : r.after.link.connected = true → s.party.halted = false →
      Deed.assemblies (s.history ++ ds) = Deed.deliveries (s.history ++ ds)) :
    Inv (s.settle buffers ds r) := by
  have hreceived : s.party.taken ++ r.after.link.ready =
      (Deed.deliveries (s.history ++ ds)).map Prod.snd := by
    rw [hready, Deed.deliveries_append, List.map_append, ← h.received, ← List.append_assoc]
    rfl
  rcases r with ⟨_, b⟩ | ⟨e | e, b⟩
  · exact ⟨hreceived, fun hx => hbalanced hx.1 hx.2⟩
  · exact ⟨hreceived, fun hx => hbalanced hx.1 hx.2⟩
  · exact ⟨hreceived, fun hx => absurd hx.2 (by simp [Session.settle])⟩

variable [Channel σ]

theorem Inv.write (h : Inv s) (buffers : List Bytes) (buffer : Bytes) (flushNow : Bool)
    (now : Moment) : Inv (s.settle buffers [] (s.attached.write buffer flushNow now)) := by
  obtain ⟨hready, hopen⟩ := Attached.ready_write buffer flushNow now s.attached
  refine h.settle buffers (hready.trans (List.append_nil _).symm) fun hconnected hhalted => ?_
  rw [List.append_nil]
  exact h.balanced ⟨hopen hconnected, hhalted⟩

/-- a receive, what it did, and how it may have failed -/
theorem Inv.receive (h : Inv s) (hhalted : s.party.halted = false) (now : Moment) :
    Attached.Recorded ((Deed.deliveries (s.deeds now)).map Prod.snd) (Deed.calls (s.deeds now))
        s.attached (s.attached.receive now).after ∧
      Attached.Honours s.party.link.layout s.history (s.deeds now)
        (s.attached.receive now).failure ∧
      (∀ e, (s.attached.receive now).failure = some (.error (.io e)) →
        (s.attached.receive now).after.link.connected = false) ∧
      Inv (s.settle [] (s.deeds now) (s.attached.receive now)) := by
  cases hopen : s.party.link.connected with
  | false =>
    have hnone : s.deeds now = [] := if_neg (by
      show ¬ s.party.link.connected = true
      rw [hopen]
      exact Bool.false_ne_true)
    rw [Attached.receive_of_closed (a := s.attached) hopen, hnone]
    refine ⟨.silent rfl rfl rfl, fun pre wire post hsplit => absurd hsplit (by simp),
      fun _ _ => hopen, h.settle [] (List.append_nil _).symm fun hconnected => ?_⟩
    have hconnected' : s.party.link.connected = true := hconnected
    rw [hopen] at hconnected'
    cases hconnected'
  | true =>
    obtain ⟨hrecorded, haccounted, hclosed⟩ := Attached.receive_accounted now
      (h.balanced ⟨hopen, hhalted⟩) (a := s.attached) hopen
    refine ⟨hrecorded, haccounted.honours, hclosed, h.settle [] hrecorded.ready ?_⟩
    intro hconnected _
    apply haccounted.balanced
    intro e he
    rw [hclosed e he] at hconnected
    cases hconnected

omit [Channel σ] in
/-- what a link does without its channel, its queue and its application -/
theorem Inv.setLink (h : Inv s) {l : Link} (hready : l.ready = s.party.link.ready)
    (hopen : l.connected = true → s.party.link.connected = true) : Inv (s.setLink l) :=
  h.alone (x := { s.party with link := l }) (congrArg (s.party.taken ++ ·) hready)
    (fun hx => ⟨hopen hx.1, hx.2⟩) s.channel

theorem Inv.act (h : Inv s) (op : Pair.Operation) (now : Moment) : Inv (s.act now op) := by
  cases op with
  | read => exact h.same (Party.same_read _)
  | readInto buffer => exact h.same (Party.same_readInto _ buffer)
  | readText => exact h.same (Party.same_readText _)
  | write buffer flushNow =>
    exact Party.unless_halted h fun _ => h.write [buffer] buffer flushNow now
  | writeText text flushNow =>
    exact Party.unless_halted h fun _ => h.write [Utf8.encode text] (Utf8.encode text) flushNow now
  | receive => exact Party.unless_halted h fun hhalted => (h.receive hhalted now).2.2.2
  | setFragmentSize size =>
    exact Party.unless_halted h fun _ => h.same (Party.same_setFragmentSize _ size)
  | advanceGeneration =>
    have halike := s.party.alike_advance
    exact Party.unless_halted h fun _ =>
      h.alone halike.delivered (fun hx => (halike.active hx).1) s.channel
  | close =>
    show Inv (if s.party.halted then _ else _)
    split
    · exact h.setLink rfl nofun
    · have hclosed := Attached.close_connected s.attached
      have hshut := h.setLink (Attached.close_ready s.attached) fun hopen => by
        rw [hclosed] at hopen
        cases hopen
      exact ⟨hshut.received, hshut.balanced⟩

theorem Inv.step (h : Inv s) (e : Event) : Inv (s.step e) := by
  cases e with
  | act op now => exact h.act op now
  | setLayout layout => exact Party.unless_halted h fun _ => h.setLink rfl id

theorem Inv.run (es : List Event) (h : Inv s) : Inv (s.run es) := by
  induction es generalizing s with
  | nil => exact h
  | cons e es ih => exact ih (h.step e)

/-- In any session of a link on any channel, let a receive write an ack and the write succeed. All
bundles that were assembled until then have been delivered by the end of the receive, in that order
and under their keys, and can be read. There is one exception: the flush after this ack fails, the
receive fails with that error and closes the link, and of all those bundles only the last one, which
the ack is for, is not delivered. -/
theorem assemblies_isPrefix_deliveries (id : Nat) (description : String) (settings : Settings)
    (generation : UInt64) (start : Moment) (channel : σ) (es : List Event) (now : Moment) (k : Key)
    (pre post : List Deed)
    (hs : s = (opened id description settings generation start channel).run es)
    (hhalted : s.party.halted = false)
    (hack : s.deeds now =
      pre ++ .called (.write ((Fragment.ack k).wire s.party.link.layout) none) :: post) :
    (s.act now .receive).history = s.history ++ s.deeds now ∧
      (s.act now .receive).channel.calls = s.channel.calls ++ Deed.calls (s.deeds now) ∧
      (Deed.deliveries (s.act now .receive).history).map Prod.snd =
        (s.act now .receive).party.taken ++ (s.act now .receive).party.link.ready ∧
      (Deed.assemblies (s.history ++ pre) <+: Deed.deliveries (s.act now .receive).history ∨
        ∃ bundle e, post = [.called (.flush (some e))] ∧
          (s.attached.receive now).failure = some (.error (.io e)) ∧
          (s.act now .receive).party.link.connected = false ∧
          Deed.assemblies (s.history ++ pre) =
            Deed.deliveries (s.act now .receive).history ++ [(k, bundle)]) := by
  have hinv : Inv s := by
    rw [hs]
    exact (inv_opened id description settings generation start channel).run es
  obtain ⟨hrecorded, hhonours, hclosed, hnext⟩ := hinv.receive hhalted now
  have hact : s.act now .receive = s.settle [] (s.deeds now) (s.attached.receive now) := by
    show (if s.party.halted then s else _) = _
    rw [if_neg (by rw [hhalted]; exact Bool.false_ne_true)]
    rfl
  rw [hact]
  have hhistory : (s.settle [] (s.deeds now) (s.attached.receive now)).history =
      s.history ++ s.deeds now := by
    generalize s.attached.receive now = r
    rcases r with ⟨_, b⟩ | ⟨_ | _, b⟩ <;> rfl
  have hcalls : (s.settle [] (s.deeds now) (s.attached.receive now)).channel =
      (s.attached.receive now).after.channel := by
    generalize s.attached.receive now = r
    rcases r with ⟨_, b⟩ | ⟨_ | _, b⟩ <;> rfl
  have hlink : (s.settle [] (s.deeds now) (s.attached.receive now)).party.link =
      (s.attached.receive now).after.link := by
    generalize s.attached.receive now = r
    rcases r with ⟨_, b⟩ | ⟨_ | _, b⟩ <;> rfl
  refine ⟨hhistory, by rw [hcalls]; exact hrecorded.calls, hnext.received.symm, ?_⟩
  rw [hhistory, hlink]
  rcases hhonours pre _ post hack with hprefix | ⟨j, bundle, e, hwire, hpost, hfailure, hlost⟩
  · exact .inl hprefix
  · have hkey : k = j := Fragment.ack_inj
      (Wire.wire_inj (Message.fits_ack _ k) (Message.fits_ack _ j) hwire)
    subst hkey
    exact .inr ⟨bundle, e, hpost, hfailure, hclosed e hfailure, hlost⟩

/-- a channel that hands out two bundles and fails at the second flush -/
def faltering : Script :=
  { Script.lone (Fragment.wires .plain
      [.header 9 1 1 0, ⟨9, 1, 1, 2, 0, some [104, 105]⟩, .header 9 2 1 0,
        ⟨9, 2, 1, 1, 0, some [33]⟩]) with
    failingFlush := some 2 }

def attending : Session Script := opened 7 "scripted" {} 1 .start faltering

/-- what happens until the second ack is written -/
def attended : List Deed :=
  [.assembled ⟨9, 1⟩ [104, 105], .called (.write ((Fragment.ack ⟨9, 1⟩).wire .plain) none),
    .called (.flush none), .delivered ⟨9, 1⟩ [104, 105], .assembled ⟨9, 2⟩ [33]]

/-- the second ack is on the wire, but its bundle is lost -/
theorem assemblies_isPrefix_deliveries_faltering :
    attending.party.halted = false ∧
      attending.deeds .start =
        attended ++ .called (.write ((Fragment.ack ⟨9, 2⟩).wire .plain) none) ::
          [.called (.flush (some Script.flushFailure))] ∧
      (attending.act .start .receive).party.taken ++
        (attending.act .start .receive).party.link.ready = [[104, 105]] ∧
      (attending.act .start .receive).party.link.connected = false ∧
      Deed.assemblies attended =
        Deed.deliveries (attending.act .start .receive).history ++ [(⟨9, 2⟩, [33])] := by
  have hhalted : attending.party.halted = false := rfl
  have hack : attending.deeds .start =
      attended ++ .called (.write ((Fragment.ack ⟨9, 2⟩).wire .plain) none) ::
        [.called (.flush (some Script.flushFailure))] := by decide +kernel
  obtain ⟨hhistory, -, hreceived, hcase⟩ := assemblies_isPrefix_deliveries 7 "scripted" {} 1 .start
    faltering [] .start ⟨9, 2⟩ attended _ (s := attending) rfl hhalted hack
  have hdelivered : Deed.deliveries (attending.act .start .receive).history =
      [(⟨9, 1⟩, [104, 105])] := by
    rw [hhistory, hack]
    decide
  rw [hdelivered] at hreceived hcase ⊢
  rcases hcase with hprefix | ⟨bundle, e, -, -, hclosed, -⟩
  · exact absurd hprefix.length_le (by decide)
  · exact ⟨hhalted, hack, hreceived.symm, hclosed, by decide⟩

end Session

end BundleLink
