import BundleLink.Link.Write
import BundleLink.Proofs.Receiving

/-!
# What survives any fragments

While fragments are handled, whatever they are, a link changes its tables, its queue and its log,
and every now and then it writes an answer. So a property that does not look at tables and log, and
that survives answers, survives all fragments.

* `Attached.Idle`       nothing was written, read or made ready;
* `Attached.Lasting`    a property that survives answers, and bundles that become ready after one;
* `Lasting.handleAll`   it survives all fragments;
* `Channel.Lasting`     a property of channels that survives all calls but the last one, the close;
* `Channel.Lasting.receive`, `Channel.Lasting.write`  it survives receives and writes that succeed.
-/

namespace BundleLink

namespace Attached

variable {σ : Type} {a b c : Attached σ}

/-- From `a` to `b` nothing was written, read or made ready. -/
structure Idle (a b : Attached σ) : Prop where
  terms : b.link.terms = a.link.terms
  raw : b.link.raw = a.link.raw
  channel : b.channel = a.channel
  ready : b.link.ready = a.link.ready

theorem Idle.refl (a : Attached σ) : Idle a a := ⟨rfl, rfl, rfl, rfl⟩

theorem Idle.trans (h : Idle a b) (h' : Idle b c) : Idle a c :=
  ⟨h'.terms.trans h.terms, h'.raw.trans h.raw, h'.channel.trans h.channel,
    h'.ready.trans h.ready⟩

variable [Channel σ]

structure Lasting (I : Attached σ → Prop) : Prop where
  idle : ∀ {a b}, I a → Idle a b → I b
  answer : ∀ {a}, I a → ∀ f, I (answer f a).after
  /-- an ack was written, so a bundle becomes ready -/
  deliver : ∀ {a b c}, I a → ∀ k, Attached.answer (.ack k) a = .ok () b → Idle b c →
    ∀ bundle, I (c.deliver bundle)

namespace Lasting

variable {I : Attached σ → Prop} (hI : Lasting I) (h : I a)
include hI h

theorem handleControl (f : Fragment) : I (handleControl f a).after := by
  rw [Attached.handleControl]
  dsimp only
  split
  · exact hI.idle h ⟨rfl, rfl, rfl, rfl⟩
  · split
    · have herased : I { a with link := { a.link with outbound := a.link.outbound.erase f.key } } :=
        hI.idle h ⟨rfl, rfl, rfl, rfl⟩
      exact hI.answer herased (.ack f.key)
    · exact hI.idle h ⟨rfl, rfl, rfl, rfl⟩

theorem reject (k : Key) (why : Rejection) : I (reject k why a).after := by
  have herased : I ((a.warn (.rejected k why)).eraseInbound k) := hI.idle h ⟨rfl, rfl, rfl, rfl⟩
  rw [Attached.reject]
  split
  · exact hI.answer herased _
  · exact herased

theorem finish (k : Key) (asm : Assembly) : I (finish k asm a).after := by
  rw [Attached.finish]
  dsimp only
  split
  · exact h
  · exact hI.reject h k _
  · have hput : I (a.putInbound k { asm.release.2 with complete := true }) :=
      hI.idle h ⟨rfl, rfl, rfl, rfl⟩
    have hanswered := hI.answer hput (.ack k)
    have hdeliver {b c : Attached σ} := hI.deliver (b := b) (c := c) hput k
    generalize Attached.answer (.ack k) (a.putInbound k _) = r at hanswered hdeliver
    cases r with
    | error e b => exact hanswered
    | ok _ b =>
      exact hdeliver rfl
        (c := b.putInbound k { asm.release.2 with complete := true, acked := true })
        ⟨rfl, rfl, rfl, rfl⟩ _

theorem assemble (k : Key) (f : Fragment) (now : Moment) (asm : Assembly) :
    I (assemble k f now asm a).after := by
  rw [Attached.assemble]
  split
  · exact hI.idle h ⟨rfl, rfl, rfl, rfl⟩
  · exact hI.reject h k _
  · split
    · exact h
    · dsimp only
      split
      · exact hI.finish h k _
      · exact hI.idle h ⟨rfl, rfl, rfl, rfl⟩

theorem handleBundle (f : Fragment) (now : Moment) : I (handleBundle f now a).after := by
  rw [Attached.handleBundle]
  split
  · exact hI.idle h ⟨rfl, rfl, rfl, rfl⟩
  · split
    · exact h
    · split
      · split
        · split
          · exact hI.answer h _
          · exact h
        · have herased : I (a.eraseInbound f.key) := hI.idle h ⟨rfl, rfl, rfl, rfl⟩
          exact hI.assemble herased f.key f now _
      · split
        · exact h
        · exact hI.assemble h _ f now _

theorem handle (f : Fragment) (now : Moment) : I (handle f now a).after := by
  rw [Attached.handle]
  split
  · exact hI.handleControl h f
  · exact hI.handleBundle h f now

theorem handleAll (now : Moment) (ps : List Wire.Piece) (count : Nat) :
    I (handleAll now count ps a).after := by
  induction ps generalizing a count with
  | nil => exact h
  | cons p ps ih =>
    cases p with
    | skipped size flaw =>
      exact ih (a := a.warn (.dropped size a.link.description flaw))
        (hI.idle h ⟨rfl, rfl, rfl, rfl⟩) count
    | fragment f size =>
      have harrived : I (a.arrived now) := hI.idle h ⟨rfl, rfl, rfl, rfl⟩
      have hhandled := hI.handle harrived f now
      rw [Attached.handleAll]
      generalize Attached.handle f now (a.arrived now) = r at hhandled
      cases r with
      | error e c => exact hhandled
      | ok _ c => exact ih hhandled (count + 1)

end Lasting

/-! ## operations that succeed -/

theorem settle_eq_ok {r : Outcome σ Unit} (h : settle r = .ok () b) : r = .ok () b := by
  rcases r with ⟨_, c⟩ | ⟨e | e, c⟩
  · exact h
  · rw [settle] at h
    split at h <;> cases h
  · cases h

theorem receive_eq_ok {now : Moment} (h : a.receive now = .ok () b) :
    receiveBundles now a = .ok () b := by
  rw [receive] at h
  split at h
  · exact settle_eq_ok h
  · cases h

theorem write_eq_ok {buffer : Bytes} {flushNow : Bool} {now : Moment}
    (h : a.write buffer flushNow now = .ok () b) :
    writeBundle buffer flushNow now a = .ok () b := by
  rw [write] at h
  split at h
  · exact settle_eq_ok h
  · cases h

end Attached

/-! ## channels -/

structure Channel.Lasting {σ : Type} [Channel σ] (P : σ → Prop) : Prop where
  read : ∀ {ch}, P ch → ∀ n, P (Channel.read n ch).2
  write : ∀ {ch}, P ch → ∀ bs, P (Channel.write bs ch).2
  flush : ∀ {ch}, P ch → P (Channel.flush ch).2

namespace Channel.Lasting

open Attached

variable {σ : Type} [Channel σ] {P : σ → Prop} (hP : Channel.Lasting P) {a b : Attached σ}
include hP

theorem transmit (h : P a.channel) (f : Fragment) : P (transmit f a).after.channel := by
  have hwritten := hP.write h (f.wire a.link.layout)
  rw [Attached.transmit]
  dsimp only
  split
  all_goals
    rename_i hr
    rw [hr] at hwritten
    exact hwritten

theorem flush_after (h : P a.channel) : P (Attached.flush a).after.channel := by
  have hflushed := hP.flush h
  rw [Attached.flush]
  split
  all_goals
    rename_i hr
    rw [hr] at hflushed
    exact hflushed

theorem answer (h : P a.channel) (f : Fragment) : P (Attached.answer f a).after.channel := by
  have hsent := hP.transmit h f
  rw [Attached.answer]
  generalize Attached.transmit f a = r at hsent
  cases r with
  | ok _ b => exact hP.flush_after hsent
  | error e b => exact hsent

theorem attached : Attached.Lasting fun a : Attached σ => P a.channel := by
  refine ⟨fun h hidle => ?_, fun h f => hP.answer h f, fun {a b c} h k hok hidle bundle => ?_⟩
  · rw [hidle.channel]
    exact h
  · have hanswered := hP.answer h (.ack k)
    rw [hok] at hanswered
    show P c.channel
    rw [hidle.channel]
    exact hanswered

theorem fill (chunk room : Nat) (acc : List Bytes) {ch : σ} (h : P ch) :
    P (fill chunk room acc ch).channel := by
  fun_induction BundleLink.fill chunk room acc ch with
  | case1 room acc ch hroom e ch' hr | case2 room acc ch hroom ch' hr
  | case3 room acc ch hroom ch' hr =>
    have hread := hP.read h chunk
    rw [hr] at hread
    exact hread
  | case4 room acc ch hroom bs ch' hr ih =>
    have hread := hP.read h chunk
    rw [hr] at hread
    exact ih hread
  | case5 room acc ch hroom => exact h

theorem receiveBundles (h : P a.channel) (now : Moment) :
    P (receiveBundles now a).after.channel := by
  have hfilled : P a.filled.channel := hP.fill _ _ [] h
  cases hended : a.intake.ended with
  | error e =>
    rw [receiveBundles_failed hended]
    exact hfilled
  | ok ended =>
    have hall := hP.attached.handleAll (a := a.loaded) hfilled now a.pieces 0
    cases hr : handleAll now 0 a.pieces a.loaded with
    | error e c =>
      rw [hr] at hall
      rw [receiveBundles_broken hended hr]
      exact hall
    | ok count c =>
      rw [hr] at hall
      rw [receiveBundles_handled hended hr, (conclude_purged now ended count c).channel]
      exact hall

/-- a receive that succeeds does not close the channel -/
theorem receive (h : P a.channel) {now : Moment} (hb : a.receive now = .ok () b) :
    P b.channel := by
  have hreceived := hP.receiveBundles h now
  rw [receive_eq_ok hb] at hreceived
  exact hreceived

theorem transmitAll (h : P a.channel) (fs : List Fragment) :
    P (transmitAll fs a).after.channel := by
  induction fs generalizing a with
  | nil => exact h
  | cons f fs ih =>
    have hone := hP.transmit h f
    rw [Attached.transmitAll]
    generalize Attached.transmit f a = r at hone
    cases r with
    | ok _ b => exact ih hone
    | error e b => exact hone

theorem writeBundle (h : P a.channel) (buffer : Bytes) (flushNow : Bool) (now : Moment) :
    P (writeBundle buffer flushNow now a).after.channel := by
  rw [Attached.writeBundle]
  dsimp only
  split
  · exact h
  · rename_i parts hsplit
    split
    · exact h
    · generalize hb : ({ a with link := { a.link with nextMessage := a.link.nextMessage + 1 } } :
        Attached σ) = b
      have hnumbered : P b.channel := by
        rw [← hb]
        exact h
      have hall := hP.transmitAll hnumbered parts
      generalize Attached.transmitAll parts b = r at hall
      cases r with
      | error e c => exact hall
      | ok _ c =>
        dsimp only
        split
        · exact hP.flush_after hall
        · exact hall

theorem write_ok (h : P a.channel) {buffer : Bytes} {flushNow : Bool} {now : Moment}
    (hb : a.write buffer flushNow now = .ok () b) : P b.channel := by
  have hwritten := hP.writeBundle h buffer flushNow now
  rw [write_eq_ok hb] at hwritten
  exact hwritten

end Channel.Lasting

end BundleLink
