import BundleLink.Proofs.Waiting

/-!
# Operations up to their failure

A link gets at its channel by reads, writes and flushes, and takes no bundle out of its queue of
ready ones, whatever comes in. Only when an operation has failed is the link closed, and the
channel with it. An error that is not fatal comes before anything was done.

* `Channel.Leads`           calls lead from one state of a channel to another;
* `Attached.Continues`      what holds on the way from the start of an operation to its failure;
* `writeBundle_continues`, `receiveBundles_continues`  the two operations on the channel;
* `Attached.Ceased`         what closing leaves of a link and its channel;
* `Attached.unchanged_or_ceased`  how either operation fails.
-/

namespace BundleLink

/-- Reads, writes and flushes lead from the one state of a channel to the other. -/
inductive Channel.Leads {σ : Type} [Channel σ] (ch : σ) : σ → Prop
  | refl : Leads ch ch
  | read {ch' : σ} (n : Nat) (before : Leads ch ch') : Leads ch (Channel.read n ch').2
  | write {ch' : σ} (bs : Bytes) (before : Leads ch ch') : Leads ch (Channel.write bs ch').2
  | flush {ch' : σ} (before : Leads ch ch') : Leads ch (Channel.flush ch').2

namespace Channel

variable {σ : Type} [Channel σ] {ch ch' ch'' : σ}

theorem Leads.trans (h : Leads ch ch') (h' : Leads ch' ch'') : Leads ch ch'' := by
  induction h' with
  | refl => exact h
  | read n _ ih => exact .read n ih
  | write bs _ ih => exact .write bs ih
  | flush _ ih => exact .flush ih

theorem Leads.of_read {n : Nat} {r : Except IoError Arrival} (h : Channel.read n ch = (r, ch')) :
    Leads ch ch' := by
  have hread : Leads ch (Channel.read n ch).2 := .read n .refl
  rw [h] at hread
  exact hread

theorem Leads.of_write {bs : Bytes} {r : Except IoError Unit}
    (h : Channel.write bs ch = (r, ch')) : Leads ch ch' := by
  have hwrite : Leads ch (Channel.write bs ch).2 := .write bs .refl
  rw [h] at hwrite
  exact hwrite

theorem Leads.of_flush {r : Except IoError Unit} (h : Channel.flush ch = (r, ch')) :
    Leads ch ch' := by
  have hflush : Leads ch (Channel.flush ch).2 := .flush .refl
  rw [h] at hflush
  exact hflush

end Channel

open Channel (Leads)

theorem fill_leads {σ : Type} [Channel σ] (chunk room : Nat) (acc : List Bytes) (ch : σ) :
    Leads ch (fill chunk room acc ch).channel := by
  fun_induction fill chunk room acc ch with
  | case1 room acc ch hroom e ch' hr | case2 room acc ch hroom ch' hr
  | case3 room acc ch hroom ch' hr => exact .of_read hr
  | case4 room acc ch hroom bs ch' hr ih => exact (Leads.of_read hr).trans ih
  | case5 room acc ch hroom => exact .refl

namespace Attached

variable {σ : Type} [Channel σ] {a b c : Attached σ} {now : Moment}

/-! ## the calls of an operation -/

theorem transmit_leads (f : Fragment) (a : Attached σ) :
    Leads a.channel (transmit f a).after.channel := by
  rw [transmit]
  dsimp only
  split
  · rename_i e ch hwrite
    exact .of_write hwrite
  · rename_i ch hwrite
    exact .of_write hwrite

theorem flush_leads (a : Attached σ) : Leads a.channel (flush a).after.channel := by
  rw [flush]
  split
  · rename_i e ch hflush
    exact .of_flush hflush
  · rename_i ch hflush
    exact .of_flush hflush

theorem answer_leads (f : Fragment) (a : Attached σ) :
    Leads a.channel (answer f a).after.channel := by
  have hsent := transmit_leads f a
  rw [answer]
  generalize transmit f a = r at hsent
  cases r with
  | ok _ b => exact hsent.trans (flush_leads b)
  | error e b => exact hsent

theorem transmitAll_leads (fs : List Fragment) (a : Attached σ) :
    Leads a.channel (transmitAll fs a).after.channel := by
  induction fs generalizing a with
  | nil => exact .refl
  | cons f fs ih =>
    have hsent := transmit_leads f a
    rw [transmitAll]
    generalize transmit f a = r at hsent
    cases r with
    | ok _ b => exact hsent.trans (ih b)
    | error e b => exact hsent

theorem reject_leads (k : Key) (why : Rejection) (a : Attached σ) :
    Leads a.channel (reject k why a).after.channel := by
  rw [reject]
  split
  · exact answer_leads (.nak k) ((a.warn (.rejected k why)).eraseInbound k)
  · exact .refl

theorem finish_leads (k : Key) (assembly : Assembly) (a : Attached σ) :
    Leads a.channel (finish k assembly a).after.channel := by
  rw [finish, Assembly.release]
  dsimp only
  split
  · exact .refl
  · exact reject_leads k _ a
  · generalize hput : a.putInbound k _ = b
    have hchannel : b.channel = a.channel := by rw [← hput]; rfl
    have hanswered := answer_leads (.ack k) b
    rw [hchannel] at hanswered
    generalize answer (.ack k) b = r at hanswered
    cases r with
    | ok _ c => exact hanswered
    | error e c => exact hanswered

theorem assemble_leads (k : Key) (f : Fragment) (now : Moment) (assembly : Assembly)
    (a : Attached σ) : Leads a.channel (assemble k f now assembly a).after.channel := by
  rw [assemble]
  split
  · exact .refl
  · exact reject_leads k _ a
  · split
    · exact .refl
    · dsimp only
      split
      · exact finish_leads k _ a
      · exact .refl

theorem handle_leads (f : Fragment) (now : Moment) (a : Attached σ) :
    Leads a.channel (handle f now a).after.channel := by
  rw [handle]
  split
  · rw [handleControl]
    dsimp only
    split
    · exact .refl
    · split
      · exact answer_leads (.ack f.key)
          { a with link := { a.link with outbound := a.link.outbound.erase f.key } }
      · exact .refl
  · rw [handleBundle]
    split
    · exact .refl
    · split
      · exact .refl
      · split
        · split
          · split
            · exact answer_leads (.ack f.key) a
            · exact .refl
          · exact assemble_leads f.key f now _ (a.eraseInbound f.key)
        · split
          · exact .refl
          · exact assemble_leads f.key f now _ a

/-! ## on the way to a failure -/

/-- From `a` to `b` the link was not closed, no bundle was taken out of its queue, and its channel
was called. -/
structure Continues (a b : Attached σ) : Prop where
  connected : b.link.connected = a.link.connected
  ready : a.link.ready <+: b.link.ready
  channel : Leads a.channel b.channel

theorem Continues.trans (h : Continues a b) (h' : Continues b c) : Continues a c :=
  ⟨h'.connected.trans h.connected, h.ready.trans h'.ready, h.channel.trans h'.channel⟩

theorem handle_continues (f : Fragment) (now : Moment) (a : Attached σ) :
    Continues a (handle f now a).after := by
  have hturns := handle_turns f now a
  have hleads := handle_leads f now a
  generalize handle f now a = r at hturns hleads
  cases r with
  | ok _ b =>
    obtain ⟨bundle, hb⟩ := hturns
    exact ⟨connected_of_core hb.core, hb.ready ▸ List.prefix_append _ _, hleads⟩
  | error e b =>
    have hb : Broken e a b := hturns
    exact ⟨connected_of_core hb.core, hb.ready ▸ List.prefix_refl _, hleads⟩

theorem handleAll_continues (now : Moment) (count : Nat) (ps : List Wire.Piece) (a : Attached σ) :
    Continues a (handleAll now count ps a).after := by
  induction ps generalizing count a with
  | nil => exact ⟨rfl, List.prefix_refl _, .refl⟩
  | cons p ps ih =>
    cases p with
    | skipped size flaw =>
      have hrest := ih count (a.warn (.dropped size a.link.description flaw))
      exact ⟨hrest.connected, hrest.ready, hrest.channel⟩
    | fragment f wire =>
      have hone := handle_continues f now (a.arrived now)
      replace hone : Continues a (handle f now (a.arrived now)).after :=
        ⟨hone.connected, hone.ready, hone.channel⟩
      rw [handleAll]
      generalize handle f now (a.arrived now) = r at hone
      cases r with
      | ok _ b => exact hone.trans (ih (count + 1) b)
      | error e b => exact hone

theorem loaded_continues (a : Attached σ) : Continues a a.loaded :=
  ⟨rfl, List.prefix_refl _, fill_leads _ _ _ _⟩

theorem receiveBundles_continues (now : Moment) (a : Attached σ) :
    Continues a (receiveBundles now a).after := by
  have hloaded := loaded_continues a
  cases hended : a.intake.ended with
  | error e =>
    rw [receiveBundles_failed hended]
    exact ⟨hloaded.connected, hloaded.ready, hloaded.channel⟩
  | ok ended =>
    have hall := hloaded.trans (handleAll_continues now 0 a.pieces a.loaded)
    cases hr : handleAll now 0 a.pieces a.loaded with
    | error e b =>
      rw [hr] at hall
      rw [receiveBundles_broken hended hr]
      exact hall
    | ok count b =>
      rw [hr] at hall
      rw [receiveBundles_handled hended hr]
      have hpurged := conclude_purged now ended count b
      exact hall.trans ⟨hpurged.connected, hpurged.ready ▸ List.prefix_refl _,
        hpurged.channel ▸ .refl⟩

theorem writeBundle_leads (buffer : Bytes) (flushNow : Bool) (now : Moment) (a : Attached σ) :
    Leads a.channel (writeBundle buffer flushNow now a).after.channel := by
  rw [writeBundle]
  dsimp only
  split
  · exact .refl
  · rename_i parts hsplit
    split
    · exact .refl
    · generalize hnext : ({ a with link := { a.link with nextMessage := a.link.nextMessage + 1 } } :
        Attached σ) = b
      have hchannel : b.channel = a.channel := by rw [← hnext]
      have hsent := transmitAll_leads parts b
      rw [hchannel] at hsent
      generalize transmitAll parts b = r at hsent
      cases r with
      | error e c => exact hsent
      | ok _ c =>
        dsimp only
        split
        · exact hsent.trans (flush_leads (recordSent _ parts now c))
        · exact hsent

theorem writeBundle_continues (buffer : Bytes) (flushNow : Bool) (now : Moment) (a : Attached σ) :
    Continues a (writeBundle buffer flushNow now a).after := by
  have hleads := writeBundle_leads buffer flushNow now a
  have hmeets := writeBundle_issued buffer flushNow now a
  generalize writeBundle buffer flushNow now a = r at hleads hmeets
  have hissued : Issued a r.after := by
    cases r with
    | ok _ b => exact hmeets.1
    | error e b => exact hmeets.1
  exact ⟨hissued.connected, hissued.ready ▸ List.prefix_refl _, hleads⟩

/-! ## how an operation fails -/

/-- `b` is what closing leaves of `a`. -/
structure Ceased (a b : Attached σ) : Prop where
  disconnected : b.link.connected = false
  outbound : b.link.outbound = .empty
  inbound : b.link.inbound = .empty
  raw : b.link.raw = []
  ready : b.link.ready = a.link.ready
  channel : b.channel = (Channel.close a.channel).2

theorem ceased_close (hopen : a.link.connected = true) (w : Warning) :
    Ceased a (a.warn w).close := by
  have hwarned : (a.warn w).link.connected = true := hopen
  rw [close, if_pos hwarned]
  exact ⟨rfl, rfl, rfl, rfl, rfl, rfl⟩

/-- how an error that is not fatal leaves things -/
def Spares (a : Attached σ) (r : Outcome σ Unit) : Prop :=
  ∀ e b, r = .error (.error e) b → e.isFatal = false → b = a

theorem writeBundle_spares (buffer : Bytes) (flushNow : Bool) (now : Moment) (a : Attached σ) :
    Spares a (writeBundle buffer flushNow now a) := by
  intro e b hr hmild
  have hissued := writeBundle_issued buffer flushNow now a
  rw [hr] at hissued
  rcases hissued.2 with ⟨io, rfl⟩ | hsame
  · cases hmild
  · exact hsame

/-- whatever error a receive of an open link meets is fatal -/
theorem receiveBundles_fatal {e : LinkError} (h : receiveBundles now a = .error (.error e) b) :
    e.isFatal = true := by
  have hclock := receiveBundles_clock now a
  rw [h] at hclock
  rcases hclock with ⟨io, rfl⟩ | hend | ⟨htimeout, -⟩
  · rfl
  · rw [Failure.error.inj hend]
    rfl
  · rw [Failure.error.inj htimeout]
    rfl

theorem receiveBundles_spares (now : Moment) (a : Attached σ) :
    Spares a (receiveBundles now a) := by
  intro e b hr hmild
  rw [receiveBundles_fatal hr] at hmild
  cases hmild

/-- A write or a receive that fails, with the outcome `r` if the link was open, has changed nothing,
or it has closed the link. -/
theorem unchanged_or_ceased {r : Outcome σ Unit} (hcontinues : Continues a r.after)
    (hspares : Spares a r) {e : LinkError}
    (h : (if a.link.connected then settle r else .error (.error .notConnected) a) =
      .error (.error e) c) :
    (e.isFatal = false → c = a) ∧
      (e.isFatal = true → ∃ b, r = .error (.error e) b ∧ Continues a b ∧ Ceased b c) := by
  split at h
  · rename_i hopen
    rcases r with ⟨_, b⟩ | ⟨e' | f, b⟩
    · cases h
    · rw [settle] at h
      have hb : b.link.connected = true := hcontinues.connected.trans hopen
      split at h
      · rename_i hfatal
        cases h
        refine ⟨fun hmild => ?_, fun _ => ⟨b, rfl, hcontinues, ceased_close hb _⟩⟩
        rw [hfatal] at hmild
        cases hmild
      · rename_i hmild
        cases h
        exact ⟨hspares e _ rfl, fun hfatal => absurd hfatal hmild⟩
    · cases h
  · cases h
    exact ⟨fun _ => rfl, fun hfatal => by cases hfatal⟩

end Attached

end BundleLink
