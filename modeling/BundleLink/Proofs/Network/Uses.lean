import BundleLink.Proofs.Mirroring
import BundleLink.Proofs.Network.Failing

/-!
# The calls of a link on its channel

A channel is wrapped such that it keeps a record of all calls made on it. A link does the same with
or without the wrapping, so that the record which an operation leaves on a wrapped channel tells
which calls the operation makes.

* `Logged σ`              a channel with its record, as a `Channel`;
* `Attached.uses`         the calls that an operation makes, `Attached.call_logged` what they mean;
* `Attached.Concludes`    an operation of an open link leaves it open and does not close the
  channel, or it closes both, and this is the last call;
* `Link.Turn`             what one operation does to a link, its channel and its reader;
* `Attached.call_turn`, `Link.serve_turn`  what the operations do, with and without the channel;
* `Link.Rest`             what is left to a link that met a fault, `Link.serveHalted_rest`.
-/

namespace BundleLink

open Pair (Operation)

structure Logged (σ : Type) where
  channel : σ
  /-- the calls made so far, the oldest one first -/
  uses : List ChannelUse

variable {σ : Type} [Channel σ]

namespace Logged

/-- the state and the record after a call -/
def noted {α : Type} (l : Logged σ) (use : ChannelUse) (r : α × σ) : α × Logged σ :=
  (r.1, ⟨r.2, l.uses ++ [use]⟩)

instance : Channel (Logged σ) where
  read n l := l.noted (.read n) (Channel.read n l.channel)
  write bs l := l.noted (.write bs) (Channel.write bs l.channel)
  flush l := l.noted .flush (Channel.flush l.channel)
  close l := l.noted .close (Channel.close l.channel)
  lull l := Channel.lull l.channel
  length_read_le n l := Channel.length_read_le n l.channel
  lull_read_le n l := Channel.lull_read_le n l.channel
  lull_read_lt n l := Channel.lull_read_lt n l.channel

theorem mirrors : Channel.Mirrors (Logged.channel : Logged σ → σ) :=
  ⟨fun _ _ => rfl, fun _ _ => rfl, fun _ => rfl, fun _ => rfl⟩

/-- reads, writes and flushes are added to the record -/
theorem uses_leads {l l' : Logged σ} (h : Channel.Leads l l') :
    ∃ us, l'.uses = l.uses ++ us ∧ .close ∉ us := by
  have hadd {l' : Logged σ} {us : List ChannelUse} (hl' : l'.uses = l.uses ++ us)
      (hus : .close ∉ us) {use : ChannelUse} (huse : .close ≠ use) :
      ∃ us, l'.uses ++ [use] = l.uses ++ us ∧ .close ∉ us := by
    refine ⟨us ++ [use], by rw [hl', List.append_assoc], fun hmem => ?_⟩
    rcases List.mem_append.mp hmem with hold | hnew
    · exact hus hold
    · exact huse (List.mem_singleton.mp hnew)
  induction h with
  | refl => exact ⟨[], (List.append_nil _).symm, List.not_mem_nil⟩
  | read n _ ih =>
    obtain ⟨us, hl', hus⟩ := ih
    exact hadd hl' hus nofun
  | write bs _ ih =>
    obtain ⟨us, hl', hus⟩ := ih
    exact hadd hl' hus nofun
  | flush _ ih =>
    obtain ⟨us, hl', hus⟩ := ih
    exact hadd hl' hus nofun

end Logged

/-! ## operations on the channel -/

namespace Attached

variable {ρ : Type} [Channel ρ] {φ : σ → ρ}

theorem call_map (h : Channel.Mirrors φ) (op : Operation) (now : Moment) (a : Attached σ) :
    (a.map φ).call op now = (a.call op now).map φ := by
  cases op with
  | write buffer flushNow => exact write_map h buffer flushNow now a
  | writeText text flushNow => exact write_map h (Utf8.encode text) flushNow now a
  | receive => exact receive_map h now a
  | close => exact congrArg (EStateM.Result.ok ()) (close_map h a)
  | _ => rfl

/-- the same link, on a channel whose record is empty -/
def logged (a : Attached σ) : Attached (Logged σ) := ⟨a.link, ⟨a.channel, []⟩⟩

/-- the calls that an operation makes on the channel, the first one first -/
def uses (op : Operation) (now : Moment) (a : Attached σ) : List ChannelUse :=
  (a.logged.call op now).after.channel.uses

/-- The record makes no difference to what the operation does. -/
theorem call_logged (op : Operation) (now : Moment) (a : Attached σ) :
    (a.logged.call op now).map Logged.channel = a.call op now :=
  (call_map Logged.mirrors op now a.logged).symm

theorem link_logged (op : Operation) (now : Moment) (a : Attached σ) :
    (a.logged.call op now).after.link = (a.call op now).after.link := by
  rw [← call_logged op now a, Outcome.after_map]

theorem call_of_closed {a : Attached σ} (h : a.link.connected = false) (op : Operation)
    (now : Moment) : (a.call op now).after = a := by
  cases op with
  | write buffer flushNow => exact congrArg Outcome.after (write_of_closed h buffer flushNow now)
  | writeText text flushNow =>
    exact congrArg Outcome.after (write_of_closed h (Utf8.encode text) flushNow now)
  | receive => exact congrArg Outcome.after (receive_of_closed h now)
  | close => exact close_of_closed h
  | _ => rfl

theorem uses_of_closed {a : Attached σ} (h : a.link.connected = false) (op : Operation)
    (now : Moment) : a.uses op now = [] :=
  have hlogged : a.logged.link.connected = false := h
  congrArg (fun b => b.channel.uses) (call_of_closed hlogged op now)

theorem uses_of_local {op : Operation} (h : op.isLocal = true) (now : Moment) (a : Attached σ) :
    a.uses op now = [] := by
  cases op <;> first | rfl | cases h

/-- From `a`, an open link, to `b` no bundle was taken out of its queue. It is still open and so is
the channel, or both were closed at last. -/
structure Concludes (a b : Attached σ) : Prop where
  ready : a.link.ready <+: b.link.ready
  stays : b.link.connected = true → Channel.Leads a.channel b.channel
  ends : b.link.connected = false →
    ∃ ch, Channel.Leads a.channel ch ∧ b.channel = (Channel.close ch).2

theorem Continues.concludes {a b : Attached σ} (h : Continues a b)
    (hopen : a.link.connected = true) : Concludes a b :=
  ⟨h.ready, fun _ => h.channel, fun hclosed => by rw [h.connected, hopen] at hclosed; cases hclosed⟩

theorem Continues.concludes_close {a b : Attached σ} (h : Continues a b)
    (hopen : a.link.connected = true) : Concludes a b.close := by
  have hb : b.link.connected = true := h.connected.trans hopen
  refine ⟨?_, fun hstill => ?_, fun _ => ⟨b.channel, h.channel, ?_⟩⟩
  · rw [close_ready]
    exact h.ready
  · rw [close_connected] at hstill
    cases hstill
  · rw [close, if_pos hb]

theorem Continues.settle {a : Attached σ} {r : Outcome σ Unit} (h : Continues a r.after)
    (hopen : a.link.connected = true) : Concludes a (settle r).after := by
  rcases r with ⟨_, b⟩ | ⟨e | f, b⟩
  · exact h.concludes hopen
  · rw [Attached.settle]
    split
    · have hwarned : Continues a (b.warn (.closing b.link.id b.link.description e)) :=
        ⟨h.connected, h.ready, h.channel⟩
      exact hwarned.concludes_close hopen
    · exact h.concludes hopen
  · exact h.concludes hopen

theorem call_concludes {a : Attached σ} (hopen : a.link.connected = true) (op : Operation)
    (now : Moment) : Concludes a (a.call op now).after := by
  have hrefl : Continues a a := ⟨rfl, List.prefix_refl _, .refl⟩
  have hwrite (buffer : Bytes) (flushNow : Bool) :
      Concludes a (a.write buffer flushNow now).after := by
    rw [write, if_pos hopen]
    exact (writeBundle_continues buffer flushNow now a).settle hopen
  cases op with
  | write buffer flushNow => exact hwrite buffer flushNow
  | writeText text flushNow => exact hwrite (Utf8.encode text) flushNow
  | receive =>
    show Concludes a (a.receive now).after
    rw [receive, if_pos hopen]
    exact (receiveBundles_continues now a).settle hopen
  | close => exact hrefl.concludes_close hopen
  | _ => exact hrefl.concludes hopen

end Attached

/-! ## what an operation does -/

/-- what a response hands out to the reader: a bundle, if there is one in it -/
def Response.bundle? (r : Response) : Option Bytes :=
  match r.result with
  | .ok (.bundle bundle) => bundle
  | .ok (.length (some n)) => some (r.buffer.take n)
  | .ok (.text (some text)) => some (Utf8.encode text)
  | _ => none

theorem Response.bundle?_ofCall {α : Type} (r : Except (Failure LinkError) α) :
    (ofCall r).bundle? = none := by cases r <;> rfl

/-- From `l` to `l'` the calls `us` are made on the channel, and the bundles `bs` are handed out. -/
structure Link.Turn (l l' : Link) (us : List ChannelUse) (bs : List Bytes) : Prop where
  /-- no bundle is lost or overtaken -/
  ready : l.ready <+: bs ++ l'.ready
  /-- a link that is open was so before, and its channel is not closed -/
  stays : l'.connected = true → l.connected = true ∧ .close ∉ us
  /-- a link that was open closes its channel, and does so at last -/
  ends : l.connected = true → l'.connected = false →
    ∃ before, us = before ++ [.close] ∧ .close ∉ before
  /-- a link that was closed makes no calls, and only bundles that were ready can be read -/
  gone : l.connected = false → us = [] ∧ bs ++ l'.ready = l.ready

/-- a change of the link alone, which may hand out bundles -/
theorem Link.Turn.of_same {l l' : Link} {bs : List Bytes} (hconnected : l'.connected = l.connected)
    (hready : bs ++ l'.ready = l.ready) : Turn l l' [] bs where
  ready := hready ▸ List.prefix_refl _
  stays hopen := ⟨hconnected ▸ hopen, List.not_mem_nil⟩
  ends hopen hclosed := by
    rw [hconnected, hopen] at hclosed
    cases hclosed
  gone _ := ⟨rfl, hready⟩

theorem Attached.call_turn (op : Operation) (now : Moment) (a : Attached σ) :
    a.link.Turn (a.call op now).after.link (a.uses op now) [] := by
  cases hopen : a.link.connected with
  | false =>
    rw [call_of_closed hopen, uses_of_closed hopen]
    exact .of_same rfl rfl
  | true =>
    -- the calls are those of the link on the channel with a record, where it fares the same
    have hconcludes := call_concludes (show a.logged.link.connected = true from hopen) op now
    have hlink := link_logged op now a
    constructor
    · rw [← hlink]
      exact hconcludes.ready
    · intro hstill
      rw [← hlink] at hstill
      obtain ⟨us, hus, hnone⟩ := Logged.uses_leads (hconcludes.stays hstill)
      refine ⟨hopen, ?_⟩
      rw [uses, hus]
      exact hnone
    · intro _ hclosed
      rw [← hlink] at hclosed
      obtain ⟨ch, hleads, hch⟩ := hconcludes.ends hclosed
      obtain ⟨us, hus, hnone⟩ := Logged.uses_leads hleads
      have hlast : (Channel.close ch).2.uses = ch.uses ++ [.close] := rfl
      refine ⟨us, ?_, hnone⟩
      rw [uses, hch, hlast, hus]
      rfl
    · intro hclosed
      rw [hopen] at hclosed
      cases hclosed

section
variable {l : Link} {bundle : Bytes} {rest : List Bytes} {buffer : Bytes}

theorem Link.read_nil (h : l.ready = []) : l.read = (l.nothingReady, l) := by rw [read, h]

theorem Link.readInto_nil (h : l.ready = []) : l.readInto buffer = (l.nothingReady, buffer, l) := by
  rw [readInto, h]

theorem Link.readText_nil (h : l.ready = []) : l.readText = (l.nothingReady, l) := by
  rw [readText, h]

end

/-- what is handed out was the first that was ready, and the rest still is -/
theorem Link.ready_serve (l : Link) (op : Operation) :
    (l.serve op).1.bundle?.toList ++ (l.serve op).2.ready = l.ready := by
  cases op with
  | read =>
    show (Response.ofLink .bundle l.read.1 []).bundle?.toList ++ l.read.2.ready = l.ready
    cases hready : l.ready with
    | nil =>
      rw [read_nil hready, nothingReady]
      cases l.connected <;> exact hready
    | cons bundle rest =>
      rw [read_cons hready]
      rfl
  | readInto buffer =>
    show (Response.ofLink .length (l.readInto buffer).1 (l.readInto buffer).2.1).bundle?.toList ++
      (l.readInto buffer).2.2.ready = l.ready
    cases hready : l.ready with
    | nil =>
      rw [readInto_nil hready, nothingReady]
      cases l.connected <;> exact hready
    | cons bundle rest =>
      rw [readInto, hready]
      dsimp only
      split
      · exact hready
      · exact congrArg (· :: rest) List.take_left
  | readText =>
    show (Response.ofLink .text l.readText.1 []).bundle?.toList ++ l.readText.2.ready = l.ready
    cases hready : l.ready with
    | nil =>
      rw [readText_nil hready, nothingReady]
      cases l.connected <;> exact hready
    | cons bundle rest =>
      rw [readText, hready]
      dsimp only
      split
      · exact hready
      · rename_i text hdecode
        exact congrArg (· :: rest) (Utf8.encode_of_decode hdecode)
  | setFragmentSize size =>
    show (Response.ofCall _).bundle?.toList ++ (l.setFragmentSize size).2.ready = l.ready
    rw [Response.bundle?_ofCall, setFragmentSize]
    split <;> rfl
  | advanceGeneration =>
    show (Response.ofCall _).bundle?.toList ++ l.advanceGeneration.2.ready = l.ready
    rw [Response.bundle?_ofCall, advanceGeneration]
    split <;> rfl
  | _ => rfl

theorem Link.serve_turn (l : Link) (op : Operation) :
    l.Turn (l.serve op).2 [] (l.serve op).1.bundle?.toList :=
  .of_same (l.serve_connected op) (l.ready_serve op)

/-! ## after a fault -/

/-- From `l` to `l'` the bundles `bs` are handed out, and nothing else happens, except that the link
may be declared closed. -/
structure Link.Rest (l l' : Link) (bs : List Bytes) : Prop where
  ready : bs ++ l'.ready = l.ready
  connected : l'.connected = true → l.connected = true

theorem Link.serveHalted_rest (l : Link) (op : Operation) :
    l.Rest (l.serveHalted op).2 (l.serveHalted op).1.bundle?.toList := by
  have hreads (hserve : l.serveHalted op = l.serve op)
      (hready : (l.serve op).1.bundle?.toList ++ (l.serve op).2.ready = l.ready) :
      l.Rest (l.serveHalted op).2 (l.serveHalted op).1.bundle?.toList := by
    rw [hserve]
    exact ⟨hready, fun hopen => (l.serve_connected op).symm.trans hopen⟩
  cases op with
  | read => exact hreads rfl (l.ready_serve _)
  | readInto buffer => exact hreads rfl (l.ready_serve _)
  | readText => exact hreads rfl (l.ready_serve _)
  | close =>
    refine ⟨?_, fun hopen => nomatch hopen⟩
    show (Response.ofCall _).bundle?.toList ++ l.ready = l.ready
    rw [Response.bundle?_ofCall]
    rfl
  | _ => exact ⟨rfl, fun hopen => hopen⟩

end BundleLink
