import BundleLink.Link.Receive
import BundleLink.Link.Write

/-!
# Channels that mirror each other

All that a link learns of its channel are the answers to its calls. If the states of one channel are
mapped to those of another such that both give the same answers, then whatever a link does on the
one it does on the other.

* `Channel.Mirrors`  a map between the states of two channels that goes along with all calls;
* `Attached.map`, `Outcome.map`  the same link on the other channel;
* `Attached.write_map`, `Attached.receive_map`, `Attached.close_map`  the operations of a link go
  along with it.
-/

namespace BundleLink

variable {σ ρ : Type} {φ : σ → ρ}

abbrev Attached.map (φ : σ → ρ) (a : Attached σ) : Attached ρ := ⟨a.link, φ a.channel⟩

def Outcome.map {α : Type} (φ : σ → ρ) : Outcome σ α → Outcome ρ α
  | .ok x a => .ok x (a.map φ)
  | .error e a => .error e (a.map φ)

theorem Outcome.after_map {α : Type} (r : Outcome σ α) : (r.map φ).after = r.after.map φ := by
  cases r <;> rfl

def Intake.map (φ : σ → ρ) (t : Intake σ) : Intake ρ := ⟨t.chunks, t.ended, φ t.channel⟩

variable [Channel σ] [Channel ρ]

/-- A call at the image of a state has the same answer, and leads to the image. -/
structure Channel.Mirrors (φ : σ → ρ) : Prop where
  read : ∀ n ch, Channel.read n (φ ch) = ((Channel.read n ch).1, φ (Channel.read n ch).2)
  write : ∀ bs ch, Channel.write bs (φ ch) = ((Channel.write bs ch).1, φ (Channel.write bs ch).2)
  flush : ∀ ch, Channel.flush (φ ch) = ((Channel.flush ch).1, φ (Channel.flush ch).2)
  close : ∀ ch, Channel.close (φ ch) = ((Channel.close ch).1, φ (Channel.close ch).2)

open Channel (Mirrors)

theorem fill_map (h : Mirrors φ) (chunk room : Nat) (acc : List Bytes) (ch : σ) :
    fill chunk room acc (φ ch) = (fill chunk room acc ch).map φ := by
  fun_induction fill chunk room acc ch with
  | case1 room acc ch hroom e ch' hr | case2 room acc ch hroom ch' hr
  | case3 room acc ch hroom ch' hr =>
    rw [fill, dif_pos hroom, h.read, hr]
    rfl
  | case4 room acc ch hroom bs ch' hr ih =>
    rw [fill, dif_pos hroom, h.read, hr]
    exact ih
  | case5 room acc ch hroom =>
    rw [fill, dif_neg hroom]
    rfl

namespace Attached

section
variable (h : Mirrors φ)
include h

/-! ## writing fragments -/

theorem close_map (a : Attached σ) : (a.map φ).close = a.close.map φ := by
  rw [close, close]
  by_cases hopen : a.link.connected = true
  · rw [if_pos hopen, if_pos (show (a.map φ).link.connected = true from hopen)]
    exact congrArg (Attached.mk _) (congrArg Prod.snd (h.close a.channel))
  · rw [if_neg hopen, if_neg (show ¬ (a.map φ).link.connected = true from hopen)]

theorem transmit_map (f : Fragment) (a : Attached σ) :
    transmit f (a.map φ) = (transmit f a).map φ := by
  have hwrite := h.write (f.wire a.link.layout) a.channel
  rw [transmit, transmit]
  dsimp only
  rw [hwrite]
  rcases Channel.write (f.wire a.link.layout) a.channel with ⟨_ | _, ch⟩ <;> rfl

theorem transmitAll_map (fs : List Fragment) (a : Attached σ) :
    transmitAll fs (a.map φ) = (transmitAll fs a).map φ := by
  induction fs generalizing a with
  | nil => rfl
  | cons f fs ih =>
    rw [transmitAll, transmitAll, transmit_map h]
    cases transmit f a with
    | ok _ b => exact ih b
    | error e b => rfl

theorem flush_map (a : Attached σ) : flush (a.map φ) = (flush a).map φ := by
  have hflush := h.flush a.channel
  rw [flush, flush]
  dsimp only
  rw [hflush]
  rcases Channel.flush a.channel with ⟨_ | _, ch⟩ <;> rfl

theorem answer_map (f : Fragment) (a : Attached σ) :
    answer f (a.map φ) = (answer f a).map φ := by
  rw [answer, answer, transmit_map h]
  cases transmit f a with
  | ok _ b => exact flush_map h b
  | error e b => rfl

theorem writeBundle_map (buffer : Bytes) (flushNow : Bool) (now : Moment) (a : Attached σ) :
    writeBundle buffer flushNow now (a.map φ) = (writeBundle buffer flushNow now a).map φ := by
  rw [writeBundle, writeBundle]
  dsimp only
  cases Bundle.split a.link.layout a.link.fragmentSize
    ⟨a.link.generation, a.link.nextMessage⟩ buffer with
  | error e => rfl
  | ok fs =>
    have hsent := transmitAll_map h fs
      { a with link := { a.link with nextMessage := a.link.nextMessage + 1 } }
    dsimp only [Attached.map] at hsent ⊢
    by_cases hlast : a.link.nextMessage = Link.lastMessage
    · rw [if_pos hlast, if_pos hlast]
      rfl
    · rw [if_neg hlast, if_neg hlast, hsent]
      cases (transmitAll fs _ : Outcome σ Unit) with
      | error e b => rfl
      | ok _ b =>
        dsimp only [Outcome.map]
        split
        · exact flush_map h (recordSent _ fs now b)
        · rfl

theorem settle_map {α : Type} (r : Outcome σ α) : settle (r.map φ) = (settle r).map φ := by
  rcases r with ⟨x, b⟩ | ⟨e | f, b⟩
  · rfl
  · show settle (.error (.error e) (b.map φ) : Outcome ρ α) = _
    rw [settle, settle]
    split
    · have hclosed := close_map h (b.warn (.closing b.link.id b.link.description e))
      exact congrArg (EStateM.Result.error (Failure.error e)) hclosed
    · rfl
  · rfl

theorem write_map (buffer : Bytes) (flushNow : Bool) (now : Moment) (a : Attached σ) :
    (a.map φ).write buffer flushNow now = (a.write buffer flushNow now).map φ := by
  rw [write, write, writeBundle_map h, settle_map h]
  show (if a.link.connected then _ else _) = _
  split <;> rfl

/-! ## receiving -/

theorem fillRaw_map (a : Attached σ) : fillRaw (a.map φ) = (fillRaw a).map φ := by
  have hfill := fill_map h a.link.settings.readChunk
    (a.link.settings.rawLimit - a.link.raw.length) [] a.channel
  rw [fillRaw, fillRaw]
  dsimp only [Attached.map]
  rw [hfill]
  generalize fill _ _ [] a.channel = t
  rcases t with ⟨chunks, _ | ended, ch⟩ <;> rfl

theorem handleControl_map (f : Fragment) (a : Attached σ) :
    handleControl f (a.map φ) = (handleControl f a).map φ := by
  rw [handleControl, handleControl]
  dsimp only [Attached.map]
  split
  · rfl
  · cases a.link.outbound.get? f.key with
    | some fs =>
      exact answer_map h (.ack f.key)
        { a with link := { a.link with outbound := a.link.outbound.erase f.key } }
    | none => rfl

theorem reject_map (k : Key) (why : Rejection) (a : Attached σ) :
    reject k why (a.map φ) = (reject k why a).map φ := by
  rw [reject, reject]
  split
  · exact answer_map h (.nak k) ((a.warn (.rejected k why)).eraseInbound k)
  · rfl

theorem finish_map (k : Key) (assembly : Assembly) (a : Attached σ) :
    finish k assembly (a.map φ) = (finish k assembly a).map φ := by
  rw [finish, finish]
  dsimp only
  cases Bundle.join a.link.layout assembly.release.1 with
  | error e =>
    cases e with
    | fault e => rfl
    | error e => exact reject_map h k (.bundle e) a
  | ok bundle =>
    have hanswer := answer_map h (.ack k)
      (a.putInbound k { assembly.release.2 with complete := true })
    dsimp only
    rw [show (a.map φ).putInbound k { assembly.release.2 with complete := true } =
      (a.putInbound k { assembly.release.2 with complete := true }).map φ from rfl, hanswer]
    cases (answer (.ack k) _ : Outcome σ Unit) with
    | error e b => rfl
    | ok _ b => rfl

theorem assemble_map (k : Key) (f : Fragment) (now : Moment) (assembly : Assembly)
    (a : Attached σ) :
    assemble k f now assembly (a.map φ) = (assemble k f now assembly a).map φ := by
  rw [assemble, assemble]
  rcases assembly.insert f with ⟨_ | _ | why, assembly⟩
  · dsimp only [Attached.map]
    cases a.link.deadline now (assembly.missing.getD 0) with
    | error e => rfl
    | ok deadline =>
      dsimp only
      split
      · exact finish_map h k _ a
      · rfl
  · rfl
  · exact reject_map h k (.misfit why) a

theorem handleBundle_map (f : Fragment) (now : Moment) (a : Attached σ) :
    handleBundle f now (a.map φ) = (handleBundle f now a).map φ := by
  rw [handleBundle, handleBundle]
  dsimp only [Attached.map]
  split
  · rfl
  · cases a.link.lag with
    | error e => rfl
    | ok lag =>
      dsimp only
      cases a.link.inbound.get? f.key with
      | some assembly =>
        dsimp only
        split
        · split
          · exact answer_map h (.ack f.key) a
          · rfl
        · exact assemble_map h f.key f now assembly (a.eraseInbound f.key)
      | none =>
        dsimp only
        cases a.link.deadline now 0 with
        | error e => rfl
        | ok deadline => exact assemble_map h f.key f now (.empty now deadline) a

theorem handle_map (f : Fragment) (now : Moment) (a : Attached σ) :
    handle f now (a.map φ) = (handle f now a).map φ := by
  rw [handle, handle]
  split
  · exact handleControl_map h f a
  · exact handleBundle_map h f now a

theorem handleAll_map (now : Moment) (count : Nat) (ps : List Wire.Piece) (a : Attached σ) :
    handleAll now count ps (a.map φ) = (handleAll now count ps a).map φ := by
  induction ps generalizing count a with
  | nil => rfl
  | cons p ps ih =>
    cases p with
    | skipped size flaw => exact ih count (a.warn (.dropped size a.link.description flaw))
    | fragment f wire =>
      rw [handleAll, handleAll, show (a.map φ).arrived now = (a.arrived now).map φ from rfl,
        handle_map h]
      cases handle f now (a.arrived now) with
      | ok _ b => exact ih (count + 1) b
      | error e b => rfl

theorem takeApart_map (now : Moment) (a : Attached σ) :
    takeApart now (a.map φ) = (takeApart now a).map φ :=
  handleAll_map h now 0 (Wire.scan a.link.layout a.link.raw).1
    { a with link := { a.link with raw := (Wire.scan a.link.layout a.link.raw).2 } }

omit h [Channel σ] [Channel ρ] in
theorem checkTimeout_map (now : Moment) (a : Attached σ) :
    checkTimeout now (a.map φ) = (checkTimeout now a).map φ := by
  rw [checkTimeout, checkTimeout]
  dsimp only [Attached.map]
  cases a.link.lag >>= fun lag => lag.times a.link.settings.timeoutMultiplier with
  | error e => rfl
  | ok patience =>
    dsimp only
    split
    · rfl
    · split
      · rfl
      · split <;> rfl

omit h [Channel σ] [Channel ρ] in
theorem conclude_map (now : Moment) (ended : Bool) (count : Nat) (a : Attached σ) :
    conclude now ended count (a.map φ) = (conclude now ended count a).map φ := by
  rw [conclude, conclude]
  split
  · rfl
  · split
    · rfl
    · show (if (a.purge now).link.isWaiting then _ else _) = _
      split
      · exact checkTimeout_map now (a.purge now)
      · rfl

theorem receiveBundles_map (now : Moment) (a : Attached σ) :
    receiveBundles now (a.map φ) = (receiveBundles now a).map φ := by
  rw [receiveBundles, receiveBundles, fillRaw_map h]
  cases fillRaw a with
  | error e b => rfl
  | ok ended b =>
    dsimp only [Outcome.map]
    rw [takeApart_map h]
    cases takeApart now b with
    | error e c => rfl
    | ok count c => exact conclude_map now ended count c

theorem receive_map (now : Moment) (a : Attached σ) :
    (a.map φ).receive now = (a.receive now).map φ := by
  rw [receive, receive, receiveBundles_map h, settle_map h]
  show (if a.link.connected then _ else _) = _
  split <;> rfl

end

end Attached

end BundleLink
