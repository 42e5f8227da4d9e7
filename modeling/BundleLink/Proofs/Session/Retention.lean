import BundleLink.Proofs.Session.Steps

/-!
# A finished bundle is kept for a while

When a bundle is delivered, its entry stays with the deadline that it has then. As long as the entry
is there, it answers for the bundle: any further fragment with the key, whatever it holds, makes the
link write the ack once more, and nothing else happens. Two things alone end this: an ack that no
bundle outbound accounts for, and a receive at the deadline or later.

* `Handling`, `Happening`    one fragment that is handled, and the trace that a run leaves of them;
* `Happening.ends`           what ends the time for which an entry is kept;
* `Link.Retains`             the entry is there, with its deadline, and `handle_retains` that a
  fragment leaves it there;
* `Attached.Repeats`         the ack is written and flushed, and nothing else happened;
* `Session.Shielded`, `Session.Guarded`  along a trace, one entry is kept, and the entry of each
  bundle that is delivered;
* `Session.no_redelivery`    the result.
-/

namespace BundleLink

/-- one fragment that is handled, in a state in which its arrival is noted -/
structure Handling (σ : Type) where
  fragment : Fragment
  now : Moment
  before : Attached (Traced σ)

namespace Handling

variable {σ : Type} [Channel σ]

def result (x : Handling σ) : Outcome (Traced σ) Unit := Attached.handle x.fragment x.now x.before

/-- the bundle that is delivered, if one is -/
def delivery (x : Handling σ) : Option Bytes :=
  (x.result.after.link.ready.drop x.before.link.ready.length).head?

/-- the calls of the channel -/
def calls (x : Handling σ) : List ChannelCall :=
  x.result.after.channel.calls.drop x.before.channel.calls.length

end Handling

/-- what happens in a receive -/
inductive Happening (σ : Type) where
  | handled (x : Handling σ)
  /-- the receive is over -/
  | received (now : Moment)

/-- The time of an entry is over: an ack came that is not for a bundle outbound, or a receive was
not before the deadline. -/
def Happening.ends {σ : Type} (k : Key) (due : Moment) : Happening σ → Bool
  | .handled x =>
    x.fragment.isControl && x.fragment.length == Fragment.ackLength && x.fragment.key == k
      && (x.before.link.outbound.get? k).isNone
  | .received now => decide (due.ns ≤ now.ns)

/-- The bundle is finished, and its entry is kept until that moment. -/
def Link.Retains (k : Key) (due : Moment) (l : Link) : Prop :=
  ∃ asm, l.inbound.get? k = some asm ∧ asm.complete = true ∧ asm.acked = true ∧ asm.deadline = due

def ChannelCall.succeeded : ChannelCall → Bool
  | .write _ failure => failure.isNone
  | .flush failure => failure.isNone

namespace Attached

variable {σ : Type} {a b c : Attached (Traced σ)} {f : Fragment} {k : Key} {due now : Moment}

/-- From `a` to `b` the ack for a bundle was written and flushed, and nothing else happened. -/
structure Repeats (k : Key) (a b : Attached (Traced σ)) : Prop where
  calls : b.channel.calls =
    a.channel.calls ++ [.write ((Fragment.ack k).wire a.link.layout) none, .flush none]
  link : ∃ traffic, b.link = { a.link with traffic := traffic }

/-- a finished entry changes only in that it goes, and only for an ack -/
theorem Change.finished_eq {l : Link} {o o' : Option Assembly} {bundle : Option Bytes}
    {asm : Assembly} (h : Change l f now o o' bundle) (ho : o = some asm)
    (hcomplete : asm.complete = true)
    (hnot : ¬ (f.isControl = true ∧ f.length = Fragment.ackLength ∧
      l.outbound.get? f.key = none)) : o' = o ∧ bundle = none := by
  have hbegins {asm' : Assembly} (hb : Begins now o asm') : False := by
    have hopen := hb.unfinished asm ho
    rw [hcomplete] at hopen
    cases hopen
  cases h with
  | passed => exact ⟨rfl, rfl⟩
  | released _ control ack unknown => exact absurd ⟨control, ack, unknown⟩ hnot
  | rejected _ unfinished =>
    have hopen := unfinished asm ho
    rw [hcomplete] at hopen
    cases hopen
  | doubled asm' b unfinished =>
    rw [← Option.some.inj ho, unfinished] at hcomplete
    cases hcomplete
  | added _ begins => exact (hbegins begins).elim
  | finished _ _ begins => exact (hbegins begins).elim

/-- a bundle that is delivered was not finished before, and leaves its entry for five lags -/
theorem Change.of_delivery {l : Link} {o o' : Option Assembly} {bundle : Bytes}
    (h : Change l f now o o' (some bundle)) :
    (∀ asm, o = some asm → asm.complete = false) ∧
      ∃ asm lag, o' = some asm ∧ asm.complete = true ∧ asm.acked = true ∧ l.lag = .ok lag ∧
        asm.deadline = ⟨now.ns + lag.ns * 5⟩ := by
  cases h with
  | @finished _ _ grown deadline _ begins part inserted hdue collected joined =>
    obtain ⟨lag, hlag, hdeadline⟩ := exists_lag hdue
    have hmissing : grown.missing = some 0 := by
      rw [Assembly.isCollected, beq_iff_eq] at collected
      exact collected
    rw [hmissing] at hdeadline
    exact ⟨begins.unfinished, _, lag, rfl, rfl, rfl, hlag, hdeadline⟩

variable [Channel σ]

/-- what is not the end of an entry leaves it there -/
theorem handle_retains (h : a.link.Retains k due)
    (hnot : (Happening.handled ⟨f, now, a⟩).ends k due = false) :
    (handle f now a).Meets (fun _ b => b.link.Retains k due) fun _ _ => True := by
  refine (handle_changes f now a).imp ?_ fun _ _ _ => trivial
  rintro _ b ⟨bundle, hb⟩
  obtain ⟨asm, hget, hcomplete, hacked, hdeadline⟩ := h
  by_cases hk : k = f.key
  · subst hk
    have hkept := hb.change.finished_eq hget hcomplete fun ⟨hcontrol, hack, hunknown⟩ => by
      rw [Happening.ends, hcontrol, hack, hunknown] at hnot
      simp at hnot
    exact ⟨asm, hkept.1.trans hget, hcomplete, hacked, hdeadline⟩
  · exact ⟨asm, (hb.others k hk).trans hget, hcomplete, hacked, hdeadline⟩

/-- a bundle is delivered only where no entry is kept, and then its own is -/
theorem handle_delivers {bundle : Bytes} (h : (Handling.mk f now a).delivery = some bundle) :
    (∀ due, ¬ a.link.Retains f.key due) ∧
      ∃ b lag, handle f now a = .ok () b ∧ a.link.lag = .ok lag ∧
        b.link.Retains f.key ⟨now.ns + lag.ns * 5⟩ := by
  have hchanges := handle_changes f now a
  rw [Handling.delivery, Handling.result] at h
  dsimp only at h
  generalize handle f now a = r at h hchanges ⊢
  cases r with
  | error e b =>
    have hready : b.link.ready = a.link.ready := hchanges.ready
    rw [Outcome.after, hready, List.drop_length] at h
    cases h
  | ok _ b =>
    obtain ⟨bundle', hb⟩ := hchanges
    rw [Outcome.after, hb.ready, List.drop_left] at h
    obtain rfl : bundle' = some bundle := by
      cases bundle' with
      | none => cases h
      | some bundle' => exact h
    obtain ⟨hopen, asm, lag, hasm, hcomplete, hacked, hlag, hdeadline⟩ := hb.change.of_delivery
    refine ⟨?_, b, lag, rfl, hlag, asm, hasm, hcomplete, hacked, hdeadline⟩
    rintro due ⟨asm', hget, hcomplete', -⟩
    rw [hopen asm' hget] at hcomplete'
    cases hcomplete'

/-- the entry answers for the bundle -/
theorem handle_repeats (h : a.link.Retains f.key due) (hpart : f.isPart = true) (now : Moment) :
    (∃ e, a.link.lag = .error e ∧ handle f now a = .error (.fault e) a) ∨
      handle f now a = answer (.ack f.key) a := by
  obtain ⟨asm, hget, hcomplete, hacked, -⟩ := h
  have hcontrol : ¬ f.isControl = true := fun hcontrol => by
    rw [isPart_of_control hcontrol] at hpart
    cases hpart
  have hstray : ¬ (f.number = 0 ∧ f.length ≤ 0) := fun ⟨hnumber, hlength⟩ => by
    rw [Fragment.isPart, hnumber, decide_eq_true hlength] at hpart
    cases hpart
  rw [handle, if_neg hcontrol, handleBundle, if_neg hstray]
  cases a.link.lag with
  | error e => exact .inl ⟨e, rfl, rfl⟩
  | ok lag =>
    right
    rw [hget]
    dsimp only
    rw [if_pos hcomplete, if_pos hacked]

/-- an answer whose calls succeed -/
theorem answer_repeats {r : Outcome (Traced σ) Unit} (hr : answer (.ack k) a = r)
    (hcalls : ∀ x ∈ r.after.channel.calls.drop a.channel.calls.length, x.succeeded = true) :
    ∃ b, r = .ok () b ∧ Repeats k a b := by
  have hresult := answer_result (.ack k) a
  have hcounted := answer_counted (.ack k) a
  rw [hr] at hresult hcounted
  cases hresult with
  | flushed b recorded => exact ⟨b, rfl, recorded.calls, hcounted⟩
  | unflushed b e recorded =>
    rw [Outcome.after, recorded.calls, List.drop_left] at hcalls
    have hfailed := hcalls (.flush (some e)) (by simp)
    cases hfailed
  | refused b e recorded =>
    rw [Outcome.after, recorded.calls, List.drop_left] at hcalls
    have hfailed := hcalls _ List.mem_cons_self
    cases hfailed

/-! ## along a trace -/

/-- what the handling of the fragments among pieces leaves in a trace -/
def handlings (now : Moment) (ps : List Wire.Piece) (a : Attached (Traced σ)) :
    List (Happening σ) :=
  along (fun f b => [.handled ⟨f, now, b⟩]) now ps a

/-- the trace of one receive -/
def happenings (now : Moment) (a : Attached (Traced σ)) : List (Happening σ) :=
  a.during (fun f b => [.handled ⟨f, now, b⟩]) now ++ [.received now]

end Attached

/-- Along a trace, the entry of a key is there whenever a fragment is handled, until something ends
its time. -/
def Shielded {σ : Type} (k : Key) (due : Moment) : List (Happening σ) → Prop
  | [] => True
  | .handled x :: ms => x.before.link.Retains k due ∧
    ((Happening.handled x).ends k due = false → Shielded k due ms)
  | .received now :: ms => ¬ due.ns ≤ now.ns → Shielded k due ms

/-- Along a trace, each bundle that is delivered leaves its entry for five lags. -/
def Guarded {σ : Type} [Channel σ] : List (Happening σ) → Prop
  | [] => True
  | .handled x :: ms => (∀ bundle, x.delivery = some bundle →
      ∃ lag, x.before.link.lag = .ok lag ∧
        Shielded x.fragment.key ⟨x.now.ns + lag.ns * 5⟩ ms) ∧
    Guarded ms
  | .received _ :: ms => Guarded ms

section
variable {σ : Type} {k : Key} {due : Moment} {xs ms : List (Happening σ)} {x y : Handling σ}

theorem Shielded.retains (h : Shielded k due (xs ++ .handled y :: ms))
    (hxs : ∀ m ∈ xs, m.ends k due = false) : y.before.link.Retains k due := by
  induction xs with
  | nil => exact h.1
  | cons m xs ih =>
    have hm := hxs m List.mem_cons_self
    have hrest (m' : Happening σ) (hm' : m' ∈ xs) := hxs m' (List.mem_cons_of_mem m hm')
    cases m with
    | handled x => exact ih (h.2 hm) hrest
    | received now => exact ih (h (of_decide_eq_false hm)) hrest

variable [Channel σ]

theorem Guarded.shielded (h : Guarded (xs ++ .handled x :: ms)) {bundle : Bytes}
    (hx : x.delivery = some bundle) :
    ∃ lag, x.before.link.lag = .ok lag ∧
      Shielded x.fragment.key ⟨x.now.ns + lag.ns * 5⟩ ms := by
  induction xs with
  | nil => exact h.1 bundle hx
  | cons m xs ih =>
    cases m with
    | handled y => exact ih h.2
    | received now => exact ih h

end

namespace Attached

variable {σ : Type} [Channel σ] {a c : Attached (Traced σ)} {k : Key} {due now : Moment}
  {ms : List (Happening σ)}

/-- the first handling, and those after it if it does not fail -/
theorem handlings_fragment (f : Fragment) (size : Nat) (ps : List Wire.Piece)
    (a : Attached (Traced σ)) :
    handlings now (.fragment f size :: ps) a = .handled ⟨f, now, a.arrived now⟩ ::
      match handle f now (a.arrived now) with
      | .ok () b => handlings now ps b
      | .error _ _ => [] := by
  rw [handlings, along]
  cases handle f now (a.arrived now) <;> rfl

/-- Whatever fragments are handled while the entry of a key is there, it is there all along. -/
theorem shielded_handlings (ps : List Wire.Piece) (count : Nat) (h : a.link.Retains k due)
    (hms : (handleAll now count ps a).Meets (fun _ b => b.link.Retains k due → Shielded k due ms)
      fun _ _ => Shielded k due ms) : Shielded k due (handlings now ps a ++ ms) := by
  induction ps generalizing count a with
  | nil => exact hms h
  | cons p ps ih =>
    cases p with
    | skipped size flaw => exact ih count (a := a.warn _) h hms
    | fragment f size =>
      rw [handlings_fragment, List.cons_append]
      refine ⟨h, fun hnot => ?_⟩
      have hretains := handle_retains (a := a.arrived now) h hnot
      rw [handleAll] at hms
      cases hr : handle f now (a.arrived now) with
      | ok _ b =>
        rw [hr] at hretains hms
        exact ih (count + 1) hretains hms
      | error e b =>
        rw [hr] at hms
        exact hms

/-- Each bundle that is delivered while fragments are handled leaves its entry. -/
theorem guarded_handlings (ps : List Wire.Piece) (count : Nat) (hguarded : Guarded ms)
    (hms : ∀ k due, (handleAll now count ps a).Meets
      (fun _ b => b.link.Retains k due → Shielded k due ms) fun _ _ => Shielded k due ms) :
    Guarded (handlings now ps a ++ ms) := by
  induction ps generalizing count a with
  | nil => exact hguarded
  | cons p ps ih =>
    cases p with
    | skipped size flaw => exact ih count (a := a.warn _) hms
    | fragment f size =>
      rw [handlings_fragment, List.cons_append]
      cases hr : handle f now (a.arrived now) with
      | ok _ b =>
        have hlater (k : Key) (due : Moment) : (handleAll now (count + 1) ps b).Meets
            (fun _ c => c.link.Retains k due → Shielded k due ms)
            fun _ _ => Shielded k due ms := by
          have hfirst := hms k due
          rw [handleAll, hr] at hfirst
          exact hfirst
        refine ⟨fun bundle hdelivered => ?_, ih (count + 1) hlater⟩
        obtain ⟨-, b', lag, hb, hlag, hretains⟩ := handle_delivers hdelivered
        rw [hr] at hb
        cases hb
        exact ⟨lag, hlag, shielded_handlings ps (count + 1) hretains (hlater _ _)⟩
      | error e b =>
        refine ⟨fun bundle hdelivered => ?_, hguarded⟩
        obtain ⟨-, b', lag, hb, -⟩ := handle_delivers hdelivered
        rw [hr] at hb
        cases hb

theorem happenings_ok {ended : Bool} (hopen : a.link.connected = true)
    (hended : a.intake.ended = .ok ended) (now : Moment) :
    a.happenings now = handlings now a.pieces a.loaded ++ [.received now] := by
  rw [happenings, during, if_pos hopen, fillRaw_ok hended]
  rfl

theorem happenings_error {e : IoError} (hopen : a.link.connected = true)
    (hended : a.intake.ended = .error e) (now : Moment) :
    a.happenings now = [.received now] := by
  rw [happenings, during, if_pos hopen, fillRaw_error hended]
  rfl

end Attached

namespace Session

variable {σ : Type} [Channel σ] {s : Session σ} {k : Key} {due now : Moment}

/-- what happens in an event, as long as the link is at work -/
def happens (s : Session σ) : Event → List (Happening σ)
  | .act .receive now => if s.isAtWork then s.attached.happenings now else []
  | _ => []

/-- the trace of a run -/
def happenings (s : Session σ) : List Event → List (Happening σ)
  | [] => []
  | e :: es => s.happens e ++ (s.step e).happenings es

/-- while the link is at work, the entry is there -/
def Retains (k : Key) (due : Moment) (s : Session σ) : Prop :=
  s.party.Active → s.party.link.Retains k due

theorem Retains.step {e : Event} (h : Retains k due s) (he : ∀ now, e ≠ .act .receive now) :
    Retains k due (s.step e) := by
  intro hx
  obtain ⟨⟨layout, size, outbound, ready, generation, next, progress, traffic, hlink⟩, -⟩ :=
    step_operated he hx
  rw [hlink]
  exact h (active_of_step hx)

/-- What follows the fragments of a receive: before the deadline, the entry that is there after all
fragments is not dropped, unless the link ends. -/
theorem shielded_received {ms : List (Happening σ)}
    (hms : Retains k due (s.step (.act .receive now)) → Shielded k due ms) :
    (Attached.handleAll now 0 s.attached.pieces s.attached.loaded).Meets
      (fun _ b => b.link.Retains k due → Shielded k due (.received now :: ms))
      fun _ _ => Shielded k due (.received now :: ms) := by
  cases hr : Attached.handleAll now 0 s.attached.pieces s.attached.loaded with
  | error e b =>
    refine fun _ => hms fun hx => ?_
    obtain ⟨b', c, ⟨-, ⟨count, hall⟩, -⟩, -⟩ := step_receive hx
    rw [hr] at hall
    cases hall
  | ok n b =>
    rintro ⟨asm, hget, hcomplete, hacked, hdeadline⟩
    refine fun hearly => hms fun hx => ?_
    obtain ⟨b', c, ⟨-, ⟨count, hall⟩, hpurged⟩, hlink⟩ := step_receive hx
    rw [hr] at hall
    cases hall
    rw [hlink]
    refine ⟨asm, ?_, hcomplete, hacked, hdeadline⟩
    rw [hpurged.inbound, hget, Option.filter_some, Attached.isOverdue, if_pos hcomplete, hdeadline,
      decide_eq_false hearly]
    rfl

/-- what happens after the reads of a receive failed -/
theorem retains_of_error {e : IoError} (hended : s.attached.intake.ended = .error e) :
    Retains k due (s.step (.act .receive now)) := by
  intro hx
  obtain ⟨b, c, ⟨hok, -, -⟩, -⟩ := step_receive hx
  rw [hended] at hok
  cases hok

theorem happens_of_active (h : s.party.Active) (now : Moment) :
    s.happens (.act .receive now) = s.attached.happenings now := if_pos (isAtWork_iff.mpr h)

/-- an event in which nothing happens -/
theorem Retains.quiet {e : Event} (h : Retains k due s) (he : s.happens e = []) :
    Retains k due (s.step e) := by
  intro hx
  refine h.step (fun now hreceive => ?_) hx
  rw [hreceive, happens_of_active (active_of_step hx), Attached.happenings] at he
  exact absurd he (by simp)

/-- an event is a receive of a link at work, or nothing happens in it -/
theorem happens_cases (s : Session σ) (e : Event) :
    (∃ now, e = .act .receive now ∧ s.party.Active ∧ s.happens e = s.attached.happenings now) ∨
      s.happens e = [] := by
  rw [happens.eq_def]
  split
  · rename_i now
    split
    · rename_i hwork
      exact .inl ⟨now, rfl, isAtWork_iff.mp hwork, rfl⟩
    · exact .inr rfl
  · exact .inr rfl

theorem happens_of_idle (h : ¬ s.party.Active) (e : Event) : s.happens e = [] :=
  (s.happens_cases e).resolve_left fun ⟨_, _, hactive, _⟩ => h hactive

theorem happens_of_ne {e : Event} (he : ∀ now, e ≠ .act .receive now) (s : Session σ) :
    s.happens e = [] :=
  (s.happens_cases e).resolve_left fun ⟨now, heq, _⟩ => he now heq

/-- The entry of a key that is there at the start of a run is there all along. -/
theorem shielded_run (es : List Event) (h : Retains k due s) :
    Shielded k due (s.happenings es) := by
  induction es generalizing s with
  | nil => trivial
  | cons e es ih =>
    rw [happenings]
    rcases s.happens_cases e with ⟨now, rfl, hactive, hhappens⟩ | hnothing
    · rw [hhappens]
      cases hended : s.attached.intake.ended with
      | error e =>
        rw [Attached.happenings_error hactive.1 hended]
        exact fun _ => ih (retains_of_error hended)
      | ok ended =>
        rw [Attached.happenings_ok hactive.1 hended, List.append_assoc]
        exact Attached.shielded_handlings _ 0 (h hactive) (shielded_received ih)
    · rw [hnothing]
      exact ih (h.quiet hnothing)

/-- Along any run, each bundle that is delivered leaves its entry. -/
theorem guarded_run (s : Session σ) (es : List Event) : Guarded (s.happenings es) := by
  induction es generalizing s with
  | nil => trivial
  | cons e es ih =>
    rw [happenings]
    rcases s.happens_cases e with ⟨now, rfl, hactive, hhappens⟩ | hnothing
    · rw [hhappens]
      cases hended : s.attached.intake.ended with
      | error e =>
        rw [Attached.happenings_error hactive.1 hended]
        exact ih _
      | ok ended =>
        rw [Attached.happenings_ok hactive.1 hended, List.append_assoc]
        exact Attached.guarded_handlings _ 0 (ih _)
          fun k due => shielded_received (shielded_run es)
    · rw [hnothing]
      exact ih _

/-- In any session of a link on any channel, let a bundle be delivered by the handling `x` of a
fragment, and let a fragment with the same key be handled later, in `y`.

If nothing in between ends the time of the entry, which is five lags from the delivery, then the
entry is still there with that deadline. If moreover the later fragment is a header or a data
fragment, whatever it holds, the channel calls are one write of the ack and one flush, and nothing
else happens, provided that these calls succeed; without a lag nothing happens but a fault.

If a bundle is delivered again by the later fragment, something in between has ended the time of the
entry. -/
theorem no_redelivery (s : Session σ) (es : List Event) (past mid later : List (Happening σ))
    (x y : Handling σ) (bundle : Bytes)
    (htrace : s.happenings es = past ++ .handled x :: (mid ++ .handled y :: later))
    (hdelivered : x.delivery = some bundle) (hkey : y.fragment.key = x.fragment.key) :
    ∃ lag due, x.before.link.lag = .ok lag ∧ due = ⟨x.now.ns + 5 * lag.ns⟩ ∧
      ((∀ m ∈ mid, m.ends x.fragment.key due = false) →
        y.before.link.Retains x.fragment.key due ∧
          (y.fragment.isPart = true →
            (∃ e, y.before.link.lag = .error e ∧ y.result = .error (.fault e) y.before) ∨
              ((∀ c ∈ y.calls, c.succeeded = true) →
                ∃ b, y.result = .ok () b ∧ Attached.Repeats x.fragment.key y.before b))) ∧
      (y.delivery ≠ none → ∃ m ∈ mid, m.ends x.fragment.key due = true) := by
  have hguarded := s.guarded_run es
  rw [htrace] at hguarded
  obtain ⟨lag, hlag, hshielded⟩ := hguarded.shielded hdelivered
  rw [Nat.mul_comm] at hshielded
  refine ⟨lag, _, hlag, rfl, fun hmid => ?_, fun hagain => ?_⟩
  · have hretains := hshielded.retains hmid
    refine ⟨hretains, fun hpart => ?_⟩
    rw [← hkey] at hretains ⊢
    rcases Attached.handle_repeats hretains hpart y.now with hfault | hanswer
    · exact .inl hfault
    · exact .inr (Attached.answer_repeats hanswer.symm)
  · cases hany : mid.any (Happening.ends x.fragment.key ⟨x.now.ns + 5 * lag.ns⟩) with
    | true => exact List.any_eq_true.mp hany
    | false =>
      rw [List.any_eq_false] at hany
      have hretains := hshielded.retains fun m hm => Bool.eq_false_iff.mpr (hany m hm)
      obtain ⟨bundle', hbundle⟩ := Option.ne_none_iff_exists'.mp hagain
      rw [← hkey] at hretains
      exact absurd hretains ((Attached.handle_delivers hbundle).1 _)

/-- a bundle with one data fragment, part of another bundle, and a header for the first bundle that
declares more fragments than it has -/
def insisting : Session Script :=
  opened 7 "scripted" {} 1 .start
    (Script.lone (Fragment.wires .plain
      [.header 9 1 1 0, ⟨9, 1, 1, 2, 0, some [104, 105]⟩, .header 9 2 1 0, .header 9 1 5 0]))

/-- the fragment that is handled, the bundle that is delivered and the calls that are made -/
def brief : Happening Script → Option (Fragment × Option Bytes × List ChannelCall)
  | .handled x => some (x.fragment, x.delivery, x.calls)
  | .received _ => none

theorem of_brief {ms : List (Happening Script)} {f : Fragment} {bundle : Option Bytes}
    {calls : List ChannelCall} {rest : List (Option (Fragment × Option Bytes × List ChannelCall))}
    (h : ms.map brief = some (f, bundle, calls) :: rest) :
    ∃ x ms', ms = .handled x :: ms' ∧ x.fragment = f ∧ x.delivery = bundle ∧ x.calls = calls ∧
      ms'.map brief = rest := by
  obtain ⟨m, ms', rfl, hm, hrest⟩ := List.map_eq_cons_iff.mp h
  cases m with
  | received now => cases hm
  | handled x =>
    cases hm
    exact ⟨x, ms', rfl, rfl, rfl, rfl, hrest⟩

/-- what the peer insists on is answered by the ack, not by a nak -/
theorem no_redelivery_insisting : ∃ w x z y later b,
    insisting.happenings [.act .receive .start] =
      [.handled w] ++ .handled x :: ([.handled z] ++ .handled y :: later) ∧
      x.delivery = some [104, 105] ∧ y.fragment = .header 9 1 5 0 ∧ y.result = .ok () b ∧
      Attached.Repeats ⟨9, 1⟩ y.before b := by
  have hbrief : (insisting.happenings [.act .receive .start]).map brief =
      [some (.header 9 1 1 0, none, []),
        some (⟨9, 1, 1, 2, 0, some [104, 105]⟩, some [104, 105],
          [.write ((Fragment.ack ⟨9, 1⟩).wire .plain) none, .flush none]),
        some (.header 9 2 1 0, none, []),
        some (.header 9 1 5 0, none,
          [.write ((Fragment.ack ⟨9, 1⟩).wire .plain) none, .flush none]), none] := by
    decide +kernel
  obtain ⟨w, ms, hw, -, -, -, hbrief⟩ := of_brief hbrief
  obtain ⟨x, ms, rfl, hx, hdelivered, -, hbrief⟩ := of_brief hbrief
  obtain ⟨z, ms, rfl, hz, -, -, hbrief⟩ := of_brief hbrief
  obtain ⟨y, later, rfl, hy, -, hcalls, -⟩ := of_brief hbrief
  have hkey : x.fragment.key = ⟨9, 1⟩ := by rw [hx]; rfl
  obtain ⟨lag, due, -, -, hkept, -⟩ := no_redelivery insisting _ [.handled w] [.handled z] later x y
    [104, 105] hw hdelivered (by rw [hx, hy]; rfl)
  obtain ⟨-, hrepeats⟩ := hkept fun m hm => by
    rw [List.mem_singleton.mp hm, Happening.ends, hz]
    rfl
  rw [hkey] at hrepeats
  rcases hrepeats (by rw [hy]; rfl) with ⟨e, -, hfault⟩ | hrepeats
  · rw [Handling.calls, hfault, Outcome.after, List.drop_length] at hcalls
    cases hcalls
  · obtain ⟨b, hb, hrepeated⟩ := hrepeats (by rw [hcalls]; decide)
    exact ⟨w, x, z, y, later, b, hw, hdelivered, hy, hb, hrepeated⟩

end Session

end BundleLink
