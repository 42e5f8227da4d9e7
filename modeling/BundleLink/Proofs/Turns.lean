import BundleLink.Link.Write
import BundleLink.Proofs.Receiving

/-!
# What any fragment does, on any channel

Nothing is known about the fragment, nor about the channel, which may fail whenever it is called.
Still a fragment concerns one inbound bundle only, that of its own key, and there are five ways in
which it can do so.

* `Attached.Counted`        something was written or flushed, and only the counts noticed it;
* `Assembly.insert_added`, `Assembly.insert_duplicate`  what inserting a fragment tells about slots;
* `Attached.Turn`           the five ways, `Attached.Turned` the rest of the link;
* `Attached.Change`, `Attached.Changed`  the same with all that a new entry says;
* `Attached.handle_changes`, `Attached.handle_turns`  each fragment takes one of them, or ends the
  link;
* `Attached.writeBundle_issued`  a write concerns no inbound bundle at all.
-/

namespace BundleLink

/-- a header or a data fragment, which belongs to a bundle -/
def Fragment.isPart (f : Fragment) : Bool := !(f.number == 0 && decide (f.length ≤ 0))

/-- the slot that the fragment goes to -/
def Fragment.slot (f : Fragment) : Nat := f.number.toInt.toNat

namespace Assembly

variable {a b : Assembly} {f : Fragment} {i : Nat}

/-! ## inserting any fragment -/

theorem place_cases (a : Assembly) (i : Nat) (f : Fragment) :
    (∃ b, place a i f = (.added, b) ∧ a.at? i = none ∧
        (∀ j, b.at? j = if j = i then some f else a.at? j) ∧ b.complete = a.complete) ∨
      (∃ g, place a i f = (.duplicate, a) ∧ a.at? i = some g) := by
  cases hat : a.at? i with
  | none =>
    obtain ⟨b, hplace, hslot, -, -, -, hcomplete⟩ := place_free (f := f) hat
    exact .inl ⟨b, hplace, rfl, hslot, hcomplete⟩
  | some g => exact .inr ⟨g, place_taken hat, rfl⟩

/-- a fragment that is not refused is placed, after the count of a header was noted -/
theorem insert_cases (a : Assembly) (f : Fragment) :
    (∃ why, a.insert f = (.invalid why, a)) ∨
      ∃ declared, a.insert f = place { a with declared := declared } f.slot f := by
  rw [insert]
  split
  · exact .inl ⟨_, rfl⟩
  · split
    · rename_i hzero
      have hslot : f.slot = 0 := by
        rw [Fragment.slot, hzero]
        rfl
      rw [insertHeader, hslot]
      split
      · exact .inl ⟨_, rfl⟩
      · generalize Width.payloadLength f.length = count
        dsimp only
        split
        · exact .inl ⟨_, rfl⟩
        · split
          · split
            · exact .inl ⟨_, rfl⟩
            · exact .inr ⟨a.declared, rfl⟩
          · exact .inr ⟨_, rfl⟩
    · rw [insertData]
      generalize a.declared.getD Fragment.maxCount = limit
      split
      · exact .inl ⟨_, rfl⟩
      · exact .inr ⟨a.declared, rfl⟩

theorem insert_added (h : a.insert f = (.added, b)) :
    a.at? f.slot = none ∧ (∀ j, b.at? j = if j = f.slot then some f else a.at? j) ∧
      b.complete = a.complete := by
  rcases insert_cases a f with ⟨why, heq⟩ | ⟨declared, heq⟩
  · rw [heq] at h
    cases h
  · rw [heq] at h
    rcases place_cases { a with declared := declared } f.slot f with
      ⟨c, hplace, hfree, hslot, hcomplete⟩ | ⟨g, hplace, -⟩
    · rw [hplace] at h
      cases h
      exact ⟨hfree, hslot, hcomplete⟩
    · rw [hplace] at h
      cases h

theorem insert_duplicate (h : a.insert f = (.duplicate, b)) :
    (∃ g, a.at? f.slot = some g) ∧ (∀ j, b.at? j = a.at? j) ∧ b.complete = a.complete ∧
      b.lastArrival = a.lastArrival := by
  rcases insert_cases a f with ⟨why, heq⟩ | ⟨declared, heq⟩
  · rw [heq] at h
    cases h
  · rw [heq] at h
    rcases place_cases { a with declared := declared } f.slot f with
      ⟨c, hplace, -⟩ | ⟨g, hplace, htaken⟩
    · rw [hplace] at h
      cases h
    · rw [hplace] at h
      cases h
      exact ⟨⟨g, htaken⟩, fun _ => rfl, rfl, rfl⟩

@[simp] theorem at?_empty (now deadline : Moment) (i : Nat) : (empty now deadline).at? i = none :=
  rfl

theorem fragments_touch (a : Assembly) (now deadline : Moment) :
    ({ a with lastArrival := now, deadline := deadline } : Assembly).fragments = a.fragments := rfl

/-- in a new assembly all slots are free -/
theorem insert_empty_ne_duplicate (now deadline : Moment) :
    (empty now deadline).insert f ≠ (.duplicate, b) := by
  intro h
  obtain ⟨⟨g, hg⟩, -⟩ := insert_duplicate h
  cases hg

end Assembly

/-- the failure of a channel call, or a fault -/
def Failure.Breaks : Failure LinkError → Prop
  | .fault _ => True
  | .error e => ∃ io, e = .io io

theorem Failure.Breaks.ends {e : Failure LinkError} (h : e.Breaks) : e.Ends := by
  cases e with
  | fault _ => trivial
  | error e =>
    obtain ⟨io, rfl⟩ := h
    rfl

namespace Attached

variable {σ : Type} {a b c : Attached σ} {f : Fragment} {now : Moment}

/-! ## writing on any channel -/

/-- From `a` to `b` nothing changed about the link but its counts. -/
def Counted (a b : Attached σ) : Prop :=
  ∃ traffic, b.link = { a.link with traffic := traffic }

theorem Counted.refl (a : Attached σ) : Counted a a := ⟨a.link.traffic, rfl⟩

theorem Counted.trans (h : Counted a b) (h' : Counted b c) : Counted a c := by
  obtain ⟨traffic, hb⟩ := h
  obtain ⟨traffic', hc⟩ := h'
  exact ⟨traffic', by rw [hc, hb]⟩

theorem Counted.core (h : Counted a b) : b.link.core = a.link.core := by
  obtain ⟨traffic, hb⟩ := h
  rw [hb]
  rfl

theorem Counted.ready (h : Counted a b) : b.link.ready = a.link.ready := by
  obtain ⟨traffic, hb⟩ := h
  rw [hb]

theorem Counted.inbound (h : Counted a b) : b.link.inbound = a.link.inbound := by
  obtain ⟨traffic, hb⟩ := h
  rw [hb]

section
variable [Channel σ]

theorem transmit_counted (f : Fragment) (a : Attached σ) :
    (transmit f a).Meets (fun _ b => Counted a b) fun e b => Counted a b ∧ e.Breaks := by
  rw [transmit]
  dsimp only
  split
  · exact ⟨.refl a, _, rfl⟩
  · exact ⟨_, rfl⟩

theorem flush_counted (a : Attached σ) :
    (flush a).Meets (fun _ b => Counted a b) fun e b => Counted a b ∧ e.Breaks := by
  rw [flush]
  split
  · exact ⟨.refl a, _, rfl⟩
  · exact .refl a

theorem answer_counted (f : Fragment) (a : Attached σ) :
    (answer f a).Meets (fun _ b => Counted a b) fun e b => Counted a b ∧ e.Breaks := by
  have hsent := transmit_counted f a
  rw [answer]
  generalize transmit f a = r at hsent
  cases r with
  | ok _ b =>
    exact (flush_counted b).imp (fun _ _ h => hsent.trans h)
      fun _ _ h => ⟨hsent.trans h.1, h.2⟩
  | error e b => exact hsent

theorem transmitAll_counted (fs : List Fragment) (a : Attached σ) :
    (transmitAll fs a).Meets (fun _ b => Counted a b) fun e b => Counted a b ∧ e.Breaks := by
  induction fs generalizing a with
  | nil => exact .refl a
  | cons f fs ih =>
    have hone := transmit_counted f a
    rw [transmitAll]
    generalize transmit f a = r at hone
    cases r with
    | ok _ b =>
      exact (ih b).imp (fun _ _ h => Counted.trans hone h)
        fun _ _ h => ⟨Counted.trans hone h.1, h.2⟩
    | error e b => exact hone

end

/-! ## the ways that a fragment can take -/

/-- the assembly that a part of a bundle comes to, given what the table says of its key -/
inductive Begins (now : Moment) : Option Assembly → Assembly → Prop
  | underway (asm : Assembly) (unfinished : asm.complete = false) : Begins now (some asm) asm
  | new (deadline : Moment) : Begins now none (.empty now deadline)

/-- What the fragment makes of what the table says of its key, and the bundle that is ready then. -/
inductive Turn (layout : Layout) (f : Fragment) (now : Moment) :
    Option Assembly → Option Assembly → Option Bytes → Prop
  /-- it belongs to no bundle, or to one that is finished -/
  | passed (o : Option Assembly)
      (idle : f.isPart = false ∨ ∃ asm, o = some asm ∧ asm.complete = true) :
      Turn layout f now o o none
  /-- the bundle is given up, or is not kept any longer -/
  | dropped (o : Option Assembly) : Turn layout f now o none none
  /-- it was there before -/
  | doubled (asm b : Assembly) (unfinished : asm.complete = false)
      (inserted : asm.insert f = (.duplicate, b)) : Turn layout f now (some asm) (some b) none
  /-- it is added, and more fragments are to come -/
  | added {o : Option Assembly} {asm grown : Assembly} (deadline : Moment)
      (begins : Begins now o asm) (part : f.isPart = true)
      (inserted : asm.insert f = (.added, grown)) :
      Turn layout f now o (some { grown with lastArrival := now, deadline := deadline }) none
  /-- it is added, and all fragments are there -/
  | finished {o : Option Assembly} {asm grown : Assembly} (kept : Assembly) (bundle : Bytes)
      (begins : Begins now o asm) (part : f.isPart = true)
      (inserted : asm.insert f = (.added, grown)) (collected : grown.isCollected = true)
      (joined : Bundle.join layout grown.fragments = .ok bundle) (complete : kept.complete = true) :
      Turn layout f now o (some kept) (some bundle)

/-- From `a` to `b` the fragment took its turn, starting from `o` in the table. -/
structure Turned (f : Fragment) (now : Moment) (o : Option Assembly) (bundle : Option Bytes)
    (a b : Attached σ) : Prop where
  core : b.link.core = a.link.core
  ready : b.link.ready = a.link.ready ++ bundle.toList
  others : ∀ j, j ≠ f.key → b.link.inbound.get? j = a.link.inbound.get? j
  turn : Turn a.link.layout f now o (b.link.inbound.get? f.key) bundle

/-- a failure of the channel, or a fault, that made nothing ready -/
structure Broken (e : Failure LinkError) (a b : Attached σ) : Prop where
  core : b.link.core = a.link.core
  ready : b.link.ready = a.link.ready
  breaks : e.Breaks

/-- The fragment takes its turn, or the link ends. -/
def Turns (f : Fragment) (now : Moment) (o : Option Assembly) (a : Attached σ)
    (r : Outcome σ Unit) : Prop :=
  r.Meets (fun _ b => ∃ bundle, Turned f now o bundle a b) fun e b => Broken e a b

/-- The same in all detail: why an entry goes, and what exactly a new one says, given the link that
the fragment came to. -/
inductive Change (l : Link) (f : Fragment) (now : Moment) :
    Option Assembly → Option Assembly → Option Bytes → Prop
  /-- it belongs to no bundle, or to one that is finished -/
  | passed (o : Option Assembly)
      (idle : f.isPart = false ∨ ∃ asm, o = some asm ∧ asm.complete = true) :
      Change l f now o o none
  /-- it is an ack, but nothing outbound has its key -/
  | released (o : Option Assembly) (control : f.isControl = true)
      (ack : f.length = Fragment.ackLength) (unknown : l.outbound.get? f.key = none) :
      Change l f now o none none
  /-- it does not fit, or the fragments that it completes do not -/
  | rejected (o : Option Assembly) (unfinished : ∀ asm, o = some asm → asm.complete = false) :
      Change l f now o none none
  /-- it was there before -/
  | doubled (asm b : Assembly) (unfinished : asm.complete = false)
      (inserted : asm.insert f = (.duplicate, b)) : Change l f now (some asm) (some b) none
  /-- it is added, and more fragments are to come -/
  | added {o : Option Assembly} {asm grown : Assembly} (deadline : Moment)
      (begins : Begins now o asm) (part : f.isPart = true)
      (inserted : asm.insert f = (.added, grown))
      (due : l.deadline now (grown.missing.getD 0) = .ok deadline)
      (missing : grown.isCollected = false) :
      Change l f now o (some { grown with lastArrival := now, deadline := deadline }) none
  /-- it is added, and all fragments are there -/
  | finished {o : Option Assembly} {asm grown : Assembly} (deadline : Moment) (bundle : Bytes)
      (begins : Begins now o asm) (part : f.isPart = true)
      (inserted : asm.insert f = (.added, grown))
      (due : l.deadline now (grown.missing.getD 0) = .ok deadline)
      (collected : grown.isCollected = true)
      (joined : Bundle.join l.layout grown.fragments = .ok bundle) :
      Change l f now o
        (some
          { grown with
            lastArrival := now, deadline := deadline, slots := #[], present := 0, complete := true
            acked := true })
        (some bundle)

/-- From `a` to `b` the fragment made this change, starting from `o` in the table. -/
structure Changed (l : Link) (f : Fragment) (now : Moment) (o : Option Assembly)
    (bundle : Option Bytes) (a b : Attached σ) : Prop where
  core : b.link.core = a.link.core
  ready : b.link.ready = a.link.ready ++ bundle.toList
  others : ∀ j, j ≠ f.key → b.link.inbound.get? j = a.link.inbound.get? j
  change : Change l f now o (b.link.inbound.get? f.key) bundle

/-- The fragment makes its change, or the link ends. -/
def Changes (l : Link) (f : Fragment) (now : Moment) (o : Option Assembly) (a : Attached σ)
    (r : Outcome σ Unit) : Prop :=
  r.Meets (fun _ b => ∃ bundle, Changed l f now o bundle a b) fun e b => Broken e a b

theorem Change.turn {l : Link} {o o' : Option Assembly} {bundle : Option Bytes}
    (h : Change l f now o o' bundle) : Turn l.layout f now o o' bundle := by
  cases h with
  | passed _ idle => exact .passed o idle
  | released => exact .dropped o
  | rejected => exact .dropped o
  | doubled asm b unfinished inserted => exact .doubled asm b unfinished inserted
  | added deadline begins part inserted => exact .added deadline begins part inserted
  | finished deadline bundle begins part inserted due collected joined =>
    exact .finished _ bundle begins part inserted collected joined rfl

theorem deadline_of_core {l l' : Link} (h : l'.core = l.core) (now : Moment) (n : Nat) :
    l'.deadline now n = l.deadline now n := by
  have hdeadline := congrArg (fun l : Link => l.deadline now n) h
  exact hdeadline

/-- a deadline is at least five lags away -/
theorem exists_lag {l : Link} {now deadline : Moment} {count : Nat}
    (h : l.deadline now count = .ok deadline) :
    ∃ lag, l.lag = .ok lag ∧
      deadline = ⟨now.ns + lag.ns * max count Link.leastRemaining⟩ := by
  rw [Link.deadline] at h
  cases hlag : l.lag with
  | error f =>
    rw [hlag] at h
    cases h
  | ok lag =>
    rw [hlag] at h
    replace h : (lag.times (max count Link.leastRemaining) >>= fun wait => now.add wait) =
      .ok deadline := h
    refine ⟨lag, rfl, ?_⟩
    rw [Span.times] at h
    split at h
    · replace h : now.add ⟨lag.ns * max count Link.leastRemaining⟩ = .ok deadline := h
      rw [Moment.add] at h
      split at h
      · exact (Except.ok.inj h).symm
      · cases h
    · cases h

theorem layout_of_core {l l' : Link} (h : l'.core = l.core) : l'.layout = l.layout := by
  have hlayout := congrArg Link.layout h
  exact hlayout

theorem connected_of_core {l l' : Link} (h : l'.core = l.core) : l'.connected = l.connected := by
  have hconnected := congrArg Link.connected h
  exact hconnected

variable {l : Link} {o : Option Assembly}

/-- where it starts, only the other entries matter -/
theorem Changes.of_frame {r : Outcome σ Unit} (h : Changes l f now o b r)
    (hcore : b.link.core = a.link.core) (hready : b.link.ready = a.link.ready)
    (hothers : ∀ j, j ≠ f.key → b.link.inbound.get? j = a.link.inbound.get? j) :
    Changes l f now o a r := by
  refine Outcome.Meets.imp h ?_ ?_
  · rintro _ c ⟨bundle, hc⟩
    exact ⟨bundle, hc.core.trans hcore, hready ▸ hc.ready,
      fun j hj => (hc.others j hj).trans (hothers j hj), hc.change⟩
  · intro e c hc
    exact ⟨hc.core.trans hcore, hc.ready.trans hready, hc.breaks⟩

/-- nothing is written -/
theorem quiet_changes (hcore : b.link.core = a.link.core) (hready : b.link.ready = a.link.ready)
    (hothers : ∀ j, j ≠ f.key → b.link.inbound.get? j = a.link.inbound.get? j)
    (hchange : Change l f now o (b.link.inbound.get? f.key) none) :
    Changes l f now o a (.ok () b) :=
  ⟨none, hcore, hready.trans (List.append_nil _).symm, hothers, hchange⟩

theorem get?_eraseInbound_self (k : Key) (a : Attached σ) :
    (a.eraseInbound k).link.inbound.get? k = none := by
  show (a.link.inbound.erase k).get? k = none
  rw [Table.get?_erase, if_pos rfl]

theorem get?_eraseInbound_ne {j k : Key} (h : j ≠ k) (a : Attached σ) :
    (a.eraseInbound k).link.inbound.get? j = a.link.inbound.get? j := by
  show (a.link.inbound.erase k).get? j = _
  rw [Table.get?_erase, if_neg h]

theorem get?_putInbound_self (k : Key) (asm : Assembly) (a : Attached σ) :
    (a.putInbound k asm).link.inbound.get? k = some asm := by
  show (a.link.inbound.put k asm).get? k = _
  rw [Table.get?_put, if_pos rfl]

theorem get?_putInbound_ne {j k : Key} (h : j ≠ k) (asm : Assembly) (a : Attached σ) :
    (a.putInbound k asm).link.inbound.get? j = a.link.inbound.get? j := by
  show (a.link.inbound.put k asm).get? j = _
  rw [Table.get?_put, if_neg h]

variable [Channel σ]

/-- an answer changes nothing about the tables -/
theorem answer_changes (g : Fragment) (a : Attached σ)
    (hchange : Change l f now o (a.link.inbound.get? f.key) none) :
    Changes l f now o a (answer g a) := by
  refine (answer_counted g a).imp ?_ ?_
  · intro _ b hb
    refine ⟨none, hb.core, ?_, fun j _ => by rw [hb.inbound], ?_⟩
    · rw [hb.ready]
      exact (List.append_nil _).symm
    · rw [hb.inbound]
      exact hchange
  · intro e b hb
    exact ⟨hb.1.core, hb.1.ready, hb.2⟩

theorem reject_changes (hunfinished : ∀ asm, o = some asm → asm.complete = false)
    (why : Rejection) (a : Attached σ) : Changes l f now o a (reject f.key why a) := by
  rw [reject]
  have hgone := get?_eraseInbound_self f.key (a.warn (.rejected f.key why))
  have hothers (j : Key) (hj : j ≠ f.key) :
      ((a.warn (.rejected f.key why)).eraseInbound f.key).link.inbound.get? j =
        a.link.inbound.get? j := get?_eraseInbound_ne hj _
  split
  · refine (answer_changes (.nak f.key) _ ?_).of_frame (a := a) rfl rfl hothers
    rw [hgone]
    exact .rejected o hunfinished
  · refine quiet_changes rfl rfl hothers ?_
    rw [hgone]
    exact .rejected o hunfinished

theorem Begins.unfinished {asm : Assembly} (h : Begins now o asm) (asm' : Assembly)
    (ho : o = some asm') : asm'.complete = false := by
  cases h with
  | underway asm hopen => exact Option.some.inj ho ▸ hopen
  | new => cases ho

theorem finish_changes {asm grown : Assembly} {deadline : Moment} (hbegins : Begins now o asm)
    (hpart : f.isPart = true) (hinserted : asm.insert f = (.added, grown))
    (hdue : l.deadline now (grown.missing.getD 0) = .ok deadline)
    (hcollected : grown.isCollected = true) {a : Attached σ} (hcore : a.link.core = l.core) :
    Changes l f now o a
      (finish f.key { grown with lastArrival := now, deadline := deadline } a) := by
  rw [finish, Assembly.release]
  dsimp only
  rw [grown.fragments_touch now deadline]
  cases hjoin : Bundle.join a.link.layout grown.fragments with
  | error e =>
    cases e with
    | fault e => exact ⟨rfl, rfl, trivial⟩
    | error e => exact reject_changes hbegins.unfinished _ a
  | ok bundle =>
    rw [layout_of_core hcore] at hjoin
    dsimp only
    generalize hput : a.putInbound f.key _ = c
    have hsame : c.link.core = a.link.core := by rw [← hput]; rfl
    have hready : c.link.ready = a.link.ready := by rw [← hput]; rfl
    have hothers (j : Key) (hj : j ≠ f.key) :
        c.link.inbound.get? j = a.link.inbound.get? j := by
      rw [← hput]
      exact get?_putInbound_ne hj _ a
    have hanswered := answer_counted (.ack f.key) c
    generalize answer (.ack f.key) c = r at hanswered
    cases r with
    | error e b =>
      obtain ⟨hb, hends⟩ := hanswered
      exact ⟨hb.core.trans hsame, hb.ready.trans hready, hends⟩
    | ok _ b =>
      have hb : Counted c b := hanswered
      refine ⟨some bundle, hb.core.trans hsame, ?_, fun j hj => ?_, ?_⟩
      · show b.link.ready ++ [bundle] = _
        rw [hb.ready, hready]
        rfl
      · refine (get?_putInbound_ne hj _ b).trans ?_
        rw [hb.inbound]
        exact hothers j hj
      · show Change l f now o ((b.putInbound f.key _).link.inbound.get? f.key) _
        rw [get?_putInbound_self]
        exact .finished deadline bundle hbegins hpart hinserted hdue hcollected hjoin

theorem assemble_changes {asm : Assembly} (hbegins : Begins now o asm) (hpart : f.isPart = true)
    {a : Attached σ} (hcore : a.link.core = l.core) :
    Changes l f now o a (assemble f.key f now asm a) := by
  rw [assemble]
  split
  · rename_i b hinserted
    refine quiet_changes rfl rfl (fun j hj => get?_putInbound_ne hj b a) ?_
    rw [get?_putInbound_self]
    cases hbegins with
    | underway _ hopen => exact .doubled asm b hopen hinserted
    | new deadline => exact absurd hinserted (Assembly.insert_empty_ne_duplicate now deadline)
  · exact reject_changes hbegins.unfinished _ a
  · rename_i grown hinserted
    rw [deadline_of_core hcore]
    split
    · exact ⟨rfl, rfl, trivial⟩
    · rename_i deadline hdue
      dsimp only
      split
      · rename_i hcollected
        exact finish_changes hbegins hpart hinserted hdue hcollected hcore
      · rename_i hmissing
        refine quiet_changes rfl rfl (fun j hj => get?_putInbound_ne hj _ a) ?_
        rw [get?_putInbound_self]
        exact .added deadline hbegins hpart hinserted hdue (Bool.eq_false_iff.mpr hmissing)

/-- no header has the length of a control fragment -/
theorem isPart_of_control (h : f.isControl = true) : f.isPart = false := by
  rw [Fragment.isControl, Bool.and_eq_true, Bool.and_eq_true] at h
  have hlength : decide (f.length ≤ 0) = true := h.2
  rw [Fragment.isPart, h.1.1, hlength]
  rfl

theorem handleControl_changes (hcontrol : f.isControl = true) (a : Attached σ) :
    Changes a.link f now (a.link.inbound.get? f.key) a (handleControl f a) := by
  have hpassed : Change a.link f now (a.link.inbound.get? f.key)
      (a.link.inbound.get? f.key) none := .passed _ (.inl (isPart_of_control hcontrol))
  rw [handleControl]
  dsimp only
  split
  · exact quiet_changes rfl rfl (fun _ _ => rfl) hpassed
  · rename_i hlength
    split
    · generalize hc : ({ a with link := { a.link with outbound := a.link.outbound.erase f.key } } :
        Attached σ) = c
      have hcore : c.link.core = a.link.core := by rw [← hc]; rfl
      have hready : c.link.ready = a.link.ready := by rw [← hc]
      have hinbound : c.link.inbound = a.link.inbound := by rw [← hc]
      rw [← hinbound] at hpassed ⊢
      exact (answer_changes (.ack f.key) c hpassed).of_frame hcore hready
        fun j _ => by rw [hinbound]
    · rename_i hunknown
      have hack : f.length = Fragment.ackLength := by
        rw [Fragment.isControl, Bool.and_eq_true, decide_eq_true_eq] at hcontrol
        exact Int16.le_antisymm hcontrol.2 (Int16.not_lt.mp hlength)
      refine quiet_changes rfl rfl (fun j hj => get?_eraseInbound_ne hj a) ?_
      show Change _ f now _ ((a.eraseInbound f.key).link.inbound.get? f.key) none
      rw [get?_eraseInbound_self]
      exact .released _ hcontrol hack hunknown

theorem handleBundle_changes (f : Fragment) (now : Moment) (a : Attached σ) :
    Changes a.link f now (a.link.inbound.get? f.key) a (handleBundle f now a) := by
  rw [handleBundle]
  split
  · rename_i hstray
    refine quiet_changes rfl rfl (fun _ _ => rfl) (.passed _ (.inl ?_))
    rw [Fragment.isPart, hstray.1, decide_eq_true hstray.2]
    rfl
  · rename_i hpart
    have hpart : f.isPart = true := by
      rw [Fragment.isPart, Bool.not_eq_true', Bool.and_eq_false_imp]
      intro hzero
      exact decide_eq_false fun hlength => hpart ⟨by simpa using hzero, hlength⟩
    split
    · exact ⟨rfl, rfl, trivial⟩
    · cases hget : a.link.inbound.get? f.key with
      | some asm =>
        dsimp only
        cases hcomplete : asm.complete with
        | true =>
          rw [if_pos rfl]
          have hpassed : Change a.link f now (some asm) (a.link.inbound.get? f.key) none := by
            rw [hget]
            exact .passed _ (.inr ⟨asm, rfl, hcomplete⟩)
          split
          · exact answer_changes (.ack f.key) a hpassed
          · exact quiet_changes rfl rfl (fun _ _ => rfl) hpassed
        | false =>
          rw [if_neg Bool.false_ne_true]
          have hassembled : Changes a.link f now (some asm) (a.eraseInbound f.key)
              (assemble f.key f now asm (a.eraseInbound f.key)) :=
            assemble_changes (.underway asm hcomplete) hpart rfl
          exact hassembled.of_frame rfl rfl fun j hj => get?_eraseInbound_ne hj a
      | none =>
        dsimp only
        split
        · exact ⟨rfl, rfl, trivial⟩
        · exact assemble_changes (.new _) hpart rfl

/-- Each fragment makes its change, or the link ends. -/
theorem handle_changes (f : Fragment) (now : Moment) (a : Attached σ) :
    Changes a.link f now (a.link.inbound.get? f.key) a (handle f now a) := by
  rw [handle]
  split
  · rename_i hcontrol
    exact handleControl_changes hcontrol a
  · exact handleBundle_changes f now a

/-- Each fragment takes its turn, or the link ends. -/
theorem handle_turns (f : Fragment) (now : Moment) (a : Attached σ) :
    Turns f now (a.link.inbound.get? f.key) a (handle f now a) := by
  refine (handle_changes f now a).imp ?_ fun _ _ hb => hb
  rintro _ b ⟨bundle, hb⟩
  exact ⟨bundle, hb.core, hb.ready, hb.others, hb.change.turn⟩

/-! ## writes -/

/-- From `a` to `b` a bundle may have been sent: no inbound bundle and no byte received changed. -/
def Issued (a b : Attached σ) : Prop :=
  ∃ traffic next outbound progress, b.link =
    { a.link with
      traffic := traffic, nextMessage := next, outbound := outbound, lastProgress := progress }

omit [Channel σ] in
theorem Issued.connected (h : Issued a b) : b.link.connected = a.link.connected := by
  obtain ⟨traffic, next, outbound, progress, hb⟩ := h
  rw [hb]

omit [Channel σ] in
theorem Issued.ready (h : Issued a b) : b.link.ready = a.link.ready := by
  obtain ⟨traffic, next, outbound, progress, hb⟩ := h
  rw [hb]

theorem writeBundle_issued (buffer : Bytes) (flushNow : Bool) (now : Moment) (a : Attached σ) :
    (writeBundle buffer flushNow now a).Meets
      (fun _ b => Issued a b ∧ b.link.outbound.isEmpty = false ∧ b.link.lastProgress =
        if a.link.outbound.isEmpty then now else a.link.lastProgress)
      fun e b => Issued a b ∧ (e.Breaks ∨ b = a) := by
  have hsame : Issued a a := ⟨_, _, _, _, rfl⟩
  rw [writeBundle]
  dsimp only
  split
  · exact ⟨hsame, .inr rfl⟩
  · rename_i parts hsplit
    split
    · exact ⟨hsame, .inr rfl⟩
    · generalize hnext : ({ a with link := { a.link with nextMessage := a.link.nextMessage + 1 } } :
        Attached σ) = b
      have hsent := transmitAll_counted parts b
      generalize transmitAll parts b = r at hsent
      cases r with
      | error e c =>
        obtain ⟨⟨traffic, hc⟩, hends⟩ := hsent
        rw [← hnext] at hc
        exact ⟨⟨_, _, _, _, hc⟩, .inl hends⟩
      | ok _ c =>
        obtain ⟨traffic, hc⟩ := hsent
        rw [← hnext] at hc
        dsimp only
        generalize hsent : recordSent _ parts now c = d
        have hrecorded : Issued a d ∧ d.link.outbound.isEmpty = false ∧ d.link.lastProgress =
            if a.link.outbound.isEmpty then now else a.link.lastProgress := by
          rw [← hsent, recordSent, hc]
          exact ⟨⟨_, _, _, _, rfl⟩, rfl, rfl⟩
        obtain ⟨⟨traffic', next, outbound, progress, hd⟩, hoccupied, hprogress⟩ := hrecorded
        split
        · refine (flush_counted d).imp ?_ ?_
          · rintro _ x ⟨traffic'', hx⟩
            rw [hx]
            exact ⟨⟨_, _, _, _, by rw [hx, hd]⟩, hoccupied, hprogress⟩
          · rintro e x ⟨⟨traffic'', hx⟩, hends⟩
            exact ⟨⟨_, _, _, _, by rw [hx, hd]⟩, .inl hends⟩
        · exact ⟨⟨_, _, _, _, hd⟩, hoccupied, hprogress⟩

end Attached

end BundleLink
