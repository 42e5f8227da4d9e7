import BundleLink.Proofs.Handling
import BundleLink.Proofs.Reassembly.Basic
import BundleLink.Proofs.Reassembly.Still

/-!
# Collecting the fragments of a mixture

A link that handles the fragments of a mixture while time stands still knows of each bundle which of
its fragments were seen, and has delivered and answered what should have become of them.

* `Stored`             what the table of inbound bundles holds;
* `Stored.update`      one more fragment, which only changes the entry of its bundle;
* `Attached.Collected` the state between two fragments;
* `Collected.handle`   one fragment of the mixture never fails.
-/

namespace BundleLink

/-- an assembly that no look at the clock drops before time moves on -/
def Assembly.Kept (now : Moment) (asm : Assembly) : Prop :=
  (asm.complete = false → asm.lastArrival = now) ∧ (asm.complete = true → now.ns < asm.deadline.ns)

theorem Assembly.Kept.isOverdue_eq {now : Moment} {asm : Assembly} (h : asm.Kept now)
    (settings : Settings) : Attached.isOverdue settings now asm = false := by
  obtain ⟨hpartly, hwhole⟩ := h
  rw [Attached.isOverdue]
  cases hcomplete : asm.complete with
  | true =>
    rw [if_pos rfl]
    have hlt := hwhole hcomplete
    exact decide_eq_false (by omega)
  | false =>
    rw [if_neg Bool.false_ne_true, hpartly hcomplete, Moment.since_self]
    exact decide_eq_false (Nat.not_lt_zero _)

variable {layout : Layout} {family : Family layout} {now : Moment} {m : Parcel} {f : Fragment}
  {seen : List Fragment} {inbound inbound' : Table Key Assembly}

/-- What the table holds of a family of bundles, of whose fragments `seen` were handled. -/
structure Stored (family : Family layout) (now : Moment) (seen : List Fragment)
    (inbound : Table Key Assembly) : Prop where
  whole : ∀ m ∈ family.parcels, m.whole seen = true →
    ∃ asm, inbound.get? m.key = some asm ∧ asm.complete = true ∧ asm.acked = true
  partly : ∀ m ∈ family.parcels, m.whole seen = false →
    Attached.Partial m.parts seen (inbound.get? m.key)
  kept : ∀ k asm, inbound.get? k = some asm → asm.Kept now

theorem Stored.empty (family : Family layout) (now : Moment) : Stored family now [] .empty := by
  refine ⟨?_, fun _ _ _ _ _ => List.not_mem_nil, fun _ _ hk => nomatch hk⟩
  intro m hm hwhole
  rw [(family.parts hm).not_whole] at hwhole
  cases hwhole

/-- one more fragment: only the entry of its bundle changes -/
theorem Stored.update (h : Stored family now seen inbound) (hm : m ∈ family.parcels)
    (hf : f ∈ m.parts) (hothers : ∀ j, j ≠ m.key → inbound'.get? j = inbound.get? j)
    (hwhole : m.whole (f :: seen) = true →
      ∃ asm, inbound'.get? m.key = some asm ∧ asm.complete = true ∧ asm.acked = true)
    (hpartly : m.whole (f :: seen) = false →
      Attached.Partial m.parts (f :: seen) (inbound'.get? m.key))
    (hkept : ∀ asm, inbound'.get? m.key = some asm → asm.Kept now) :
    Stored family now (f :: seen) inbound' := by
  have howner := family.owner_eq hm hf
  have hkey : f.key = m.key := (family.parts hm).key f hf
  have hcases {m' : Parcel} (hm' : m' ∈ family.parcels) : m' = m ∨
      inbound'.get? m'.key = inbound.get? m'.key ∧ m'.whole (f :: seen) = m'.whole seen ∧
        f ∉ m'.parts := by
    by_cases heq : m' = m
    · exact .inl heq
    · have hne : m'.key ≠ m.key := fun hk => heq (Parcel.eq_of_key family.distinct hm' hm hk)
      refine .inr ⟨hothers _ hne, family.whole_cons hm' ?_, ?_⟩
      · rw [howner]
        exact fun hsome => heq (Option.some.inj hsome).symm
      · intro hf'
        exact hne (((family.parts hm').key f hf').symm.trans hkey)
  refine ⟨?_, ?_, ?_⟩
  · intro m' hm' hw
    rcases hcases hm' with rfl | ⟨hget, hsame, -⟩
    · exact hwhole hw
    · rw [hget]
      exact h.whole m' hm' (hsame.symm.trans hw)
  · intro m' hm' hw
    rcases hcases hm' with rfl | ⟨hget, hsame, hnot⟩
    · exact hpartly hw
    · rw [hget]
      apply (h.partly m' hm' (hsame.symm.trans hw)).congr
      intro g hg
      have hne : g ≠ f := fun hgf => hnot (hgf ▸ hg)
      simp [hne]
  · intro k asm hk
    by_cases hkm : k = m.key
    · subst hkm
      exact hkept asm hk
    · rw [hothers k hkm] at hk
      exact h.kept k asm hk

theorem Stored.purge (h : Stored family now seen inbound) {settings : Settings}
    (hpurged : ∀ k, inbound'.get? k =
      (inbound.get? k).filter fun asm => !Attached.isOverdue settings now asm) :
    Stored family now seen inbound' := by
  have hsame (k : Key) : inbound'.get? k = inbound.get? k := by
    rw [hpurged]
    cases hk : inbound.get? k with
    | none => rfl
    | some asm =>
      rw [Option.filter_some, (h.kept k asm hk).isOverdue_eq, Bool.not_false, if_pos rfl]
  refine ⟨?_, ?_, ?_⟩
  · intro m hm hw
    rw [hsame]
    exact h.whole m hm hw
  · intro m hm hw
    rw [hsame]
    exact h.partly m hm hw
  · intro k asm hk
    rw [hsame] at hk
    exact h.kept k asm hk

namespace Attached

open Link (Still Calm)

variable {σ : Type} [Channel σ] [Medium σ] {start a b : Attached σ} {done : List Fragment}

/-- The link was `start` when it was opened, and has handled the fragments `done` since. -/
structure Collected (family : Family layout) (start : Attached σ) (now : Moment)
    (done : List Fragment) (a : Attached σ) : Prop where
  sameLayout : a.link.layout = layout
  still : Still start.link now done.length a.link
  connected : a.link.connected = true
  isOpen : Medium.isOpen a.channel = true
  stored : Stored family now done.reverse a.link.inbound
  ready : a.link.ready = (family.deliveries [] done).map Parcel.buffer
  outgoing : Medium.outgoing a.channel =
    Medium.outgoing start.channel ++ (family.acks [] done).map (Fragment.wire layout)

/-- only the frame, the table of inbound bundles, the queue and the channel matter -/
theorem Collected.congr (h : Collected family start now done a)
    (hframe : b.link.frame = a.link.frame) (hopen : Medium.isOpen b.channel = true)
    (hstored : Stored family now done.reverse b.link.inbound)
    (hready : b.link.ready = a.link.ready)
    (houtgoing : Medium.outgoing b.channel = Medium.outgoing a.channel) :
    Collected family start now done b := by
  have hlayout := congrArg Link.layout hframe
  have hconnected := congrArg Link.connected hframe
  exact ⟨Eq.trans hlayout h.sameLayout, h.still.congr hframe, Eq.trans hconnected h.connected,
    hopen, hstored, hready.trans h.ready, houtgoing.trans h.outgoing⟩

/-- The link has handled one fragment more, and read nothing meanwhile. -/
structure Handled (family : Family layout) (start : Attached σ) (now : Moment)
    (done : List Fragment) (a b : Attached σ) : Prop extends
    Collected family start now done b where
  raw : b.link.raw = a.link.raw
  incoming : Medium.incoming b.channel = Medium.incoming a.channel

theorem Collected.next (h : Collected family start now done a) {k : Key} {gs : List Fragment}
    (htouched : Touched k gs (a.arrived now) b)
    (hstored : Stored family now (f :: done.reverse) b.link.inbound)
    (hready : b.link.ready =
      a.link.ready ++ (family.completed done.reverse f).map Parcel.buffer)
    (hgs : gs = (family.answered done.reverse f).map fun m => Fragment.ack m.key) :
    Handled family start now (done ++ [f]) a b := by
  have hframe := congrArg Link.frame htouched.core
  have hconnected := congrArg Link.connected htouched.core
  have hraw := congrArg Link.raw htouched.core
  have hsame : (a.arrived now).link.layout = layout := h.sameLayout
  refine ⟨⟨htouched.layout.trans h.sameLayout, ?_, Eq.trans hconnected h.connected,
    htouched.isOpen.trans h.isOpen, ?_, ?_, ?_⟩, hraw, htouched.incoming⟩
  · rw [List.length_append]
    exact (still_arrived h.still).congr hframe
  · rw [List.reverse_append]
    exact hstored
  · rw [hready, h.ready, Family.deliveries_append, List.map_append, List.append_nil,
      Family.deliveries, Family.deliveries, List.append_nil]
  · rw [htouched.outgoing, hsame]
    show Medium.outgoing a.channel ++ _ = _
    rw [h.outgoing, Family.acks_append, List.map_append, List.append_nil, Family.acks,
      Family.acks, List.append_nil, hgs, List.append_assoc]

/-- a fragment after which its bundle is still not complete -/
theorem Collected.unfinished (h : Collected family start now done a) (hm : m ∈ family.parcels)
    (hf : f ∈ m.parts) (hnot : m.whole (f :: done.reverse) = false)
    (htouched : Touched m.key [] (a.arrived now) b) (hready : b.link.ready = a.link.ready)
    (hpartial : Partial m.parts (f :: done.reverse) (b.link.inbound.get? m.key))
    (hkept : ∀ asm, b.link.inbound.get? m.key = some asm → asm.Kept now) :
    Handled family start now (done ++ [f]) a b := by
  have hcompleted := family.completed_eq done.reverse hm hf
  have hanswered := family.answered_eq done.reverse hm hf
  rw [hnot, Bool.and_false, if_neg Bool.false_ne_true] at hcompleted
  rw [hnot, if_neg Bool.false_ne_true] at hanswered
  have hwhole (hw : m.whole (f :: done.reverse) = true) : ∃ asm,
      b.link.inbound.get? m.key = some asm ∧ asm.complete = true ∧ asm.acked = true := by
    rw [hnot] at hw
    cases hw
  apply h.next htouched
    (h.stored.update hm hf htouched.others hwhole (fun _ => hpartial) hkept)
  · rw [hready, hcompleted]
    exact (List.append_nil _).symm
  · rw [hanswered]
    rfl

/-- a fragment after which its bundle is complete, whether or not it was so before -/
theorem Collected.finished (h : Collected family start now done a) (hm : m ∈ family.parcels)
    (hf : f ∈ m.parts) (hwhole : m.whole (f :: done.reverse) = true)
    (htouched : Touched m.key [.ack m.key] (a.arrived now) b)
    (hready : b.link.ready = a.link.ready ++ if m.whole done.reverse then [] else [m.buffer])
    {asm : Assembly} (hentry : b.link.inbound.get? m.key = some asm)
    (hcomplete : asm.complete = true) (hacked : asm.acked = true) (hkept : asm.Kept now) :
    Handled family start now (done ++ [f]) a b := by
  have hcompleted := family.completed_eq done.reverse hm hf
  have hanswered := family.answered_eq done.reverse hm hf
  rw [hwhole, Bool.and_true] at hcompleted
  rw [hwhole, if_pos rfl] at hanswered
  have hpartly (hnot : m.whole (f :: done.reverse) = false) :
      Partial m.parts (f :: done.reverse) (b.link.inbound.get? m.key) := by
    rw [hwhole] at hnot
    cases hnot
  have hkeeps (asm' : Assembly) (hasm : b.link.inbound.get? m.key = some asm') :
      asm'.Kept now := by
    rw [hentry] at hasm
    exact Option.some.inj hasm ▸ hkept
  apply h.next htouched (h.stored.update hm hf htouched.others
    (fun _ => ⟨asm, hentry, hcomplete, hacked⟩) hpartly hkeeps)
  · rw [hready, hcompleted]
    cases m.whole done.reverse <;> rfl
  · rw [hanswered]
    rfl

section
variable {limit : Nat} (hcalm : Calm start.link now limit)
  (hmin : 0 < start.link.settings.minLag.ns) (hlimit : done.length < limit)
include hcalm hmin hlimit

theorem Collected.handle_part (h : Collected family start now done a) (hm : m ∈ family.parcels)
    (hf : f ∈ m.parts) (hpart : m.whole done.reverse = false) :
    ∃ b, Attached.handle f now (a.arrived now) = .ok () b ∧
      Handled family start now (done ++ [f]) a b := by
  have hsame : (a.arrived now).link.layout = layout := h.sameLayout
  have hpartial := h.stored.partly m hm hpart
  have hcases : PartResult now m.key m.buffer m.parts done.reverse f (a.arrived now)
      (Attached.handle f now (a.arrived now)) :=
    Attached.handle_part (by rw [hsame]; exact family.parts hm) hf hpartial
  have hstill := still_arrived h.still
  generalize Attached.handle f now (a.arrived now) = r at hcases
  cases hcases with
  | faulted e b n e' touched ready bound cause =>
    obtain ⟨d, hd⟩ := hstill.deadline hcalm hlimit bound
    rw [cause] at hd
    cases hd
  | repeated b old touched ready entry =>
    have hmem (g : Fragment) : g ∈ done.reverse ↔ g ∈ f :: done.reverse := by
      rw [List.mem_cons, iff_or_self]
      rintro rfl
      exact old
    have hnot : m.whole (f :: done.reverse) = false := by
      rw [Parcel.whole_eq_false] at hpart ⊢
      exact fun hall => hpart fun g hg => (hmem g).mpr (hall g hg)
    refine ⟨b, rfl, h.unfinished hm hf hnot touched ready ?_ ?_⟩
    · rw [entry]
      exact hpartial.congr fun g _ => hmem g
    · intro asm hasm
      rw [entry] at hasm
      exact h.stored.kept m.key asm hasm
  | added b asm new unfinished touched ready entry holds recent =>
    have hnot : m.whole (f :: done.reverse) = false := Parcel.whole_eq_false.mpr unfinished
    refine ⟨b, rfl, h.unfinished hm hf hnot touched ready ?_ ?_⟩
    · rw [entry]
      exact holds
    · intro asm' hasm
      rw [entry] at hasm
      obtain rfl := Option.some.inj hasm
      refine ⟨fun _ => recent, ?_⟩
      intro hcomplete
      rw [holds.unfinished] at hcomplete
      cases hcomplete
  | completed b asm n new finished isOpen touched ready entry complete acked deadline =>
    have hwhole : m.whole (f :: done.reverse) = true := Parcel.whole_iff.mpr finished
    have hlag : 0 < (a.arrived now).link.settings.minLag.ns := by
      rw [hstill.settings]
      exact hmin
    refine ⟨b, rfl, h.finished hm hf hwhole touched ?_ entry complete acked ?_⟩
    · rw [hpart]
      exact ready
    · refine ⟨?_, fun _ => Link.lt_deadline hlag deadline⟩
      intro hnot
      rw [complete] at hnot
      cases hnot
  | unanswered e b new finished isOpen =>
    have hopen : Medium.isOpen (a.arrived now).channel = true := h.isOpen
    rw [hopen] at isOpen
    cases isOpen

omit hmin in
theorem Collected.handle_again (h : Collected family start now done a) (hm : m ∈ family.parcels)
    (hf : f ∈ m.parts) (hwhole : m.whole done.reverse = true) :
    ∃ b, Attached.handle f now (a.arrived now) = .ok () b ∧
      Handled family start now (done ++ [f]) a b := by
  have hsame : (a.arrived now).link.layout = layout := h.sameLayout
  obtain ⟨asm, hentry, hcomplete, hacked⟩ := h.stored.whole m hm hwhole
  have hcases : (∃ b, Attached.handle f now (a.arrived now) = .ok () b ∧
      Wrote [.ack m.key] (a.arrived now) b) ∨
      ∃ e e', Attached.handle f now (a.arrived now) = .error (.fault e) (a.arrived now) ∧
        (a.arrived now).link.deadline now 0 = .error e' :=
    Attached.handle_again (by rw [hsame]; exact family.parts hm) hf hentry hcomplete hacked
      h.isOpen
  obtain ⟨b, hb, hwrote⟩ | ⟨_, e', _, hfault⟩ := hcases
  · have hw := Parcel.whole_mono hwhole (List.subset_cons_self f done.reverse)
    have hentry' : b.link.inbound.get? m.key = some asm := by
      rw [hwrote.inbound]
      exact hentry
    refine ⟨b, hb, h.finished hm hf hw (hwrote.touched m.key) ?_ hentry' hcomplete hacked
      (h.stored.kept m.key asm hentry)⟩
    rw [hwhole, if_pos rfl, List.append_nil]
    exact hwrote.ready
  · obtain ⟨d, hd⟩ := (still_arrived h.still).deadline hcalm hlimit (Nat.zero_le _)
    rw [hfault] at hd
    cases hd

theorem Collected.handle (h : Collected family start now done a)
    (hf : ∃ m ∈ family.parcels, f ∈ m.parts) :
    ∃ b, Attached.handle f now (a.arrived now) = .ok () b ∧
      Handled family start now (done ++ [f]) a b := by
  obtain ⟨m, hm, hf⟩ := hf
  cases hwhole : m.whole done.reverse with
  | false => exact h.handle_part hcalm hmin hlimit hm hf hwhole
  | true => exact h.handle_again hcalm hlimit hm hf hwhole

end

end Attached

end BundleLink
