import BundleLink.Proofs.Session.Counting

/-!
# What a session writes, reads and counts

A link writes bundles as a whole, and acks and naks in between. Only a write that fails leaves part
of a bundle behind, and then nothing follows. What the link counts is what was written and read, and
every byte and bundle can be accounted for.

* `Utterance`, `Utters`    what is written: bundles and answers, one after the other;
* `Session.conveyed`       the bundles of a run that were written as a whole;
* `Session.acknowledged`   how often a bundle was acknowledged in a run;
* `Session.Balanced`       the books of a link at work are balanced;
* `Session.Books`          writing and counts of a session, with `Books.run`;
* `Session.traffic_accounted`  the result.
-/

namespace BundleLink

/-! ## bundles and answers -/

/-- what a link says without anything in between -/
inductive Utterance where
  | bundle (m : Parcel)
  | answer (f : Fragment)

namespace Utterance

def fragments : Utterance → List Fragment
  | .bundle m => m.parts
  | .answer f => [f]

def parcel? : Utterance → Option Parcel
  | .bundle m => some m
  | .answer _ => none

/-- all fragments of a bundle, or an ack or a nak -/
def Sound (layout : Layout) : Utterance → Prop
  | .bundle m => Bundle.Parts layout m.key m.buffer m.parts
  | .answer f => f.IsAnswer

theorem Sound.fits {layout : Layout} {u : Utterance} (h : u.Sound layout) :
    ∀ f ∈ u.fragments, f.Fits layout := by
  cases u with
  | bundle m => exact Bundle.Parts.fits h
  | answer g =>
    intro f hf
    rw [List.mem_singleton.mp hf]
    exact Fragment.IsAnswer.fits h layout

theorem parcels_answers (us : List Utterance) (fs : List Fragment) :
    (us ++ fs.map answer).filterMap parcel? = us.filterMap parcel? := by
  have hnone : (fs.map answer).filterMap parcel? = [] := by
    rw [List.filterMap_map]
    exact List.filterMap_eq_nil_iff.mpr fun _ _ => rfl
  rw [List.filterMap_append, hnone, List.append_nil]

theorem fragments_answers (us : List Utterance) (fs : List Fragment) :
    (us ++ fs.map answer).flatMap fragments = us.flatMap fragments ++ fs := by
  rw [List.flatMap_append]
  congr 1
  induction fs with
  | nil => rfl
  | cons f fs ih => exact congrArg (f :: ·) ih

theorem parcels_bundle (us : List Utterance) (m : Parcel) :
    (us ++ [bundle m]).filterMap parcel? = us.filterMap parcel? ++ [m] := List.filterMap_append

theorem fragments_bundle (us : List Utterance) (m : Parcel) :
    (us ++ [bundle m]).flatMap fragments = us.flatMap fragments ++ m.parts := by
  rw [List.flatMap_append, List.flatMap_singleton]
  rfl

end Utterance

/-- What was written are the utterances, and then the fragments `cut` of a bundle whose next
fragment could not be written, in the last call of all. -/
structure Utters {σ : Type} (layout : Layout) (us : List Utterance) (cut : List Fragment)
    (t : Traced σ) : Prop where
  sent : t.sent = (us.flatMap Utterance.fragments ++ cut).map (Fragment.wire layout)
  sound : ∀ u ∈ us, u.Sound layout
  rising : (us.filterMap Utterance.parcel?).Pairwise fun m m' => m.key.message < m'.key.message
  broken : cut = [] ∨ ∃ (m : Parcel) (f : Fragment) (rest : List Fragment) (e : IoError),
    Bundle.Parts layout m.key m.buffer m.parts ∧ m.parts = cut ++ f :: rest ∧
      (∀ m' ∈ us.filterMap Utterance.parcel?, m'.key.message < m.key.message) ∧
      t.calls.getLast? = some (.write (f.wire layout) (some e))

namespace Utters

variable {σ : Type} {layout : Layout} {us : List Utterance} {cut fs : List Fragment}
  {t t' : Traced σ} {m : Parcel}

theorem congr (h : Utters layout us cut t) (hcalls : t'.calls = t.calls) :
    Utters layout us cut t' :=
  ⟨(congrArg _ hcalls).trans h.sent, h.sound, h.rising, by rw [hcalls]; exact h.broken⟩

theorem answers (h : Utters layout us [] t) (hfs : ∀ f ∈ fs, f.IsAnswer)
    (hsent : t'.sent = t.sent ++ fs.map (Fragment.wire layout)) :
    Utters layout (us ++ fs.map Utterance.answer) [] t' := by
  refine ⟨?_, fun u hu => ?_, ?_, .inl rfl⟩
  · rw [hsent, h.sent, Utterance.fragments_answers, List.append_nil, List.append_nil,
      List.map_append]
  · rcases List.mem_append.mp hu with hu | hu
    · exact h.sound u hu
    · obtain ⟨f, hf, rfl⟩ := List.mem_map.mp hu
      exact hfs f hf
  · rw [Utterance.parcels_answers]
    exact h.rising

theorem bundle (h : Utters layout us [] t)
    (hparts : Bundle.Parts layout m.key m.buffer m.parts)
    (hfresh : ∀ m' ∈ us.filterMap Utterance.parcel?, m'.key.message < m.key.message)
    (hsent : t'.sent = t.sent ++ m.parts.map (Fragment.wire layout)) :
    Utters layout (us ++ [.bundle m]) [] t' := by
  refine ⟨?_, fun u hu => ?_, ?_, .inl rfl⟩
  · rw [hsent, h.sent, Utterance.fragments_bundle, List.append_nil, List.append_nil,
      List.map_append]
  · rcases List.mem_append.mp hu with hu | hu
    · exact h.sound u hu
    · rw [List.mem_singleton.mp hu]
      exact hparts
  · rw [Utterance.parcels_bundle, List.pairwise_append]
    refine ⟨h.rising, List.pairwise_singleton _ _, fun m' hm' n hn => ?_⟩
    rw [List.mem_singleton.mp hn]
    exact hfresh m' hm'

/-- Everything that was written is found again, and nothing else is. -/
theorem scan_eq (h : Utters layout us cut t) :
    Wire.scan layout t.sent.flatten =
      ((us.flatMap Utterance.fragments ++ cut).map (Wire.whole layout), []) := by
  rw [h.sent]
  refine Wire.scan_all fun f hf => ?_
  rcases List.mem_append.mp hf with hf | hf
  · obtain ⟨u, hu, hf⟩ := List.mem_flatMap.mp hf
    exact (h.sound u hu).fits f hf
  · rcases h.broken with rfl | ⟨m, g, rest, -, hparts, heq, -⟩
    · cases hf
    · exact hparts.fits f (heq ▸ List.mem_append_left _ hf)

/-- The keys of the bundles are different ones. -/
theorem nodup_keys (h : Utters layout us cut t) :
    ((us.filterMap Utterance.parcel?).map Parcel.key).Nodup :=
  List.pairwise_map.mpr <| h.rising.imp fun hlt heq =>
    UInt64.ne_of_lt hlt (congrArg Key.message heq)

end Utters

/-! ## sessions -/

namespace Session

variable {σ : Type} [Channel σ] {s t : Session σ} {c : Chronicle} {layout : Layout}
  {us : List Utterance} {cut : List Fragment} {acked : Nat} {now : Moment}

/-- the bundle that an event writes, if all of its fragments are written -/
def conveys (s : Session σ) (e : Event) : Option Parcel :=
  match e.buffer? with
  | none => none
  | some buffer =>
    match Bundle.split s.party.link.layout s.party.link.fragmentSize s.attached.nextKey buffer with
    | .error _ => none
    | .ok parts =>
      if (s.step e).channel.sent =
          s.channel.sent ++ parts.map (Fragment.wire s.party.link.layout) then
        some ⟨s.attached.nextKey, buffer, parts⟩
      else none

/-- the bundles of a run that are written as a whole, the oldest one first -/
def conveyed (s : Session σ) : List Event → List Parcel
  | [] => []
  | e :: es => (s.conveys e).toList ++ (s.step e).conveyed es

/-- how often a fragment acknowledges a bundle in a run -/
def acknowledged (s : Session σ) (es : List Event) : Nat :=
  (s.happenings es).countP Happening.acknowledges

omit [Channel σ] in
/-- The link has said `us`, and `acked` of the bundles were acknowledged. All bytes heard are still
raw, or were handled, or dropped, and all other bundles are still outbound. -/
structure Balanced (layout : Layout) (c : Chronicle) (us : List Utterance) (acked : Nat)
    (l : Link) : Prop where
  layout_eq : l.layout = layout
  fresh : ∀ m ∈ us.filterMap Utterance.parcel?, m.key.message < l.nextMessage
  outbound : ∀ k parts, l.outbound.get? k = some parts → k.message < l.nextMessage
  heard : c.heard.length = l.raw.length +
    (Fragment.wires layout (c.notes.map (·.fragment))).length + l.droppedBytes
  bundles : (us.filterMap Utterance.parcel?).length = l.outbound.size + acked

/-- What a session has said, and what it counts. -/
structure Books (layout : Layout) (c : Chronicle) (us : List Utterance) (cut : List Fragment)
    (acked : Nat) (s : Session σ) : Prop where
  utters : Utters layout us cut s.channel
  uncut : s.party.link.connected = true → cut = []
  counts : Attached.Counts c.heard.length c.notes.length (us.filterMap Utterance.parcel?).length
    s.party.taken.length s.attached
  balanced : s.party.Active → Balanced layout c us acked s.party.link

omit [Channel σ] in
theorem Books.aside (h : Books layout c us cut acked s) (ht : Aside s t) :
    Books layout c us cut acked t := by
  refine ⟨h.utters.congr ht.calls, fun hx => h.uncut (ht.connected hx), ?_, fun hx => ?_⟩
  · have hready := congrArg List.length ht.delivered
    rw [Party.delivered, Party.delivered, List.length_append, List.length_append] at hready
    have hsent : t.channel.sent = s.channel.sent :=
      congrArg (List.filterMap ChannelCall.sent?) ht.calls
    have hcounts := h.counts
    rw [Attached.Counts] at hcounts ⊢
    show t.party.link.traffic = Traffic.mk (.of (t.channel.sent).flatten.length) _
      (.of t.channel.sent.length) _ _ (.of (_ + t.party.link.ready.length))
    rw [ht.traffic, hready, hsent]
    exact hcounts
  · obtain ⟨hactive, -, size, ready, generation, hlink⟩ := ht.active hx
    obtain ⟨hlayout, hfresh, hout, hheard, hbundles⟩ := h.balanced hactive
    rw [hlink]
    exact ⟨hlayout, hfresh, hout, hheard, hbundles⟩

/-! ## receives -/

/-- what a receive adds, if the link is still at work after it -/
theorem Balanced.receive (h : Balanced layout c us acked s.party.link)
    (hx : (s.step (.act .receive now)).party.Active) {fs : List Fragment} {arrived : List Note}
    {dropped : Nat}
    (hall : Attached.Accrued fs s.attached.input.length arrived.length dropped s.attached
      (s.step (.act .receive now)).attached)
    (hnotes : (c.receive now s.attached).notes = c.notes ++ arrived)
    (hmade : ∀ b, Attached.receiveBundles now s.attached = .ok () b →
      b.link.raw.length +
          (Fragment.wires s.party.link.layout (arrived.map (·.fragment))).length + dropped =
        s.party.link.raw.length + s.attached.input.length) :
    Balanced layout (c.receive now s.attached) (us ++ fs.map .answer)
      (acked + (s.attached.happenings now).countP Happening.acknowledges)
      (s.step (.act .receive now)).party.link := by
  obtain ⟨b, hb, hafter⟩ := ok_of_active hx
  obtain ⟨d, hended, ⟨count, hd⟩, hpurged⟩ := Attached.stages_of_ok hb
  obtain ⟨hsize, hkeys⟩ := Attached.handleAll_outbound now s.attached.pieces 0 _ hd
  have hnext : (s.step (.act .receive now)).party.link.nextMessage = s.party.link.nextMessage :=
    hall.nextMessage
  have hdropped : (s.step (.act .receive now)).party.link.droppedBytes =
      s.party.link.droppedBytes + dropped := hall.dropped
  refine ⟨hall.layout.trans h.layout_eq, ?_, fun k parts hk => ?_, ?_, ?_⟩
  · rw [Utterance.parcels_answers, hnext]
    exact h.fresh
  · rw [hafter, hpurged.outbound] at hk
    rw [hnext]
    exact h.outbound k parts (hkeys k parts hk)
  · have hmade := hmade b hb
    rw [← hafter, h.layout_eq] at hmade
    rw [hdropped, hnotes, List.map_append, Fragment.wires_append, List.length_append]
    show (c.heard ++ s.attached.input).length = _
    rw [List.length_append, h.heard]
    omega
  · have hopen := (active_of_step hx).1
    rw [Attached.happenings_ok hopen hended, List.countP_append, hafter, hpurged.outbound,
      Utterance.parcels_answers, h.bundles]
    show s.attached.loaded.link.outbound.size + acked = _ + (acked + (_ + 0))
    omega

theorem Books.receive (h : Books layout c us cut acked s) (now : Moment) :
    ∃ us', us'.filterMap Utterance.parcel? = us.filterMap Utterance.parcel? ∧
      Books layout (s.record c (.act .receive now)) us' cut
        (acked + (s.happens (.act .receive now)).countP Happening.acknowledges)
        (s.step (.act .receive now)) := by
  by_cases hactive : s.party.Active
  · obtain rfl : cut = [] := h.uncut hactive.1
    have hbalanced := h.balanced hactive
    obtain ⟨fs, arrived, dropped, haccrued, hnotes, hmade⟩ :=
      Attached.receiveBundles_accrued c now s.attached
    have hall := haccrued.trans
      (Attached.Uncounted.settle (Attached.receiveBundles now s.attached)).accrued
    rw [List.append_nil, Nat.add_zero, Nat.add_zero, Nat.add_zero] at hall
    obtain ⟨hattached, -, htaken⟩ := s.settle_after [] (s.deeds now)
      (Attached.settle (Attached.receiveBundles now s.attached))
    rw [← step_of_active hactive now] at hattached htaken
    rw [← hattached] at hall
    rw [record_of_active hactive, happens_of_active hactive]
    refine ⟨us ++ fs.map .answer, Utterance.parcels_answers us fs,
      h.utters.answers hall.answers (hbalanced.layout_eq ▸ hall.sent), fun _ => rfl, ?_,
      fun hx => hbalanced.receive hx hall hnotes hmade⟩
    have hcounts := hall.counts h.counts
    rw [← List.length_append, ← List.length_append, ← hnotes] at hcounts
    rw [Utterance.parcels_answers, htaken]
    exact hcounts
  · rw [record_of_idle hactive, happens_of_idle hactive, step_of_idle hactive now]
    exact ⟨us, rfl, h⟩

/-! ## writes -/

/-- a write that fails before it begins -/
theorem aside_refused {e : Failure LinkError}
    (hmild : (∃ f, e = .fault f) ∨ ∃ b, e = .error (.bundle b)) (buffers : List Bytes) :
    Aside s (s.settle buffers [] (Attached.settle (.error e s.attached))) := by
  rcases hmild with ⟨f, rfl⟩ | ⟨b, rfl⟩
  · exact ⟨List.append_nil _, rfl, rfl, rfl, id, fun hx => absurd hx.2 Bool.noConfusion⟩
  · exact ⟨List.append_nil _, rfl, rfl, rfl, id, fun hx => ⟨hx, rfl, _, _, _, rfl⟩⟩

theorem step_of_buffer {e : Event} {buffer : Bytes} (he : e.buffer? = some buffer)
    (s : Session σ) : ∃ flushNow now, s.step e =
      if s.party.halted then s
      else s.settle [buffer] [] (s.attached.write buffer flushNow now) := by
  cases e with
  | setLayout l => cases he
  | act op now =>
    cases op with
    | write b flushNow =>
      cases he
      exact ⟨flushNow, now, rfl⟩
    | writeText text flushNow =>
      cases he
      exact ⟨flushNow, now, rfl⟩
    | _ => cases he

theorem conveys_eq_some {e : Event} {buffer : Bytes} {parts : List Fragment}
    (he : e.buffer? = some buffer)
    (hsplit : Bundle.split s.party.link.layout s.party.link.fragmentSize s.attached.nextKey buffer =
      .ok parts)
    (hsent : (s.step e).channel.sent =
      s.channel.sent ++ parts.map (Fragment.wire s.party.link.layout)) :
    s.conveys e = some ⟨s.attached.nextKey, buffer, parts⟩ := by
  rw [conveys, he]
  dsimp only
  rw [hsplit]
  exact if_pos hsent

/-- what is only written in part is not conveyed -/
theorem conveys_eq_none {e : Event} {buffer : Bytes} (he : e.buffer? = some buffer)
    (done : List Fragment)
    (hsent : (s.step e).channel.sent =
      s.channel.sent ++ done.map (Fragment.wire s.party.link.layout))
    (hshort : ∀ parts, Bundle.split s.party.link.layout s.party.link.fragmentSize
      s.attached.nextKey buffer = .ok parts → done.length < parts.length) :
    s.conveys e = none := by
  rw [conveys, he]
  dsimp only
  split
  · rfl
  · rename_i parts hsplit
    refine if_neg fun heq => ?_
    have hless := hshort parts hsplit
    rw [hsent] at heq
    have hlength := congrArg List.length (List.append_cancel_left heq)
    rw [List.length_map, List.length_map] at hlength
    omega

omit [Channel σ] in
/-- one more bundle is outbound -/
theorem Balanced.write {l : Link} (h : Balanced layout c us acked l)
    (hroom : l.nextMessage ≠ Link.lastMessage) (buffer : Bytes) (parts : List Fragment)
    (progress : Moment) (traffic : Traffic) :
    Balanced layout c (us ++ [.bundle ⟨⟨l.generation, l.nextMessage⟩, buffer, parts⟩]) acked
      { l with
        lastProgress := progress, nextMessage := l.nextMessage + 1
        outbound := l.outbound.put ⟨l.generation, l.nextMessage⟩ parts, traffic := traffic } := by
  obtain ⟨hless, -⟩ := Link.lt_nextMessage_succ hroom
  have hnew : l.outbound.get? ⟨l.generation, l.nextMessage⟩ = none := by
    cases hget : l.outbound.get? ⟨l.generation, l.nextMessage⟩ with
    | none => rfl
    | some parts => exact absurd (h.outbound _ _ hget) (UInt64.lt_irrefl _)
  refine ⟨h.layout_eq, fun m hm => ?_, fun k gs hk => ?_, h.heard, ?_⟩
  · rw [Utterance.parcels_bundle] at hm
    rcases List.mem_append.mp hm with hm | hm
    · exact UInt64.lt_trans (h.fresh m hm) hless
    · rw [List.mem_singleton.mp hm]
      exact hless
  · rw [Table.get?_put] at hk
    split at hk
    · rename_i heq
      rw [heq]
      exact hless
    · exact UInt64.lt_trans (h.outbound k gs hk) hless
  · rw [Utterance.parcels_bundle, List.length_append, h.bundles, Table.size_put hnew]
    exact Nat.add_right_comm _ _ _

section
variable {b : Attached (Traced σ)} {buffer : Bytes} {parts done rest : List Fragment}
  {f : Fragment} {e : IoError} {r : Outcome (Traced σ) Unit}

omit [Channel σ] in
/-- what is written of a bundle stands behind everything else -/
theorem Balanced.sent_eq (h : Balanced layout c us acked s.party.link)
    (hdone : Attached.Transmitted done s.attached.numbered b)
    (hsent : t.channel.sent = b.channel.sent) :
    t.channel.sent = s.channel.sent ++ done.map (Fragment.wire layout) := by
  rw [hsent, hdone.sent, ← h.layout_eq]
  rfl

/-- a fragment of a bundle could not be written, and so the link is closed -/
theorem Books.broken (h : Books layout c us [] acked s) (hactive : s.party.Active)
    (hsplit : Bundle.split s.party.link.layout s.party.link.fragmentSize s.attached.nextKey buffer =
      .ok (done ++ f :: rest))
    (hdone : Attached.Transmitted done s.attached.numbered b)
    (hfailed : b.channel.calls.getLast? = some (.write (f.wire s.party.link.layout) (some e)))
    (hr : r = .error (.error (.io e)) b) (hattached : t.attached = (Attached.settle r).after)
    (htaken : t.party.taken = s.party.taken) : Books layout c us done acked t := by
  subst hr
  have huncounted := Attached.Uncounted.settle (.error (.error (.io e)) b)
  have hcalls := Attached.calls_settle (.error (.error (.io e)) b)
  have hclosed := Attached.closed_of_io (r := .error (.error (.io e)) b) rfl
  rw [← hattached] at huncounted hcalls hclosed
  have hbalanced := h.balanced hactive
  refine ⟨⟨?_, h.utters.sound, h.utters.rising, .inr
    ⟨⟨s.attached.nextKey, buffer, done ++ f :: rest⟩, f, rest, e, ?_, rfl, hbalanced.fresh, ?_⟩⟩,
    fun hx => ?_, ?_, fun hx => ?_⟩
  · rw [hbalanced.sent_eq hdone huncounted.sent, h.utters.sent, List.append_nil, List.map_append]
  · exact hbalanced.layout_eq ▸ .of_split hsplit
  · rw [← hbalanced.layout_eq, ← hfailed]
    exact congrArg List.getLast? hcalls
  · exact absurd hx (by rw [show t.party.link.connected = false from hclosed]; decide)
  · rw [htaken]
    exact (hdone.counts h.counts).congr huncounted.traffic huncounted.ready huncounted.sent
  · exact absurd hx (Party.not_active hclosed)

/-- all fragments of a bundle were written -/
theorem Books.whole (h : Books layout c us [] acked s) (hactive : s.party.Active)
    (hsplit : Bundle.split s.party.link.layout s.party.link.fragmentSize s.attached.nextKey buffer =
      .ok parts)
    (hroom : s.party.link.nextMessage ≠ Link.lastMessage)
    (hall : Attached.Transmitted parts s.attached.numbered b)
    (hlink : r.after.link = (Attached.recordSent s.attached.nextKey parts now b).link)
    (hsent : r.after.channel.sent = b.channel.sent)
    (hbreaks : r.Meets (fun _ _ => True) fun e _ => ∃ io, e = .error (.io io))
    (hattached : t.attached = (Attached.settle r).after)
    (htaken : t.party.taken = s.party.taken) :
    Books layout c (us ++ [.bundle ⟨s.attached.nextKey, buffer, parts⟩]) [] acked t := by
  have huncounted := Attached.Uncounted.settle r
  rw [← hattached] at huncounted
  have hbalanced := h.balanced hactive
  obtain ⟨traffic, hb⟩ := hall.counted
  refine ⟨?_, fun _ => rfl, ?_, fun hx => ?_⟩
  · exact h.utters.bundle (hbalanced.layout_eq ▸ .of_split hsplit) hbalanced.fresh
      (hbalanced.sent_eq hall (huncounted.sent.trans hsent))
  · rw [htaken, Utterance.parcels_bundle, List.length_append]
    have hrecorded := (hall.counts h.counts).bundle (b := r.after) (by rw [hlink]; rfl)
      (by rw [hlink]; rfl) hsent
    exact hrecorded.congr huncounted.traffic huncounted.ready huncounted.sent
  · cases r with
    | error failure d =>
      obtain ⟨io, rfl⟩ := hbreaks
      have hclosed := Attached.closed_of_io (r := .error (.error (.io io)) d) rfl
      rw [← hattached] at hclosed
      exact absurd hx (Party.not_active hclosed)
    | ok _ d =>
      have hafter : ∃ progress traffic, t.party.link =
          { s.party.link with
            lastProgress := progress, nextMessage := s.party.link.nextMessage + 1
            outbound := s.party.link.outbound.put s.attached.nextKey parts
            traffic := traffic } := by
        rw [show t.party.link = _ from (congrArg Attached.link hattached).trans hlink,
          Attached.recordSent, hb]
        exact ⟨_, _, rfl⟩
      obtain ⟨progress, traffic, hafter⟩ := hafter
      rw [hafter]
      exact hbalanced.write hroom buffer parts progress traffic

end

theorem Books.write (h : Books layout c us cut acked s) {e : Event} {buffer : Bytes}
    (he : e.buffer? = some buffer) :
    ∃ us' cut', us'.filterMap Utterance.parcel? =
        us.filterMap Utterance.parcel? ++ (s.conveys e).toList ∧
      Books layout c us' cut' acked (s.step e) := by
  obtain ⟨flushNow, now, hstep⟩ := step_of_buffer he s
  have hunsent (hsent : (s.step e).channel.sent = s.channel.sent) : s.conveys e = none :=
    conveys_eq_none he [] (hsent.trans (List.append_nil _).symm) fun parts hsplit =>
      List.length_pos_iff.mpr (Attached.split_ne_nil hsplit)
  by_cases hactive : s.party.Active
  · rw [unless_halted hactive, write_of_active hactive] at hstep
    have hcount := Attached.writeBundle_count buffer flushNow now s.attached
    generalize Attached.writeBundle buffer flushNow now s.attached = r at hstep hcount
    obtain ⟨hattached, -, htaken⟩ := s.settle_after [buffer] [] (Attached.settle r)
    have huncounted := Attached.Uncounted.settle r
    have hbalanced := h.balanced hactive
    obtain rfl : cut = [] := h.uncut hactive.1
    rw [← hstep] at hattached htaken
    rw [← hattached] at huncounted
    cases hcount with
    | refused e hmild =>
      have haside : Aside s (s.step _) := hstep ▸ aside_refused hmild [buffer]
      have hnone := hunsent (congrArg (List.filterMap ChannelCall.sent?) haside.calls)
      rw [hnone]
      exact ⟨us, [], (List.append_nil _).symm, h.aside haside⟩
    | cut parts done f rest io b hsplit hroom hparts hdone hfailed =>
      subst hparts
      have hnone : s.conveys e = none := by
        refine conveys_eq_none he done ?_ fun parts hparts => ?_
        · rw [hbalanced.layout_eq]
          exact hbalanced.sent_eq hdone huncounted.sent
        · obtain rfl := Except.ok.inj (hsplit.symm.trans hparts)
          rw [List.length_append, List.length_cons]
          omega
      rw [hnone]
      exact ⟨us, done, (List.append_nil _).symm,
        h.broken hactive hsplit hdone hfailed rfl hattached htaken⟩
    | whole parts b r hsplit hroom hall hlink hsent hbreaks =>
      have hsome : s.conveys e = some ⟨s.attached.nextKey, buffer, parts⟩ := by
        refine conveys_eq_some he hsplit ?_
        rw [hbalanced.layout_eq]
        exact hbalanced.sent_eq hall (huncounted.sent.trans hsent)
      rw [hsome]
      exact ⟨_, [], Utterance.parcels_bundle us _,
        h.whole hactive hsplit hroom hall hlink hsent hbreaks hattached htaken⟩
  · rw [unless_idle hactive [buffer] fun hclosed =>
      ⟨Attached.write_of_closed hclosed buffer flushNow now, rfl⟩] at hstep
    rw [hunsent (by rw [hstep]), hstep]
    exact ⟨us, cut, (List.append_nil _).symm, h⟩

/-! ## runs -/

theorem Books.step (h : Books layout c us cut acked s) (e : Event)
    (he : ∀ l, e = .setLayout l → l = layout) :
    ∃ us' cut', us'.filterMap Utterance.parcel? =
        us.filterMap Utterance.parcel? ++ (s.conveys e).toList ∧
      Books layout (s.record c e) us' cut'
        (acked + (s.happens e).countP Happening.acknowledges) (s.step e) := by
  by_cases hreceive : ∃ now, e = .act .receive now
  · obtain ⟨now, rfl⟩ := hreceive
    obtain ⟨us', hus', hbooks⟩ := h.receive now
    exact ⟨us', cut, hus'.trans (List.append_nil _).symm, hbooks⟩
  · have hne (now : Moment) : e ≠ .act .receive now := fun heq => hreceive ⟨now, heq⟩
    rw [record_of_ne hne, happens_of_ne hne]
    cases hbuffer : e.buffer? with
    | some buffer => exact h.write hbuffer
    | none =>
      have hnone : s.conveys e = none := by rw [conveys, hbuffer]
      rw [hnone]
      refine ⟨us, cut, (List.append_nil _).symm,
        h.aside (aside_step hne hbuffer fun hx l hl => ?_)⟩
      exact (he l hl).trans (h.balanced hx).layout_eq.symm

theorem Books.run (es : List Event) (h : Books layout c us cut acked s)
    (hes : ∀ l, .setLayout l ∈ es → l = layout) :
    ∃ us' cut', us'.filterMap Utterance.parcel? =
        us.filterMap Utterance.parcel? ++ s.conveyed es ∧
      Books layout (s.chronicle c es) us' cut' (acked + s.acknowledged es) (s.run es) := by
  induction es generalizing s c us cut acked with
  | nil => exact ⟨us, cut, (List.append_nil _).symm, h⟩
  | cons e es ih =>
    obtain ⟨us₁, cut₁, hus₁, hfirst⟩ := h.step e fun l hl => hes l (hl ▸ List.mem_cons_self)
    obtain ⟨us₂, cut₂, hus₂, hrest⟩ := ih hfirst fun l hl => hes l (List.mem_cons_of_mem _ hl)
    refine ⟨us₂, cut₂, ?_, ?_⟩
    · rw [hus₂, hus₁, conveyed, List.append_assoc]
    · rw [acknowledged, happenings, List.countP_append, ← Nat.add_assoc]
      exact hrest

omit [Channel σ] in
theorem books_opened (id : Nat) (description : String) (settings : Settings)
    (generation : UInt64) (start : Moment) (channel : σ) :
    Books settings.layout .blank [] [] 0
      (opened id description settings generation start channel) :=
  ⟨⟨rfl, nofun, .nil, .inl rfl⟩, fun _ => rfl, rfl, fun _ => ⟨rfl, nofun, nofun, rfl, rfl⟩⟩

/-- In any session of a link on any channel that keeps its layout, whatever bytes the receives read
and whatever else happens and fails:

The bytes that were written are bundles and answers, one after the other, and they are taken apart
as such, with nothing skipped and nothing left over. The bundles are those of the writes all of
whose fragments were written, their message numbers go up, and so no two have the same key. Part of
a bundle is only written in front of a write that failed, which was the last call, and the link is
closed then.

The six totals are the lengths and numbers of what was written, heard, handled, conveyed and
delivered. While the link is at work, each byte that it heard is still raw, or belongs to a fragment
that was handled, or was dropped, and each bundle that it conveyed is still outbound or was
acknowledged. -/
theorem traffic_accounted (id : Nat) (description : String) (settings : Settings)
    (generation : UInt64) (start : Moment) (channel : σ) (es : List Event)
    (hes : ∀ l, .setLayout l ∈ es → l = settings.layout)
    (hs : s = opened id description settings generation start channel)
    (hc : c = s.chronicle .blank es) (ht : t = s.run es) :
    (∃ us cut, Utters settings.layout us cut t.channel ∧
      us.filterMap Utterance.parcel? = s.conveyed es ∧
      (t.party.link.connected = true → cut = []) ∧
      Wire.scan settings.layout t.channel.sent.flatten =
        ((us.flatMap Utterance.fragments ++ cut).map (Wire.whole settings.layout), [])) ∧
    ((s.conveyed es).map Parcel.key).Nodup ∧
    t.party.link.traffic =
      { bytesSent := .of t.channel.sent.flatten.length
        bytesReceived := .of c.heard.length
        fragmentsSent := .of t.channel.sent.length
        fragmentsReceived := .of c.notes.length
        bundlesSent := .of (s.conveyed es).length
        bundlesReceived := .of t.party.delivered.length } ∧
    (t.party.Active →
      c.heard.length = t.party.link.raw.length +
          (Fragment.wires settings.layout (c.notes.map (·.fragment))).length +
          t.party.link.droppedBytes ∧
        (s.conveyed es).length = t.party.link.outbound.size + s.acknowledged es) := by
  subst hs hc ht
  obtain ⟨us, cut, hus, hbooks⟩ :=
    (books_opened id description settings generation start channel).run es hes
  rw [List.filterMap_nil, List.nil_append] at hus
  rw [Nat.zero_add] at hbooks
  refine ⟨⟨us, cut, hbooks.utters, hus, hbooks.uncut, hbooks.utters.scan_eq⟩,
    hus ▸ hbooks.utters.nodup_keys, ?_, fun hx => ?_⟩
  · rw [← hus, Party.delivered, List.length_append]
    exact hbooks.counts
  · rw [← hus]
    exact ⟨(hbooks.balanced hx).heard, (hbooks.balanced hx).bundles⟩

/-- The peer sends noise, an ack and a bundle. The sixth write fails. -/
def talking : Session Script :=
  opened 7 "scripted" {} 1 .start
    { Script.lone ([0, 1, 2] ++ Fragment.wires .plain
        [.ack ⟨1, 1⟩, .header 9 1 1 0, ⟨9, 1, 1, 2, 0, some [104, 105]⟩]) with
      failingWrite := some 6 }

def exchange : List Event := [.act (.write [33] true) .start, .act .receive .start]

def outburst : List Event := exchange ++ [.act (.write [34] true) .start]

/-- the noise is dropped, the first bundle acknowledged, and the second one breaks off behind its
header -/
theorem traffic_accounted_talking :
    ((talking.chronicle .blank exchange).heard.length =
        (talking.run exchange).party.link.raw.length + 80 + 3 ∧
      (talking.conveyed exchange).length = (talking.run exchange).party.link.outbound.size + 1) ∧
    (∃ us cut, Utters .plain us cut (talking.run outburst).channel ∧
      (us.filterMap Utterance.parcel?).map Parcel.buffer = [[33]] ∧
      us.flatMap Utterance.fragments ++ cut =
        [.header 1 1 1 0, ⟨1, 1, 1, 1, 0, some [33]⟩, .ack ⟨1, 1⟩, .ack ⟨9, 1⟩,
          .header 1 2 1 0]) ∧
    (talking.run outburst).party.link.connected = false ∧
    (talking.run outburst).party.link.traffic.totals = [131, 83, 5, 3, 1, 1] := by
  obtain ⟨-, -, -, hbalanced⟩ := traffic_accounted (c := talking.chronicle .blank exchange)
    (t := talking.run exchange) 7 "scripted" {} 1 .start _ exchange (by simp [exchange]) rfl rfl rfl
  obtain ⟨⟨us, cut, hutters, hus, -, hscan⟩, -⟩ :=
    traffic_accounted (c := talking.chronicle .blank outburst) (t := talking.run outburst) 7
      "scripted" {} 1 .start _ outburst (by simp [outburst, exchange]) rfl rfl rfl
  have hwires : (Fragment.wires .plain
      ((talking.chronicle .blank exchange).notes.map (·.fragment))).length = 80 := by decide +kernel
  have hdropped : (talking.run exchange).party.link.droppedBytes = 3 := by decide +kernel
  have hacknowledged : talking.acknowledged exchange = 1 := by decide +kernel
  refine ⟨?_, ⟨us, cut, hutters, ?_, ?_⟩, by decide +kernel, by decide +kernel⟩
  · rw [← hwires, ← hdropped, ← hacknowledged]
    exact hbalanced ⟨by decide +kernel, by decide +kernel⟩
  · rw [hus]
    decide +kernel
  · have hfragments := congrArg (fun r => Wire.fragments r.1) hscan
    rw [Wire.fragments_whole] at hfragments
    rw [← hfragments]
    decide +kernel

end Session

end BundleLink
