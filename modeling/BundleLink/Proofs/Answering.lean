import BundleLink.Proofs.Hearing

/-!
# What a receive writes

Whatever fragments a peer sends, a link writes nothing but acks and naks while it handles them. Each
of these is paid for: by the header or data fragment that it answers, or by an entry that leaves the
table of outbound bundles. Acks and naks themselves are answered on account of such an entry only.

* `Fragment.asks`      the fragment is a header or data, or is taken for that;
* `Fragment.IsAnswer`  the fragment is an ack or a nak;
* `Attached.Answering` what was written on the way from one state to another, and what it cost;
* `handle_answers`     one fragment;
* `receive_heeds`      one receive: what was written, and what is left of the stream.
-/

namespace BundleLink

/-! ## answers -/

/-- The fragment may be answered for its own sake. All others have the number and the length of an
ack or a nak, whether or not their key is one that a link gives out. -/
def Fragment.asks (f : Fragment) : Bool := !decide (f.number = 0 ∧ f.length ≤ 0)

def Fragment.IsAnswer (f : Fragment) : Prop := ∃ k, f = .ack k ∨ f = .nak k

theorem Fragment.IsAnswer.fits {f : Fragment} (h : f.IsAnswer) (layout : Layout) :
    f.Fits layout := by
  obtain ⟨k, rfl | rfl⟩ := h
  · exact Message.fits_ack layout k
  · exact ⟨Fragment.wellFormed_header _ _ _ _, fun _ => rfl⟩

theorem Fragment.IsAnswer.asks {f : Fragment} (h : f.IsAnswer) : f.asks = false := by
  obtain ⟨k, rfl | rfl⟩ := h
  · show (!decide ((0 : Int32) = 0 ∧ Fragment.ackLength ≤ 0)) = false
    decide
  · show (!decide ((0 : Int32) = 0 ∧ Fragment.nakLength ≤ 0)) = false
    decide

theorem Fragment.IsAnswer.bytes {f : Fragment} (h : f.IsAnswer) : f.bytes = [] := by
  obtain ⟨k, rfl | rfl⟩ := h <;> rfl

/-- a fragment that asks is no control fragment, but some that do not ask are none either -/
theorem Fragment.isControl_of_asks {f : Fragment} (h : f.asks = true) : f.isControl = false := by
  cases hc : f.isControl with
  | false => rfl
  | true =>
    simp only [Fragment.isControl, Bool.and_eq_true, beq_iff_eq, decide_eq_true_eq] at hc
    have hnot : f.asks = false := by
      rw [Fragment.asks, decide_eq_true ⟨hc.1.1, hc.2⟩]
      rfl
    rw [hnot] at h
    cases h

theorem countP_asks_answers {fs : List Fragment} (h : ∀ f ∈ fs, f.IsAnswer) :
    fs.countP Fragment.asks = 0 := by
  rw [List.countP_eq_zero]
  intro f hf
  rw [(h f hf).asks]
  exact Bool.false_ne_true

namespace Attached

variable {σ : Type} [Channel σ] [Medium σ] {a b c : Attached σ} {m n : Nat}

/-- From `a` to `b` only acks and naks were written, and no more of them than `n` and what the table
of outbound bundles lost. -/
structure Answering (n : Nat) (a b : Attached σ) : Prop where
  terms : b.link.terms = a.link.terms
  raw : b.link.raw = a.link.raw
  incoming : Medium.incoming b.channel = Medium.incoming a.channel
  isOpen : Medium.isOpen b.channel = Medium.isOpen a.channel
  description : Medium.description b.channel = Medium.description a.channel
  outgoing : ∃ sent : List Fragment, (∀ g ∈ sent, g.IsAnswer) ∧
    Medium.outgoing b.channel = Medium.outgoing a.channel ++
      sent.map (Fragment.wire a.link.layout) ∧
    sent.length + b.link.outbound.size ≤ n + a.link.outbound.size

/-- the operation answers, and its failures end the link -/
def Answers (n : Nat) (a : Attached σ) (r : Outcome σ Unit) : Prop :=
  r.Meets (fun _ b => Answering n a b) (fun e b => Answering n a b ∧ e.Ends)

theorem Answering.silent (hterms : b.link.terms = a.link.terms) (hraw : b.link.raw = a.link.raw)
    (hchannel : b.channel = a.channel) (hout : b.link.outbound.size ≤ a.link.outbound.size) :
    Answering 0 a b := by
  refine ⟨hterms, hraw, by rw [hchannel], by rw [hchannel], by rw [hchannel], [],
    fun _ hg => (nomatch hg), ?_, ?_⟩
  · rw [hchannel]
    exact (List.append_nil _).symm
  · rw [List.length_nil, Nat.zero_add, Nat.zero_add]
    exact hout

theorem Answering.refl (a : Attached σ) : Answering 0 a a := .silent rfl rfl rfl (Nat.le_refl _)

theorem Answering.trans (h : Answering m a b) (h' : Answering n b c) : Answering (m + n) a c := by
  obtain ⟨sent, hsent, hout, hcost⟩ := h.outgoing
  obtain ⟨sent', hsent', hout', hcost'⟩ := h'.outgoing
  refine ⟨h'.terms.trans h.terms, h'.raw.trans h.raw, h'.incoming.trans h.incoming,
    h'.isOpen.trans h.isOpen, h'.description.trans h.description, sent ++ sent', ?_, ?_, ?_⟩
  · intro g hg
    rcases List.mem_append.mp hg with hg | hg
    · exact hsent g hg
    · exact hsent' g hg
  · rw [hout', hout, Link.layout_of_terms h.terms, List.map_append, List.append_assoc]
  · rw [List.length_append]
    omega

theorem Answering.mono (h : Answering m a b) (hmn : m ≤ n) : Answering n a b := by
  obtain ⟨sent, hsent, hout, hcost⟩ := h.outgoing
  exact ⟨h.terms, h.raw, h.incoming, h.isOpen, h.description, sent, hsent, hout, by omega⟩

theorem Answering.then (h : Answering m a b) {r : Outcome σ Unit} (h' : Answers n b r) :
    Answers (m + n) a r :=
  Outcome.Meets.imp h' (fun _ _ hc => h.trans hc) fun _ _ hc => ⟨h.trans hc.1, hc.2⟩

theorem Answers.mono {r : Outcome σ Unit} (h : Answers m a r) (hmn : m ≤ n) : Answers n a r :=
  Outcome.Meets.imp h (fun _ _ hc => hc.mono hmn) fun _ _ hc => ⟨hc.1.mono hmn, hc.2⟩

/-- an ack or a nak costs at most one -/
theorem answer_answers {g : Fragment} (hg : g.IsAnswer) (a : Attached σ) :
    Answers 1 a (answer g a) := by
  cases hopen : Medium.isOpen a.channel with
  | true =>
    obtain ⟨b, hb, hwrote⟩ := answer_open hopen g
    have hsent := hwrote.toSent
    rw [hb]
    refine ⟨hsent.terms, hsent.raw, hsent.incoming, hsent.isOpen, hsent.description, [g], ?_,
      hsent.outgoing, ?_⟩
    · intro f hf
      rw [List.mem_singleton.mp hf]
      exact hg
    · rw [hwrote.outbound]
      exact Nat.le_refl _
  | false =>
    obtain ⟨e, he⟩ := answer_closed hopen g
    rw [he]
    exact ⟨(Answering.refl a).mono (Nat.zero_le 1), rfl⟩

/-! ## one fragment -/

/-- an ack of an outbound bundle is paid for by the entry that it removes -/
theorem handleControl_answers (f : Fragment) (a : Attached σ) :
    Answers 0 a (handleControl f a) := by
  rw [handleControl]
  dsimp only
  split
  · exact Answering.silent rfl rfl rfl (Nat.le_refl _)
  · cases hout : a.link.outbound.get? f.key with
    | some fs =>
      dsimp only
      have hless := Table.size_erase_lt hout
      generalize hb : ({ a with
        link := { a.link with outbound := a.link.outbound.erase f.key } } : Attached σ) = b
      have hsize : b.link.outbound.size + 1 ≤ a.link.outbound.size := by
        rw [← hb]
        exact hless
      have hanswer := answer_answers ⟨f.key, .inl rfl⟩ b
      refine Outcome.Meets.imp hanswer (fun _ c hc => ?_) fun _ c hc => ⟨?_, hc.2⟩
      all_goals
        obtain ⟨hterms, hraw, hin, hopen, hdesc, sent, hsent, hwritten, hcost⟩ :=
          (by first | exact hc | exact hc.1 : Answering 1 b c)
        subst hb
        exact ⟨hterms, hraw, hin, hopen, hdesc, sent, hsent, hwritten, by omega⟩
    | none => exact Answering.silent rfl rfl rfl (Nat.le_refl _)

theorem reject_answers (k : Key) (why : Rejection) (a : Attached σ) :
    Answers 1 a (reject k why a) := by
  have herased : Answering 0 a ((a.warn (.rejected k why)).eraseInbound k) :=
    .silent rfl rfl rfl (Nat.le_refl _)
  rw [reject]
  split
  · exact herased.then (answer_answers ⟨k, .inr rfl⟩ _)
  · exact herased.mono (Nat.zero_le 1)

theorem finish_answers (k : Key) (asm : Assembly) (a : Attached σ) :
    Answers 1 a (finish k asm a) := by
  rw [finish]
  dsimp only
  split
  · exact ⟨(Answering.refl a).mono (Nat.zero_le 1), trivial⟩
  · exact reject_answers k _ a
  · generalize hb : a.putInbound k _ = b
    have hput : Answering 0 a b := by
      rw [← hb]
      exact .silent rfl rfl rfl (Nat.le_refl _)
    have hanswer := hput.then (answer_answers ⟨k, .inl rfl⟩ b)
    generalize answer (.ack k) b = r at hanswer
    cases r with
    | error e c => exact hanswer
    | ok _ c =>
      have hdone : Answering 1 a c := hanswer
      apply Answering.trans (n := 0) hdone
      exact .silent rfl rfl rfl (Nat.le_refl _)

theorem assemble_answers (k : Key) (f : Fragment) (now : Moment) (asm : Assembly)
    (a : Attached σ) : Answers 1 a (assemble k f now asm a) := by
  have hsilent (asm : Assembly) : Answering 1 a (a.putInbound k asm) := by
    apply Answering.mono (m := 0) _ (Nat.zero_le 1)
    exact .silent rfl rfl rfl (Nat.le_refl _)
  rw [assemble]
  split
  · exact hsilent _
  · exact reject_answers k _ a
  · split
    · exact ⟨(Answering.refl a).mono (Nat.zero_le 1), trivial⟩
    · dsimp only
      split
      · exact finish_answers k _ a
      · exact hsilent _

theorem handleBundle_answers (f : Fragment) (now : Moment) (a : Attached σ) :
    Answers f.asks.toNat a (handleBundle f now a) := by
  have hrefl := (Answering.refl a).mono (Nat.zero_le 1)
  rw [handleBundle]
  split
  · apply Answering.mono (m := 0) _ (Nat.zero_le _)
    exact .silent rfl rfl rfl (Nat.le_refl _)
  · rename_i hask
    have hasks : f.asks = true := by
      rw [Fragment.asks, decide_eq_false hask]
      rfl
    rw [hasks]
    show Answers 1 a _
    split
    · exact ⟨hrefl, trivial⟩
    · split
      · split
        · split
          · exact answer_answers ⟨f.key, .inl rfl⟩ a
          · exact hrefl
        · have herased : Answering 0 a (a.eraseInbound f.key) :=
            .silent rfl rfl rfl (Nat.le_refl _)
          exact herased.then (assemble_answers f.key f now _ _)
      · split
        · exact ⟨hrefl, trivial⟩
        · exact assemble_answers _ f now _ a

/-- What one fragment is answered costs one if it asks for that, and nothing otherwise. -/
theorem handle_answers (f : Fragment) (now : Moment) (a : Attached σ) :
    Answers f.asks.toNat a (handle f now a) := by
  rw [handle]
  split
  · exact (handleControl_answers f a).mono (Nat.zero_le _)
  · exact handleBundle_answers f now a

/-! ## one receive -/

theorem handleAll_answers (layout : Layout) (now : Moment) (fs : List Fragment) (a : Attached σ) :
    (handleAll now 0 (fs.map (Wire.whole layout)) a).Meets
      (fun _ b => Answering (fs.countP Fragment.asks) a b)
      (fun e b => Answering (fs.countP Fragment.asks) a b ∧ e.Ends) := by
  have hall := handleAll_meets layout now
    (I := fun gs b => ∃ m, Answering m a b ∧ m + gs.countP Fragment.asks = fs.countP Fragment.asks)
    (E := fun e b => Answering (fs.countP Fragment.asks) a b ∧ e.Ends) (fun f gs b hb => ?step)
    fs 0 a ⟨0, .refl a, Nat.zero_add _⟩
  case step =>
    obtain ⟨m, hb, hm⟩ := hb
    have hcount : (f :: gs).countP Fragment.asks = gs.countP Fragment.asks + f.asks.toNat := by
      rw [List.countP_cons]
      cases f.asks <;> rfl
    rw [hcount] at hm
    have harrived : Answering 0 b (b.arrived now) := .silent rfl rfl rfl (Nat.le_refl _)
    refine Outcome.Meets.imp ((hb.trans harrived).then (handle_answers f now (b.arrived now)))
      (fun _ c hc => ⟨_, hc, by omega⟩) fun _ c hc => ⟨hc.1.mono (by omega), hc.2⟩
  refine Outcome.Meets.imp hall (fun _ b hb => ?_) fun _ _ hb => hb
  obtain ⟨-, m, hb, hm⟩ := hb
  rw [List.countP_nil] at hm
  exact hb.mono (Nat.le_of_eq hm)

/-- From `a` to `b` the answers `sent` were written. -/
structure Emits (sent : List Fragment) (a b : Attached σ) : Prop where
  answers : ∀ g ∈ sent, g.IsAnswer
  layout : b.link.layout = a.link.layout
  description : Medium.description b.channel = Medium.description a.channel
  outgoing : Medium.outgoing b.channel = Medium.outgoing a.channel ++
    sent.map (Fragment.wire a.link.layout)

/-- After a receive that succeeded, of the fragments `fs` some were handled and the others are still
to come. -/
structure Heeded (layout : Layout) (fs : List Fragment) (a b : Attached σ) : Prop where
  terms : b.link.terms = a.link.terms
  progress : ∃ done todo sent, fs = done ++ todo ∧ b.stream = Fragment.wires layout todo ∧
    (∀ f, todo.head? = some f → b.link.raw.length < f.wireLength layout) ∧ Emits sent a b ∧
    sent.length + b.link.outbound.size ≤ done.countP Fragment.asks + a.link.outbound.size

/-- what is left when a receive failed -/
structure Deserted (fs : List Fragment) (a : Attached σ) (e : Failure LinkError) (b : Attached σ) :
    Prop where
  progress : ∃ sent, Emits sent a b ∧
    sent.length ≤ fs.countP Fragment.asks + a.link.outbound.size
  stopped : (∃ f, e = .fault f) ∨ b.link.connected = false

theorem Emits.shut {sent : List Fragment} (h : Emits sent a b) (h' : Shut b c) :
    Emits sent a c :=
  ⟨h.answers, h'.layout.trans h.layout, h'.description.trans h.description,
    h'.outgoing.trans h.outgoing⟩

theorem Moved.answering {done : List Fragment} (h : Moved a b)
    (h' : Answering (done.countP Fragment.asks) b c) :
    ∃ sent, Emits sent a c ∧
      sent.length + c.link.outbound.size ≤ done.countP Fragment.asks + a.link.outbound.size := by
  obtain ⟨sent, hsent, hout, hcost⟩ := h'.outgoing
  have hlayout := Link.layout_of_terms h.terms
  refine ⟨sent, ⟨hsent, (Link.layout_of_terms h'.terms).trans hlayout,
    h'.description.trans h.description, ?_⟩, ?_⟩
  · rw [hout, h.outgoing, hlayout]
  · rw [← h.outbound]
    exact hcost

theorem receiveBundles_heeds {layout : Layout} {fs : List Fragment}
    (hlayout : a.link.layout = layout) (hfits : ∀ f ∈ fs, f.Fits layout)
    (hstream : a.stream = Fragment.wires layout fs) (now : Moment) :
    (receiveBundles now a).Meets (fun _ b => Heeded layout fs a b)
      (fun e b => (∃ sent, Emits sent a b ∧
        sent.length ≤ fs.countP Fragment.asks + a.link.outbound.size) ∧ e.Ends) := by
  cases hended : a.intake.ended with
  | error e =>
    have hnothing : Answering (([] : List Fragment).countP Fragment.asks) a.filled a.filled :=
      .refl _
    obtain ⟨sent, hsent, hcost⟩ := (moved_filled a).answering hnothing
    rw [receiveBundles_failed hended]
    exact ⟨⟨sent, hsent, Nat.le_trans (Nat.le_of_add_right_le hcost)
      (Nat.add_le_add_right (Nat.zero_le _) _)⟩, rfl⟩
  | ok ended =>
    obtain ⟨done, todo, rfl, -, hloaded, -, heq⟩ :=
      receiveBundles_loaded hlayout hfits hstream hended now
    have hall := handleAll_answers layout now done a.loaded
    have hle : done.countP Fragment.asks ≤ (done ++ todo).countP Fragment.asks := by
      rw [List.countP_append]
      exact Nat.le_add_right _ _
    rw [heq]
    generalize handleAll now 0 (done.map (Wire.whole layout)) a.loaded = r at hall
    cases r with
    | error e c =>
      obtain ⟨hanswering, hends⟩ := hall
      obtain ⟨sent, hsent, hcost⟩ := hloaded.toMoved.answering hanswering
      exact ⟨⟨sent, hsent, by omega⟩, hends⟩
    | ok count c =>
      have hanswering : Answering (done.countP Fragment.asks) a.loaded c := hall
      have hpurged {d : Attached σ} (hd : Purged now c d) :
          Answering (done.countP Fragment.asks) a.loaded d :=
        hanswering.trans (.silent hd.terms hd.raw hd.channel (Nat.le_of_eq (by rw [hd.outbound])))
      refine Outcome.Meets.imp (conclude_meets now ended count c) (fun _ d hd => ?_)
        fun e d hd => ⟨?_, hd.2⟩
      · have hfinal := hpurged hd.1
        obtain ⟨sent, hsent, hcost⟩ := hloaded.toMoved.answering hfinal
        refine ⟨hfinal.terms.trans hloaded.terms, done, todo, sent, rfl, ?_, ?_, hsent, hcost⟩
        · rw [stream, hfinal.raw, hfinal.incoming]
          exact hloaded.stream
        · rw [hfinal.raw]
          exact hloaded.short
      · obtain ⟨sent, hsent, hcost⟩ := hloaded.toMoved.answering (hpurged hd.1)
        exact ⟨sent, hsent, by omega⟩

/-- What a receive writes are answers to the fragments that it handled, and when it fails nothing
more will be written. -/
theorem receive_heeds {layout : Layout} {fs : List Fragment} (hopen : a.link.connected = true)
    (hlayout : a.link.layout = layout) (hfits : ∀ f ∈ fs, f.Fits layout)
    (hstream : a.stream = Fragment.wires layout fs) (now : Moment) :
    (receive now a).Meets (fun _ b => Heeded layout fs a b) (Deserted fs a) := by
  have hends (e : Failure LinkError) (b : Attached σ) (hb : (∃ sent, Emits sent a b ∧
      sent.length ≤ fs.countP Fragment.asks + a.link.outbound.size) ∧ e.Ends) : e.Ends := hb.2
  rw [receive, if_pos hopen]
  refine (settle_meets (receiveBundles_heeds hlayout hfits hstream now) hends).imp
    (fun _ _ hb => hb) fun e c hc => ?_
  obtain ⟨b, ⟨⟨sent, hsent, hcost⟩, -⟩, ⟨f, rfl, rfl⟩ | ⟨-, hshut⟩⟩ := hc
  · exact ⟨⟨sent, hsent, hcost⟩, .inl ⟨f, rfl⟩⟩
  · exact ⟨⟨sent, hsent.shut hshut, hcost⟩, .inr hshut.closed⟩

end Attached

end BundleLink
