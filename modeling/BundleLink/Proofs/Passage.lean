import BundleLink.Proofs.Course

/-!
# Messages on their way while the clock stands still

A receiver whose clock does not move and whose medium takes all acks makes ready, one after the
other, all bundles of a correct peer. This holds for any keys that the peer chooses, as long as no
two bundles have the same one, and for any keys of the acks between them.

* `Passage`          which messages are on their way, and what the receiver holds of them;
* `Passage.acked`, `Passage.added`, `Passage.completed`, `Passage.purged`  what a receive does;
* `Passage.sent`     what the peer does;
* `Progress`         what one fragment can do to messages and tables;
* `Passage.handle`   one fragment never fails, and makes progress.
-/

namespace BundleLink

/-- the keys of the bundles among messages -/
def Message.bundleKeys : List Message → List Key
  | [] => []
  | .bundle k _ _ :: ms => k :: bundleKeys ms
  | .ack _ :: ms => bundleKeys ms

/-- acks for these keys -/
abbrev acks (ks : List Key) : List Message := ks.map Message.ack

namespace Message

theorem mem_bundleKeys {ms : List Message} {k : Key} :
    k ∈ bundleKeys ms ↔ ∃ buffer parts, .bundle k buffer parts ∈ ms := by
  induction ms with
  | nil => simp [bundleKeys]
  | cons m ms ih =>
    cases m with
    | bundle j buffer parts =>
      simp only [bundleKeys, List.mem_cons, ih, bundle.injEq]
      constructor
      · rintro (rfl | ⟨b, ps, h⟩)
        · exact ⟨buffer, parts, .inl ⟨rfl, rfl, rfl⟩⟩
        · exact ⟨b, ps, .inr h⟩
      · rintro ⟨b, ps, ⟨rfl, -, -⟩ | h⟩
        · exact .inl rfl
        · exact .inr ⟨b, ps, h⟩
    | ack j => simp [bundleKeys, ih]

@[simp] theorem bundleKeys_append (ms ms' : List Message) :
    bundleKeys (ms ++ ms') = bundleKeys ms ++ bundleKeys ms' := by
  induction ms with
  | nil => rfl
  | cons m ms ih => cases m <;> simp [bundleKeys, ih]

@[simp] theorem bundleKeys_acks (ks : List Key) : bundleKeys (acks ks) = [] := by
  induction ks with
  | nil => rfl
  | cons k ks ih => exact ih

theorem flatMap_fragments_acks (ks : List Key) :
    (acks ks).flatMap fragments = ks.map Fragment.ack := by
  induction ks with
  | nil => rfl
  | cons k ks ih => exact congrArg (Fragment.ack k :: ·) ih

theorem flatMap_buffers_acks (ks : List Key) : (acks ks).flatMap buffers = [] := by
  induction ks with
  | nil => rfl
  | cons k ks ih => exact ih

end Message

/-- The messages `pending` are on their way to a receiver with the table `inbound`, which has put
`delivered` into its queue, has handled the fragments `seen` of the first message, and has still to
handle `todo`. The sender has given its bundles numbers below `n` and accepted the buffers
`accepted`. The receiver's clock stands at `now`. -/
structure Passage (layout : Layout) (n : UInt64) (accepted delivered : List Bytes) (now : Moment)
    (inbound : Table Key Assembly) (pending : List Message) (seen todo : List Fragment) : Prop where
  cursor : Cursor pending seen todo
  intact : ∀ m ∈ pending, m.Intact layout
  numbered : ∀ k ∈ Message.bundleKeys pending, k.message < n
  distinct : (Message.bundleKeys pending).Nodup
  accounts : accepted = delivered ++ pending.flatMap Message.buffers
  stored : ∀ k asm, inbound.get? k = some asm → k.message < n
  partly : ∀ k buffer parts ms, pending = .bundle k buffer parts :: ms →
    Attached.Partial parts seen (inbound.get? k) ∧
      (seen ≠ [] → ∀ asm, inbound.get? k = some asm → asm.lastArrival = now)
  fresh : ∀ m ms, pending = m :: ms → ∀ k ∈ Message.bundleKeys ms, inbound.get? k = none

namespace Passage

variable {layout : Layout} {n n' : UInt64} {accepted delivered : List Bytes} {now : Moment}
  {inbound inbound' : Table Key Assembly} {pending ms : List Message}
  {seen todo rest more : List Fragment} {f : Fragment} {k : Key} {buffer : Bytes}
  {parts : List Fragment}

theorem fits (h : Passage layout n accepted delivered now inbound pending seen todo) :
    ∀ f ∈ todo, f.Fits layout := by
  intro f hf
  have hmem : f ∈ pending.flatMap Message.fragments := by
    rw [← h.cursor.split]
    exact List.mem_append_right seen hf
  obtain ⟨m, hm, hfm⟩ := List.mem_flatMap.mp hmem
  exact (h.intact m hm).fits f hfm

theorem parts_of_head
    (h : Passage layout n accepted delivered now inbound (.bundle k buffer parts :: ms) seen todo) :
    Bundle.Parts layout k buffer parts := h.intact _ List.mem_cons_self

theorem later_ne
    (h : Passage layout n accepted delivered now inbound (.bundle k buffer parts :: ms) seen todo)
    {j : Key} (hj : j ∈ Message.bundleKeys ms) : j ≠ k := by
  rintro rfl
  exact (List.nodup_cons.mp h.distinct).1 hj

/-- when nothing is left to handle, all bundles have become ready -/
theorem all_delivered (h : Passage layout n accepted delivered now inbound pending seen []) :
    delivered = accepted := by
  obtain ⟨rfl, -⟩ := h.cursor.pending_nil
  rw [h.accounts]
  exact (List.append_nil _).symm

theorem empty (layout : Layout) {n : UInt64} (accepted : List Bytes) (now : Moment) :
    Passage layout n accepted accepted now .empty [] [] [] :=
  ⟨.empty, fun _ hm => (nomatch hm), fun _ hk => (nomatch hk), List.nodup_nil,
    (List.append_nil _).symm, fun _ _ hk => (nomatch hk), fun _ _ _ _ hp => (nomatch hp),
    fun _ _ hp => (nomatch hp)⟩

/-! ## what a receive does -/

/-- Nothing of the message behind the first one is there yet, so it may be the next one. -/
theorem behind {m : Message} {delivered' : List Bytes}
    (h : Passage layout n accepted delivered now inbound (m :: ms) seen todo)
    (hcursor : Cursor ms [] rest) (haccounts : delivered' = delivered ++ m.buffers)
    (hstored : ∀ j asm, inbound'.get? j = some asm → j.message < n)
    (hfresh : ∀ j ∈ Message.bundleKeys ms, inbound'.get? j = none) :
    Passage layout n accepted delivered' now inbound' ms [] rest := by
  have hkeys : Message.bundleKeys (m :: ms) = Message.bundleKeys [m] ++ Message.bundleKeys ms :=
    Message.bundleKeys_append [m] ms
  have hnumbered := h.numbered
  have hdistinct := h.distinct
  rw [hkeys] at hnumbered hdistinct
  refine ⟨hcursor, fun m' hm' => h.intact m' (List.mem_cons_of_mem m hm'),
    fun k hk => hnumbered k (List.mem_append_right _ hk), (List.nodup_append.mp hdistinct).2.1, ?_,
    hstored, ?_, ?_⟩
  · rw [h.accounts, haccounts, List.flatMap_cons, List.append_assoc]
  · rintro k buffer parts rest rfl
    rw [hfresh k List.mem_cons_self]
    exact ⟨fun f _ => List.not_mem_nil, fun hne => absurd rfl hne⟩
  · rintro m' ms' rfl k hk
    exact hfresh k (Message.bundleKeys_append [m'] ms' ▸ List.mem_append_right _ hk)

/-- an ack may drop the entry for its key, whichever that is -/
theorem acked (h : Passage layout n accepted delivered now inbound (.ack k :: ms) [] (f :: todo))
    (hinbound : ∀ j, inbound'.get? j = none ∨ inbound'.get? j = inbound.get? j) :
    Passage layout n accepted delivered now inbound' ms [] todo := by
  obtain ⟨m, ms', more, hpending, hm, -⟩ := h.cursor.next
  cases hpending
  have hone : [Fragment.ack k] = f :: more := hm
  have hlast : (Message.ack k).fragments = [] ++ [f] := by
    rw [← (List.cons.inj hone).1]
    rfl
  refine h.behind (h.cursor.done hlast fun m hm =>
    (h.intact m (List.mem_cons_of_mem _ hm)).fragments_ne) (List.append_nil _).symm ?_ ?_
  · intro j asm hj
    rcases hinbound j with hnone | hsame
    · rw [hnone] at hj
      cases hj
    · exact h.stored j asm (hsame ▸ hj)
  · intro j hj
    rcases hinbound j with hnone | hsame
    · exact hnone
    · rw [hsame]
      exact h.fresh _ _ rfl j hj

theorem added {asm : Assembly}
    (h : Passage layout n accepted delivered now inbound (.bundle k buffer parts :: ms) seen
      (f :: rest))
    (hparts : parts = seen ++ f :: more) (hmore : more ≠ [])
    (hothers : ∀ j, j ≠ k → inbound'.get? j = inbound.get? j)
    (hentry : inbound'.get? k = some asm) (hholds : asm.Holds parts (f :: seen))
    (hrecent : asm.lastArrival = now) :
    Passage layout n accepted delivered now inbound' (.bundle k buffer parts :: ms) (seen ++ [f])
      rest := by
  refine ⟨h.cursor.further hparts hmore, h.intact, h.numbered, h.distinct, h.accounts, ?_, ?_, ?_⟩
  · intro j asm' hj
    by_cases hjk : j = k
    · rw [hjk]
      exact h.numbered k List.mem_cons_self
    · exact h.stored j asm' (hothers j hjk ▸ hj)
  · rintro k' buffer' parts' ms' heq
    cases heq
    rw [hentry]
    refine ⟨Attached.Partial.congr (o := some asm) hholds fun g _ => by simp [or_comm], ?_⟩
    rintro - asm' hasm
    rw [← Option.some.inj hasm]
    exact hrecent
  · rintro m' ms' heq j hj
    cases heq
    rw [hothers j (h.later_ne hj)]
    exact h.fresh _ _ rfl j hj

theorem completed
    (h : Passage layout n accepted delivered now inbound (.bundle k buffer parts :: ms) seen
      (f :: rest))
    (hparts : parts = seen ++ [f]) (hothers : ∀ j, j ≠ k → inbound'.get? j = inbound.get? j) :
    Passage layout n accepted (delivered ++ [buffer]) now inbound' ms [] rest := by
  refine h.behind (h.cursor.done hparts fun m hm =>
    (h.intact m (List.mem_cons_of_mem _ hm)).fragments_ne) rfl ?_ ?_
  · intro j asm hj
    by_cases hjk : j = k
    · rw [hjk]
      exact h.numbered k List.mem_cons_self
    · exact h.stored j asm (hothers j hjk ▸ hj)
  · intro j hj
    rw [hothers j (h.later_ne hj)]
    exact h.fresh _ _ rfl j hj

/-- the look at the clock does not drop the bundle under assembly -/
theorem purged {settings : Settings}
    (h : Passage layout n accepted delivered now inbound pending seen todo)
    (hinbound : ∀ k, inbound'.get? k =
      (inbound.get? k).filter fun asm => !Attached.isOverdue settings now asm) :
    Passage layout n accepted delivered now inbound' pending seen todo := by
  have hsub (k : Key) : inbound'.get? k = none ∨ inbound'.get? k = inbound.get? k := by
    rw [hinbound]
    cases inbound.get? k with
    | none => exact .inl rfl
    | some asm =>
      cases hover : Attached.isOverdue settings now asm with
      | true => exact .inl (by simp [Option.filter, hover])
      | false => exact .inr (by simp [Option.filter, hover])
  refine ⟨h.cursor, h.intact, h.numbered, h.distinct, h.accounts, ?_, ?_, ?_⟩
  · intro k asm hk
    rcases hsub k with hnone | hsame
    · rw [hnone] at hk
      cases hk
    · exact h.stored k asm (hsame ▸ hk)
  · intro k buffer parts ms hpending
    obtain ⟨hpartly, hrecent⟩ := h.partly k buffer parts ms hpending
    rcases hsub k with hnone | hsame
    · rw [hnone]
      refine ⟨fun f hf hseen => ?_, fun _ _ hasm => (nomatch hasm)⟩
      -- what was dropped held nothing, for else it would be recent
      cases hold : inbound.get? k with
      | none =>
        rw [hold] at hpartly
        exact hpartly f hf hseen
      | some asm =>
        rw [hold] at hpartly
        have hunfinished : asm.complete = false := Assembly.Holds.unfinished hpartly
        have hkeep : Attached.isOverdue settings now asm = false := by
          rw [Attached.isOverdue, hunfinished, hrecent (List.ne_nil_of_mem hseen) asm hold,
            Moment.since_self]
          simp [Span.zero]
        rw [hinbound, hold] at hnone
        simp [Option.filter, hkeep] at hnone
    · rw [hsame]
      exact ⟨hpartly, hrecent⟩
  · intro m ms hpending k hk
    rcases hsub k with hnone | hsame
    · exact hnone
    · rw [hsame]
      exact h.fresh m ms hpending k hk

/-! ## what the peer does -/

/-- messages behind all others: acks for any keys, and bundles with new ones -/
theorem sent {accepted' : List Bytes} {sent : List Message}
    (h : Passage layout n accepted delivered now inbound pending seen todo) (hn : n ≤ n')
    (hintact : ∀ m ∈ sent, m.Intact layout)
    (hnew : ∀ k ∈ Message.bundleKeys sent, n ≤ k.message ∧ k.message < n')
    (hdistinct : (Message.bundleKeys sent).Nodup)
    (haccepted : accepted' = accepted ++ sent.flatMap Message.buffers) :
    Passage layout n' accepted' delivered now inbound (pending ++ sent) seen
      (todo ++ sent.flatMap Message.fragments) := by
  have hnone (k : Key) (hk : k ∈ Message.bundleKeys sent) : inbound.get? k = none := by
    cases hget : inbound.get? k with
    | none => rfl
    | some asm =>
      have hlt := h.stored k asm hget
      exact absurd (UInt64.lt_of_lt_of_le hlt (hnew k hk).1) (UInt64.lt_irrefl _)
  refine ⟨h.cursor.append fun m hm => (hintact m hm).fragments_ne, ?_, ?_, ?_, ?_, ?_, ?_, ?_⟩
  · intro m hm
    rcases List.mem_append.mp hm with hm | hm
    · exact h.intact m hm
    · exact hintact m hm
  · intro k hk
    rw [Message.bundleKeys_append] at hk
    rcases List.mem_append.mp hk with hk | hk
    · exact UInt64.lt_of_lt_of_le (h.numbered k hk) hn
    · exact (hnew k hk).2
  · rw [Message.bundleKeys_append]
    refine List.nodup_append.mpr ⟨h.distinct, hdistinct, ?_⟩
    rintro k hk _ hk' rfl
    exact UInt64.lt_irrefl _ (UInt64.lt_of_lt_of_le (h.numbered k hk) (hnew k hk').1)
  · rw [haccepted, h.accounts, List.flatMap_append, List.append_assoc]
  · exact fun k asm hk => UInt64.lt_of_lt_of_le (h.stored k asm hk) hn
  · intro k buffer parts ms hpending
    cases pending with
    | nil =>
      have hhead : k ∈ Message.bundleKeys sent :=
        Message.mem_bundleKeys.mpr ⟨buffer, parts, by
          rw [List.nil_append] at hpending
          rw [hpending]
          exact List.mem_cons_self⟩
      rw [hnone k hhead, h.cursor.seen_nil]
      exact ⟨fun f _ => List.not_mem_nil, fun hne => absurd rfl hne⟩
    | cons m ms' =>
      obtain ⟨rfl, -⟩ := List.cons.inj hpending
      exact h.partly k buffer parts ms' rfl
  · intro m ms hpending k hk
    cases pending with
    | nil =>
      rw [List.nil_append] at hpending
      refine hnone k ?_
      rw [hpending, show m :: ms = [m] ++ ms from rfl, Message.bundleKeys_append]
      exact List.mem_append_right _ hk
    | cons m' ms' =>
      obtain ⟨rfl, rfl⟩ : m' = m ∧ ms' ++ sent = ms := List.cons.inj hpending
      rw [Message.bundleKeys_append] at hk
      rcases List.mem_append.mp hk with hk | hk
      · exact h.fresh m' ms' rfl k hk
      · exact hnone k hk

theorem sent_acks (h : Passage layout n accepted delivered now inbound pending seen todo)
    (ks : List Key) :
    Passage layout n accepted delivered now inbound (pending ++ acks ks) seen
      (todo ++ ks.map Fragment.ack) := by
  rw [← Message.flatMap_fragments_acks]
  refine h.sent (UInt64.le_refl n) ?_ ?_ ?_ ?_
  · intro m hm
    obtain ⟨k, -, rfl⟩ := List.mem_map.mp hm
    trivial
  · intro k hk
    rw [Message.bundleKeys_acks] at hk
    cases hk
  · rw [Message.bundleKeys_acks]
    exact List.nodup_nil
  · rw [Message.flatMap_buffers_acks, List.append_nil]

theorem sent_bundle (h : Passage layout n accepted delivered now inbound pending seen todo)
    (hn : n < n') (hparts : Bundle.Parts layout k buffer parts) (hk : k.message = n) :
    Passage layout n' (accepted ++ [buffer]) delivered now inbound
      (pending ++ [.bundle k buffer parts]) seen (todo ++ parts) := by
  have hone : [Message.bundle k buffer parts].flatMap Message.fragments = parts :=
    List.append_nil _
  have h1 : Passage layout n' (accepted ++ [buffer]) delivered now inbound
      (pending ++ [.bundle k buffer parts]) seen
      (todo ++ [Message.bundle k buffer parts].flatMap Message.fragments) :=
    h.sent (UInt64.le_of_lt hn) ?_ ?_ (List.nodup_cons.mpr ⟨List.not_mem_nil, List.nodup_nil⟩) rfl
  · rw [hone] at h1
    exact h1
  · intro m hm
    rw [List.mem_singleton.mp hm]
    exact hparts
  · intro j hj
    rw [List.mem_singleton.mp hj, hk]
    exact ⟨UInt64.le_refl n, hn⟩

end Passage

/-! ## one fragment -/

section
variable {σ : Type} [Channel σ] [Medium σ]

/-- What a fragment can do, from `a` to `b`, where the messages `pending` were on their way and the
fragments `seen` of the first one were handled before, and `pending'` and `seen'` are afterwards.
Acks for `ks` were written. -/
inductive Progress (now : Moment) (a b : Attached σ) :
    List Message → List Fragment → List Message → List Fragment → List Key → Prop
  /-- a bundle that was sent is acknowledged -/
  | confirmed (k : Key) (ms : List Message) (proper : k.isProper = true)
      (known : a.link.outbound.get? k ≠ none) (ready : b.link.ready = a.link.ready)
      (inbound : b.link.inbound = a.link.inbound)
      (outbound : ∀ j, b.link.outbound.get? j = if j = k then none else a.link.outbound.get? j) :
      Progress now a b (.ack k :: ms) [] ms [] [k]
  /-- an ack is acknowledged, so the bundle is not kept any longer -/
  | forgotten (k : Key) (ms : List Message) (proper : k.isProper = true)
      (unknown : a.link.outbound.get? k = none) (ready : b.link.ready = a.link.ready)
      (outbound : b.link.outbound = a.link.outbound)
      (inbound : ∀ j, b.link.inbound.get? j = if j = k then none else a.link.inbound.get? j) :
      Progress now a b (.ack k :: ms) [] ms [] []
  /-- an ack for a key with a zero in it is dropped -/
  | stray (k : Key) (ms : List Message) (improper : k.isProper = false)
      (ready : b.link.ready = a.link.ready) (outbound : b.link.outbound = a.link.outbound)
      (inbound : b.link.inbound = a.link.inbound) : Progress now a b (.ack k :: ms) [] ms [] []
  /-- a bundle gets one more fragment, but not its last one -/
  | added (k : Key) (buffer : Bytes) (parts seen : List Fragment) (ms : List Message) (f : Fragment)
      (asm : Assembly) (ready : b.link.ready = a.link.ready)
      (outbound : b.link.outbound = a.link.outbound)
      (others : ∀ j, j ≠ k → b.link.inbound.get? j = a.link.inbound.get? j)
      (entry : b.link.inbound.get? k = some asm) (unfinished : asm.complete = false) :
      Progress now a b (.bundle k buffer parts :: ms) seen (.bundle k buffer parts :: ms)
        (seen ++ [f]) []
  /-- a bundle gets its last fragment -/
  | completed (k : Key) (buffer : Bytes) (parts seen : List Fragment) (ms : List Message)
      (asm : Assembly) (ready : b.link.ready = a.link.ready ++ [buffer])
      (outbound : b.link.outbound = a.link.outbound)
      (others : ∀ j, j ≠ k → b.link.inbound.get? j = a.link.inbound.get? j)
      (entry : b.link.inbound.get? k = some asm) (finished : asm.complete = true) :
      Progress now a b (.bundle k buffer parts :: ms) seen ms [] [k]

/-- What the handling of the fragment in front of `rest` comes to. -/
structure Advanced (layout : Layout) (n : UInt64) (accepted taken : List Bytes) (now : Moment)
    (a : Attached σ) (pending : List Message) (seen rest : List Fragment) (b : Attached σ)
    (pending' : List Message) (seen' : List Fragment) (ks : List Key) : Prop where
  sent : Attached.Sent (ks.map Fragment.ack) a b
  few : ks.length ≤ 1
  progress : Progress now a b pending seen pending' seen' ks
  passage : Passage layout n accepted (taken ++ b.link.ready) now b.link.inbound pending' seen' rest

variable {layout : Layout} {n : UInt64} {accepted taken : List Bytes} {now : Moment}
  {a b : Attached σ} {pending ms : List Message} {seen rest more : List Fragment} {f : Fragment}
  {k : Key} {buffer : Bytes} {parts : List Fragment}

omit [Medium σ] in
theorem handle_stray (hk : k.isProper = false) (now : Moment) (a : Attached σ) :
    Attached.handle (.ack k) now a = .ok () (a.warn (.strayControl Fragment.ackLength k)) := by
  have hcontrol : ¬ (Fragment.ack k).isControl = true := by
    have hkey : (Fragment.ack k).key = k := rfl
    rw [Fragment.isControl, hkey, hk]
    simp
  have hzero : (Fragment.ack k).number = 0 ∧ (Fragment.ack k).length ≤ 0 :=
    ⟨rfl, by show Fragment.ackLength ≤ 0; decide⟩
  rw [Attached.handle, if_neg hcontrol, Attached.handleBundle]
  exact if_pos hzero

theorem Passage.handle_ack
    (h : Passage layout n accepted (taken ++ a.link.ready) now a.link.inbound (.ack k :: ms) []
      (.ack k :: rest)) (hopen : Medium.isOpen a.channel = true) :
    ∃ b ks, Attached.handle (.ack k) now a = .ok () b ∧
      Advanced layout n accepted taken now a (.ack k :: ms) [] rest b ms [] ks := by
  cases hk : k.isProper with
  | false =>
    have hdone := h.acked fun _ => .inr rfl
    exact ⟨_, [], handle_stray hk now a, .of_core rfl rfl, Nat.zero_le 1,
      .stray k ms hk rfl rfl rfl, hdone⟩
  | true =>
    generalize hr : Attached.handle (.ack k) now a = r
    have hcases := Attached.handle_ack hk now a
    rw [hr] at hcases
    cases hcases with
    | confirmed b fs known sent ready inbound outbound =>
      refine ⟨b, [k], rfl, sent, Nat.le_refl 1,
        .confirmed k ms hk (by rw [known]; exact Option.some_ne_none fs) ready inbound outbound, ?_⟩
      rw [ready, inbound]
      exact h.acked fun _ => .inr rfl
    | unanswered e b fs known isOpen sent ready =>
      rw [hopen] at isOpen
      cases isOpen
    | forgotten b unknown sent ready outbound inbound =>
      refine ⟨b, [], rfl, sent, Nat.zero_le 1,
        .forgotten k ms hk unknown ready outbound inbound, ?_⟩
      rw [ready]
      refine h.acked fun j => ?_
      rw [inbound]
      split
      · exact .inl rfl
      · exact .inr rfl

theorem Passage.handle_part
    (h : Passage a.link.layout n accepted (taken ++ a.link.ready) now a.link.inbound
      (.bundle k buffer parts :: ms) seen (f :: rest)) (hparts : parts = seen ++ f :: more)
    (hopen : Medium.isOpen a.channel = true)
    (hdeadline : ∀ m, m ≤ Fragment.maxCount + 1 → ∃ d, a.link.deadline now m = .ok d) :
    ∃ b pending' seen' ks, Attached.handle f now a = .ok () b ∧
      Advanced a.link.layout n accepted taken now a (.bundle k buffer parts :: ms) seen rest b
        pending' seen' ks := by
  have hp := h.parts_of_head
  have hf : f ∈ parts := by
    rw [hparts]
    exact List.mem_append_right seen List.mem_cons_self
  have hlast := hp.all_seen_iff hparts
  generalize hr : Attached.handle f now a = r
  have hcases : Attached.PartResult now k buffer parts seen f a r := by
    rw [← hr]
    exact Attached.handle_part hp hf (h.partly k buffer parts ms rfl).1
  cases hcases with
  | faulted e b m e' touched ready bound cause =>
    obtain ⟨d, hd⟩ := hdeadline m bound
    rw [hd] at cause
    cases cause
  | unanswered e b _ _ isOpen touched ready =>
    rw [hopen] at isOpen
    cases isOpen
  | repeated b old => exact absurd old (hp.unseen hparts)
  | added b asm _ unfinished touched ready entry holds recent =>
    have hmore : more ≠ [] := fun h0 => unfinished (hlast.mpr h0)
    refine ⟨b, _, _, [], rfl, touched.toSent, Nat.zero_le 1,
      .added k buffer parts seen ms f asm ready touched.outbound touched.others entry
        holds.unfinished, ?_⟩
    rw [ready]
    exact h.added hparts hmore touched.others entry holds recent
  | completed b asm m _ finished _ touched ready entry complete =>
    have hmore : more = [] := hlast.mp finished
    subst hmore
    refine ⟨b, _, _, [k], rfl, touched.toSent, Nat.le_refl 1,
      .completed k buffer parts seen ms asm ready touched.outbound touched.others entry complete,
      ?_⟩
    rw [ready, ← List.append_assoc]
    exact h.completed hparts touched.others

/-- A fragment is handled without failure where the medium takes acks and no deadline is too late,
and the messages make progress. -/
theorem Passage.handle
    (h : Passage a.link.layout n accepted (taken ++ a.link.ready) now a.link.inbound pending seen
      (f :: rest)) (hopen : Medium.isOpen a.channel = true)
    (hdeadline : ∀ m, m ≤ Fragment.maxCount + 1 → ∃ d, a.link.deadline now m = .ok d) :
    ∃ b pending' seen' ks, Attached.handle f now a = .ok () b ∧
      Advanced a.link.layout n accepted taken now a pending seen rest b pending' seen' ks := by
  obtain ⟨m, ms, more, rfl, hm, -⟩ := h.cursor.next
  cases m with
  | bundle k buffer parts => exact h.handle_part hm hopen hdeadline
  | ack k =>
    have hone : [Fragment.ack k] = seen ++ f :: more := hm
    cases seen with
    | nil =>
      obtain ⟨rfl, -⟩ := List.cons.inj hone
      obtain ⟨b, ks, hb, hadvanced⟩ := h.handle_ack hopen
      exact ⟨b, ms, [], ks, hb, hadvanced⟩
    | cons g seen =>
      have hlen := congrArg List.length hone
      simp only [List.length_cons, List.length_append, List.length_nil] at hlen
      omega

end

end BundleLink
