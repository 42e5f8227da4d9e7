import BundleLink.Proofs.Passage

/-!
# Who waits for which ack

A bundle that was written is outbound until its ack comes back, and a bundle that was received is
kept until the ack for that ack comes. Nothing is forgotten in between: whatever a table holds, a
message about it is still on its way, to one side or the other.

* `Balance`            the bundles of one side, seen from both ends;
* `Balance.speaks`     what the side itself does when a fragment arrives;
* `Balance.listens`    what its peer does;
* `Balance.wrote`      the side writes a bundle;
* `Balance.settled`    with no message on its way, both tables are empty.
-/

namespace BundleLink

/-- The bundles of a side with the generations `own` that gives its next bundle the number `n`. The
side keeps the table `outbound`, and its peer the table `inbound`; the messages `there` are on their
way to the peer, and `back` on their way from it. -/
structure Balance (own : UInt64 → Prop) (n : UInt64) (outbound : Table Key (List Fragment))
    (inbound : Table Key Assembly) (there back : List Message) : Prop where
  first : n ≠ 0
  owned : ∀ k, outbound.get? k ≠ none → k.isProper = true ∧ own k.generation
  /-- a bundle that is on its way is outbound, and was not acknowledged -/
  unanswered : ∀ k ∈ Message.bundleKeys there, outbound.get? k ≠ none ∧ .ack k ∉ back
  /-- an outbound bundle is on its way, or its ack is -/
  awaited : ∀ k, outbound.get? k ≠ none → k ∈ Message.bundleKeys there ∨ .ack k ∈ back
  numbered : ∀ k, .ack k ∈ back → k.isProper = true ∧ (own k.generation → k.message < n)
  held : ∀ k asm, inbound.get? k = some asm → own k.generation
  /-- a finished bundle is not acknowledged yet, or the ack for its ack is on its way -/
  kept : ∀ k asm, inbound.get? k = some asm → asm.complete = true →
    outbound.get? k ≠ none ∨ .ack k ∈ there
  /-- an unfinished bundle is the one whose fragments come next -/
  begun : ∀ k asm, inbound.get? k = some asm → asm.complete = false →
    ∃ buffer parts ms, there = .bundle k buffer parts :: ms

namespace Balance

variable {own peers : UInt64 → Prop} {n n' m : UInt64}
  {outbound outbound' : Table Key (List Fragment)}
  {inbound inbound' : Table Key Assembly} {there back ms : List Message} {k : Key}

theorem empty (own : UInt64 → Prop) (hn : n ≠ 0) : Balance own n .empty .empty [] [] :=
  ⟨hn, fun _ hk => absurd rfl hk, fun _ hk => (nomatch hk), fun _ hk => absurd rfl hk,
    fun _ hk => (nomatch hk), fun _ _ hk => (nomatch hk), fun _ _ hk => (nomatch hk),
    fun _ _ hk => (nomatch hk)⟩

/-- with nothing on its way, there is nothing to wait for -/
theorem settled (h : Balance own n outbound inbound [] []) (k : Key) :
    outbound.get? k = none ∧ inbound.get? k = none := by
  have hout (j : Key) : outbound.get? j = none := by
    cases hget : outbound.get? j with
    | none => rfl
    | some fs => rcases h.awaited j (by simp [hget]) with hj | hj <;> cases hj
  refine ⟨hout k, ?_⟩
  cases hget : inbound.get? k with
  | none => rfl
  | some asm =>
    cases hc : asm.complete with
    | true =>
      rcases h.kept k asm hget hc with hk | hk
      · exact absurd (hout k) hk
      · cases hk
    | false =>
      obtain ⟨_, _, _, hnil⟩ := h.begun k asm hget hc
      cases hnil

/-! ## messages behind all others -/

theorem there_acks (h : Balance own n outbound inbound there back) (ks : List Key) :
    Balance own n outbound inbound (there ++ acks ks) back := by
  have hkeys : Message.bundleKeys (there ++ acks ks) = Message.bundleKeys there := by
    rw [Message.bundleKeys_append, Message.bundleKeys_acks, List.append_nil]
  refine ⟨h.first, h.owned, ?_, ?_, h.numbered, h.held, ?_, ?_⟩
  · rw [hkeys]
    exact h.unanswered
  · rw [hkeys]
    exact h.awaited
  · intro k asm hk hc
    exact (h.kept k asm hk hc).imp_right (List.mem_append_left _)
  · intro k asm hk hc
    obtain ⟨buffer, parts, ms, rfl⟩ := h.begun k asm hk hc
    exact ⟨buffer, parts, ms ++ acks ks, rfl⟩

/-- the peer writes something that is no ack of a bundle on its way -/
theorem back_append (h : Balance own n outbound inbound there back) {m : Message}
    (hm : ∀ k, m = .ack k → k ∉ Message.bundleKeys there ∧ k.isProper = true ∧
      (own k.generation → k.message < n)) :
    Balance own n outbound inbound there (back ++ [m]) := by
  refine ⟨h.first, h.owned, ?_, ?_, ?_, h.held, h.kept, h.begun⟩
  · intro k hk
    obtain ⟨hout, hback⟩ := h.unanswered k hk
    refine ⟨hout, fun hmem => ?_⟩
    rcases List.mem_append.mp hmem with hmem | hmem
    · exact hback hmem
    · exact (hm k (List.mem_singleton.mp hmem).symm).1 hk
  · intro k hk
    exact (h.awaited k hk).imp_right (List.mem_append_left _)
  · intro k hk
    rcases List.mem_append.mp hk with hk | hk
    · exact h.numbered k hk
    · exact (hm k (List.mem_singleton.mp hk).symm).2

theorem wrote (h : Balance own n outbound inbound there back) {buffer : Bytes}
    {parts : List Fragment} (hown : own k.generation) (hgeneration : k.generation ≠ 0)
    (hk : k.message = n) (hlt : n < n') (hn : n' ≠ 0) :
    Balance own n' (outbound.put k parts) inbound (there ++ [.bundle k buffer parts]) back := by
  have hkeys : Message.bundleKeys (there ++ [.bundle k buffer parts]) =
      Message.bundleKeys there ++ [k] := Message.bundleKeys_append _ _
  have hput (j : Key) : (outbound.put k parts).get? j ≠ none ↔ j = k ∨ outbound.get? j ≠ none := by
    rw [Table.get?_put]
    split <;> simp_all
  refine ⟨hn, ?_, ?_, ?_, ?_, h.held, ?_, ?_⟩
  · intro j hj
    rcases (hput j).mp hj with rfl | hj
    · refine ⟨?_, hown⟩
      show (j.generation != 0 && j.message != 0) = true
      rw [hk]
      simp [hgeneration, h.first]
    · exact h.owned j hj
  · rw [hkeys]
    intro j hj
    rcases List.mem_append.mp hj with hj | hj
    · obtain ⟨hout, hback⟩ := h.unanswered j hj
      exact ⟨(hput j).mpr (.inr hout), hback⟩
    · obtain rfl := List.mem_singleton.mp hj
      refine ⟨(hput j).mpr (.inl rfl), fun hback => ?_⟩
      have hlt := (h.numbered j hback).2 hown
      rw [hk] at hlt
      exact UInt64.lt_irrefl _ hlt
  · rw [hkeys]
    intro j hj
    rcases (hput j).mp hj with rfl | hj
    · exact .inl (List.mem_append_right _ (List.mem_singleton_self j))
    · exact (h.awaited j hj).imp_left (List.mem_append_left _)
  · intro j hj
    obtain ⟨hproper, hlt'⟩ := h.numbered j hj
    exact ⟨hproper, fun hmine => UInt64.lt_trans (hlt' hmine) hlt⟩
  · intro j asm hj hc
    rcases h.kept j asm hj hc with hout | hthere
    · exact .inl ((hput j).mpr (.inr hout))
    · exact .inr (List.mem_append_left _ hthere)
  · intro j asm hj hc
    obtain ⟨b, ps, ms, rfl⟩ := h.begun j asm hj hc
    exact ⟨b, ps, ms ++ [.bundle k buffer parts], rfl⟩

/-! ## the side handles a fragment -/

/-- the side is done with a message that is no ack of an outbound bundle -/
theorem back_tail {m : Message} (h : Balance own n outbound inbound there (m :: ms))
    (hm : ∀ k, m = .ack k → outbound.get? k = none) : Balance own n outbound inbound there ms := by
  refine ⟨h.first, h.owned, ?_, ?_, fun k hk => h.numbered k (List.mem_cons_of_mem m hk), h.held,
    h.kept, h.begun⟩
  · intro k hk
    obtain ⟨hout, hback⟩ := h.unanswered k hk
    exact ⟨hout, fun hmem => hback (List.mem_cons_of_mem m hmem)⟩
  · intro k hk
    rcases h.awaited k hk with hthere | hback
    · exact .inl hthere
    · rcases List.mem_cons.mp hback with heq | hback
      · exact absurd (hm k heq.symm) hk
      · exact .inr hback

/-- the side is done with the ack of an outbound bundle, and has acknowledged it -/
theorem back_ack (h : Balance own n outbound inbound there (.ack k :: ms))
    (hthere : .ack k ∈ there)
    (houtbound : ∀ j, outbound'.get? j = if j = k then none else outbound.get? j) :
    Balance own n outbound' inbound there ms := by
  have hless (j : Key) : outbound'.get? j ≠ none ↔ j ≠ k ∧ outbound.get? j ≠ none := by
    rw [houtbound]
    split <;> simp_all
  refine ⟨h.first, fun j hj => h.owned j ((hless j).mp hj).2, ?_, ?_,
    fun j hj => h.numbered j (List.mem_cons_of_mem _ hj), h.held, ?_, h.begun⟩
  · intro j hj
    obtain ⟨hout, hback⟩ := h.unanswered j hj
    have hne : j ≠ k := by
      rintro rfl
      exact hback List.mem_cons_self
    exact ⟨(hless j).mpr ⟨hne, hout⟩, fun hmem => hback (List.mem_cons_of_mem _ hmem)⟩
  · intro j hj
    obtain ⟨hne, hout⟩ := (hless j).mp hj
    rcases h.awaited j hout with hthere | hback
    · exact .inl hthere
    · rcases List.mem_cons.mp hback with heq | hback
      · cases heq
        exact absurd rfl hne
      · exact .inr hback
  · intro j asm hj hc
    by_cases hne : j = k
    · rw [hne]
      exact .inr hthere
    · exact (h.kept j asm hj hc).imp_left fun hout => (hless j).mpr ⟨hne, hout⟩

section
variable {σ : Type} {now : Moment} {a b : Attached σ}
  {pending pending' : List Message} {seen seen' : List Fragment} {ks : List Key}

theorem speaks (h : Balance own n a.link.outbound inbound there pending)
    (hp : Progress now a b pending seen pending' seen' ks) :
    Balance own n b.link.outbound inbound (there ++ acks ks) pending' := by
  cases hp with
  | confirmed k ms proper known ready inbound outbound =>
    exact (h.there_acks [k]).back_ack (List.mem_append_right _ List.mem_cons_self) outbound
  | forgotten k ms proper unknown ready outbound inbound =>
    rw [outbound]
    refine (h.there_acks []).back_tail fun j hj => ?_
    cases hj
    exact unknown
  | stray k ms improper ready outbound inbound =>
    have hproper := (h.numbered k List.mem_cons_self).1
    rw [improper] at hproper
    cases hproper
  | added k buffer parts seen ms f asm ready outbound others entry unfinished =>
    rw [outbound]
    exact h.there_acks []
  | completed k buffer parts seen ms asm ready outbound others entry finished =>
    rw [outbound]
    exact (h.there_acks [k]).back_tail fun j hj => (nomatch hj)

/-! ## its peer handles a fragment -/

/-- the peer is done with an ack, and does not keep the bundle with its key -/
theorem there_ack (h : Balance own n outbound inbound (.ack k :: ms) back)
    (hnone : inbound'.get? k = none)
    (hothers : ∀ j, inbound'.get? j = none ∨ inbound'.get? j = inbound.get? j) :
    Balance own n outbound inbound' ms back := by
  have hsub (j : Key) (asm : Assembly) (hj : inbound'.get? j = some asm) :
      j ≠ k ∧ inbound.get? j = some asm := by
    constructor
    · rintro rfl
      rw [hnone] at hj
      cases hj
    · rcases hothers j with hnone | hsame
      · rw [hnone] at hj
        cases hj
      · rw [← hsame]
        exact hj
  refine ⟨h.first, h.owned, h.unanswered, h.awaited, h.numbered,
    fun j asm hj => h.held j asm (hsub j asm hj).2, ?_, ?_⟩
  · intro j asm hj hc
    obtain ⟨hne, hold⟩ := hsub j asm hj
    refine (h.kept j asm hold hc).imp_right fun hthere => ?_
    rcases List.mem_cons.mp hthere with heq | hthere
    · cases heq
      exact absurd rfl hne
    · exact hthere
  · intro j asm hj hc
    obtain ⟨_, _, _, heq⟩ := h.begun j asm (hsub j asm hj).2 hc
    cases heq

/-- the look at the clock drops finished bundles at most -/
theorem purged (h : Balance own n outbound inbound there back)
    (hsub : ∀ k asm, inbound'.get? k = some asm → inbound.get? k = some asm) :
    Balance own n outbound inbound' there back :=
  ⟨h.first, h.owned, h.unanswered, h.awaited, h.numbered,
    fun k asm hk => h.held k asm (hsub k asm hk), fun k asm hk => h.kept k asm (hsub k asm hk),
    fun k asm hk => h.begun k asm (hsub k asm hk)⟩

variable {buffer : Bytes} {parts : List Fragment} {asm : Assembly}

theorem there_added (h : Balance own n outbound inbound (.bundle k buffer parts :: ms) back)
    (hothers : ∀ j, j ≠ k → inbound'.get? j = inbound.get? j)
    (hentry : inbound'.get? k = some asm) (hunfinished : asm.complete = false) :
    Balance own n outbound inbound' (.bundle k buffer parts :: ms) back := by
  have hown := (h.owned k (h.unanswered k List.mem_cons_self).1).2
  refine ⟨h.first, h.owned, h.unanswered, h.awaited, h.numbered, ?_, ?_, ?_⟩
  · intro j asm' hj
    by_cases hjk : j = k
    · rw [hjk]
      exact hown
    · exact h.held j asm' (hothers j hjk ▸ hj)
  · intro j asm' hj hc
    by_cases hjk : j = k
    · rw [hjk, hentry] at hj
      rw [← Option.some.inj hj, hunfinished] at hc
      cases hc
    · exact h.kept j asm' (hothers j hjk ▸ hj) hc
  · intro j asm' hj hc
    by_cases hjk : j = k
    · rw [hjk]
      exact ⟨buffer, parts, ms, rfl⟩
    · exact h.begun j asm' (hothers j hjk ▸ hj) hc

/-- the peer has finished a bundle and acknowledges it -/
theorem there_completed (h : Balance own n outbound inbound (.bundle k buffer parts :: ms) back)
    (hnumbered : k.message < n) (hlater : k ∉ Message.bundleKeys ms)
    (hothers : ∀ j, j ≠ k → inbound'.get? j = inbound.get? j)
    (hentry : inbound'.get? k = some asm) (hfinished : asm.complete = true) :
    Balance own n outbound inbound' ms (back ++ [.ack k]) := by
  have hout := (h.unanswered k List.mem_cons_self).1
  obtain ⟨hproper, hown⟩ := h.owned k hout
  have hne (j : Key) (hj : j ∈ Message.bundleKeys ms) : j ≠ k := by
    rintro rfl
    exact hlater hj
  refine ⟨h.first, h.owned, ?_, ?_, ?_, ?_, ?_, ?_⟩
  · intro j hj
    obtain ⟨hout, hback⟩ := h.unanswered j (List.mem_cons_of_mem k hj)
    refine ⟨hout, fun hmem => ?_⟩
    rcases List.mem_append.mp hmem with hmem | hmem
    · exact hback hmem
    · cases List.mem_singleton.mp hmem
      exact hlater hj
  · intro j hj
    rcases h.awaited j hj with hthere | hback
    · rcases List.mem_cons.mp hthere with rfl | hthere
      · exact .inr (List.mem_append_right _ List.mem_cons_self)
      · exact .inl hthere
    · exact .inr (List.mem_append_left _ hback)
  · intro j hj
    rcases List.mem_append.mp hj with hj | hj
    · exact h.numbered j hj
    · cases List.mem_singleton.mp hj
      exact ⟨hproper, fun _ => hnumbered⟩
  · intro j asm' hj
    by_cases hjk : j = k
    · rw [hjk]
      exact hown
    · exact h.held j asm' (hothers j hjk ▸ hj)
  · intro j asm' hj hc
    by_cases hjk : j = k
    · rw [hjk]
      exact .inl hout
    · refine (h.kept j asm' (hothers j hjk ▸ hj) hc).imp_right fun hthere => ?_
      rcases List.mem_cons.mp hthere with heq | hthere
      · cases heq
      · exact hthere
  · intro j asm' hj hc
    by_cases hjk : j = k
    · rw [hjk, hentry] at hj
      rw [← Option.some.inj hj, hfinished] at hc
      cases hc
    · obtain ⟨_, _, _, heq⟩ := h.begun j asm' (hothers j hjk ▸ hj) hc
      cases heq
      exact absurd rfl hjk

theorem listens (h : Balance peers n outbound a.link.inbound pending back)
    (hown : Balance own m a.link.outbound inbound back pending)
    (hapart : ∀ g, own g → ¬ peers g) (hnumbered : ∀ k ∈ Message.bundleKeys pending, k.message < n)
    (hdistinct : (Message.bundleKeys pending).Nodup)
    (hp : Progress now a b pending seen pending' seen' ks) :
    Balance peers n outbound b.link.inbound pending' (back ++ acks ks) := by
  cases hp with
  | confirmed k ms proper known ready inbound outbound =>
    -- the key is one of the side's own, so it is of no concern to the peer's bundles
    have hmine : ¬ peers k.generation := hapart _ (hown.owned k known).2
    rw [inbound]
    refine Balance.there_ack (k := k) (h.back_append (m := .ack k) ?_) ?_ fun j => .inr rfl
    · rintro j heq
      cases heq
      exact ⟨fun hj => hmine (h.owned k (h.unanswered k hj).1).2, proper,
        fun hpeers => absurd hpeers hmine⟩
    · cases hget : a.link.inbound.get? k with
      | none => rfl
      | some asm => exact absurd (h.held k asm hget) hmine
  | forgotten k ms proper unknown ready outbound inbound =>
    rw [show back ++ acks [] = back from List.append_nil back]
    refine h.there_ack (by rw [inbound, if_pos rfl]) fun j => ?_
    rw [inbound]
    split
    · exact .inl rfl
    · exact .inr rfl
  | stray k ms improper ready outbound inbound =>
    have hproper := (hown.numbered k List.mem_cons_self).1
    rw [improper] at hproper
    cases hproper
  | added k buffer parts seen ms f asm ready outbound others entry unfinished =>
    rw [show back ++ acks [] = back from List.append_nil back]
    exact h.there_added others entry unfinished
  | completed k buffer parts seen ms asm ready outbound others entry finished =>
    exact h.there_completed (hnumbered k List.mem_cons_self) (List.nodup_cons.mp hdistinct).1 others
      entry finished

end

end Balance

end BundleLink
