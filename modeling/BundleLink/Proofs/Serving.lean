import BundleLink.Proofs.Course

/-!
# Handling the pending messages in order

While the fragments of the pending messages are handled one by one, bundles become ready in the
order in which they were sent, and all that is written are acks.

* `Link.Sends`         the keys of the outbound bundles were given out;
* `Attached.Replied`   only acks were written, and the terms of the link are as before;
* `Attached.Served`    the state between two fragments;
* `Attached.Stopped`   the state after a failure;
* `Served.handle`      what one fragment does.
-/

namespace BundleLink

/-- the keys of the outbound bundles were given out, and 0 was given to none -/
structure Link.Sends (l : Link) : Prop where
  outbound : ∀ k fs, l.outbound.get? k = some fs →
    k.isProper = true ∧ k.message < l.nextMessage
  first : l.nextMessage ≠ 0

theorem Link.Sends.congr {l l' : Link} (h : l.Sends) (hout : l'.outbound = l.outbound)
    (hnext : l'.nextMessage = l.nextMessage) : l'.Sends := by
  refine ⟨?_, by rw [hnext]; exact h.first⟩
  intro k fs hk
  rw [hout] at hk
  rw [hnext]
  exact h.outbound k fs hk

/-- acks, and those for bundles of the generations `own` are for numbers below `n` -/
def Replies (own : UInt64 → Prop) (n : UInt64) (sent : List Message) : Prop :=
  ∀ m ∈ sent, ∃ k, m = .ack k ∧ k.isProper = true ∧ (own k.generation → k.message < n)

namespace Attached

variable {σ : Type} [Channel σ] [Medium σ]

theorem Sent.nextMessage {fs : List Fragment} {a b : Attached σ} (h : Sent fs a b) :
    b.link.nextMessage = a.link.nextMessage := Link.nextMessage_of_terms h.terms

/-- From `a` to `b` only acks were written, and what a receive may not change is as before. -/
structure Replied (own : UInt64 → Prop) (layout : Layout) (a b : Attached σ) : Prop where
  terms : b.link.terms = a.link.terms
  raw : b.link.raw = a.link.raw
  incoming : Medium.incoming b.channel = Medium.incoming a.channel
  description : Medium.description b.channel = Medium.description a.channel
  outgoing : ∃ sent, Replies own a.link.nextMessage sent ∧
    Medium.outgoing b.channel = Medium.outgoing a.channel ++
      (sent.flatMap Message.fragments).map (Fragment.wire layout)

variable {own peers : UInt64 → Prop} {layout : Layout} {n : UInt64}
  {accepted taken : List Bytes} {start a b : Attached σ} {now : Moment} {count : Nat}
  {f : Fragment} {fs todo : List Fragment}

theorem Replied.refl (own : UInt64 → Prop) (layout : Layout) (a : Attached σ) :
    Replied own layout a a :=
  ⟨rfl, rfl, rfl, rfl, [], fun _ hm => (nomatch hm), (List.append_nil _).symm⟩

theorem Replied.nextMessage (h : Replied own layout start a) :
    a.link.nextMessage = start.link.nextMessage := Link.nextMessage_of_terms h.terms

theorem Replied.layout_eq (h : Replied own layout start a) :
    a.link.layout = start.link.layout := Link.layout_of_terms h.terms

theorem Replied.settings (h : Replied own layout start a) :
    a.link.settings = start.link.settings := Link.settings_of_terms h.terms

theorem Replied.sent (h : Replied own layout start a) (hlayout : start.link.layout = layout)
    {gs : List Fragment} (hsent : Sent gs (a.arrived now) b) {sent : List Message}
    (hgs : gs = sent.flatMap Message.fragments)
    (hreplies : Replies own a.link.nextMessage sent) : Replied own layout start b := by
  obtain ⟨before, hbefore, hout⟩ := h.outgoing
  refine ⟨hsent.terms.trans h.terms, hsent.raw.trans h.raw, hsent.incoming.trans h.incoming,
    hsent.description.trans h.description, before ++ sent, ?_, ?_⟩
  · intro m hm
    rcases List.mem_append.mp hm with hm | hm
    · exact hbefore m hm
    · rw [← h.nextMessage]
      exact hreplies m hm
  · have hsame : (a.arrived now).link.layout = layout := h.layout_eq.trans hlayout
    rw [hsent.outgoing, hsame, hgs]
    show Medium.outgoing a.channel ++ _ = _
    rw [hout, List.flatMap_append, List.map_append, List.append_assoc]

theorem Replied.quiet (h : Replied own layout start a) (hlayout : start.link.layout = layout)
    (hsent : Sent [] (a.arrived now) b) : Replied own layout start b :=
  h.sent hlayout hsent (List.flatMap_nil).symm fun _ hm => (nomatch hm)

theorem Replied.ack (h : Replied own layout start a) (hlayout : start.link.layout = layout)
    {k : Key} (hsent : Sent [.ack k] (a.arrived now) b) (hk : k.isProper = true)
    (hown : own k.generation → k.message < a.link.nextMessage) : Replied own layout start b :=
  h.sent hlayout hsent (List.flatMap_singleton Message.fragments (.ack k)).symm fun _ hm =>
    ⟨k, List.mem_singleton.mp hm, hk, hown⟩

/-- Of the messages of a peer with the generations `peers` the fragments `fs` and then `todo` are
still to be handled, `fs` by this receive, which has handled others if `fs` are less than
`count`. -/
structure Served (own peers : UInt64 → Prop) (layout : Layout) (n : UInt64)
    (accepted taken : List Bytes) (now : Moment) (start : Attached σ) (count : Nat)
    (todo fs : List Fragment) (a : Attached σ) : Prop where
  replied : Replied own layout start a
  sends : a.link.Sends
  course : ∃ pending seen,
    Course peers layout n accepted (taken ++ a.link.ready) pending seen (fs ++ todo) ∧
      Assembled n a.link.inbound pending seen ∧
      (fs.length < count → Recent now a.link.inbound pending seen)

/-- after a failure what was delivered is still right -/
structure Stopped (own : UInt64 → Prop) (layout : Layout) (accepted taken : List Bytes)
    (start : Attached σ) (e : Failure LinkError) (a : Attached σ) : Prop where
  ends : e.Ends
  replied : Replied own layout start a
  isPrefix : taken ++ a.link.ready <+: accepted

theorem Served.handle_ack (h : Served own peers layout n accepted taken now start count todo
      (f :: fs) a) (hlayout : start.link.layout = layout) {k : Key} {ms : List Message}
    (hc : Course peers layout n accepted (taken ++ a.link.ready) (.ack k :: ms) []
      (.ack k :: fs ++ todo)) (hassembled : Assembled n a.link.inbound (.ack k :: ms) []) :
    (Attached.handle (.ack k) now (a.arrived now)).Meets
      (fun _ b => Served own peers layout n accepted taken now start count todo fs b)
      (fun e b => Stopped own layout accepted taken start e b) := by
  have hk : k.isProper = true := hc.proper _ List.mem_cons_self
  have hdone : Course peers layout n accepted (taken ++ a.link.ready) ms [] (fs ++ todo) := by
    have hone : (Message.ack k).fragments = [] ++ [Fragment.ack k] := rfl
    have h1 := hc.done hone
    rw [Message.buffers, List.append_nil] at h1
    exact h1
  have hrecent (inbound : Table Key Assembly) : Recent now inbound ms [] :=
    fun _ _ _ _ _ hne => absurd rfl hne
  generalize hr : Attached.handle (.ack k) now (a.arrived now) = r
  have hcases := Attached.handle_ack hk now (a.arrived now)
  rw [hr] at hcases
  cases hcases with
  | confirmed b gs known sent ready inbound outbound =>
    have hout := h.sends.outbound k gs known
    refine ⟨h.replied.ack hlayout sent hk fun _ => hout.2, ⟨?_, ?_⟩, ms, [],
      by rw [ready]; exact hdone, ?_, fun _ => hrecent _⟩
    · intro j gs' hj
      rw [outbound] at hj
      rw [sent.nextMessage]
      split at hj
      · cases hj
      · exact h.sends.outbound j gs' hj
    · rw [sent.nextMessage]
      exact h.sends.first
    · rw [inbound]
      exact hassembled.done hc (fun _ _ => rfl) (hassembled.numbered k)
  | unanswered e b gs known isOpen sent ready =>
    refine ⟨rfl, h.replied.quiet hlayout sent, ?_⟩
    rw [ready]
    exact hc.isPrefix
  | forgotten b unknown sent ready outbound inbound =>
    refine ⟨h.replied.quiet hlayout sent, h.sends.congr outbound (sent.nextMessage), ms, [],
      by rw [ready]; exact hdone, hassembled.done hc ?_ ?_,
      fun _ => hrecent _⟩
    · intro j hj
      have hjk : j ≠ k := hj
      rw [inbound, if_neg hjk]
      rfl
    · intro asm hget
      have hnone := inbound k
      rw [if_pos rfl] at hnone
      exact absurd (hnone.symm.trans hget) (by simp)

theorem Served.handle_part (h : Served own peers layout n accepted taken now start count todo
      (f :: fs) a) (hlayout : start.link.layout = layout)
    (hapart : ∀ g, peers g → ¬ own g) {k : Key} {buffer : Bytes} {parts seen more : List Fragment}
    {ms : List Message} (hparts : parts = seen ++ f :: more)
    (hc : Course peers layout n accepted (taken ++ a.link.ready) (.bundle k buffer parts :: ms)
      seen (f :: fs ++ todo))
    (hassembled : Assembled n a.link.inbound (.bundle k buffer parts :: ms) seen) :
    (Attached.handle f now (a.arrived now)).Meets
      (fun _ b => Served own peers layout n accepted taken now start count todo fs b)
      (fun e b => Stopped own layout accepted taken start e b) := by
  have hmem := List.mem_cons_self (a := Message.bundle k buffer parts) (l := ms)
  obtain ⟨hk, hp⟩ : k.isProper = true ∧ Bundle.Parts layout k buffer parts := hc.proper _ hmem
  have hown : peers k.generation := hc.owned k buffer parts hmem
  have hf : f ∈ parts := by
    rw [hparts]
    exact List.mem_append_right seen List.mem_cons_self
  have hsame : (a.arrived now).link.layout = layout := h.replied.layout_eq.trans hlayout
  have hlast := hp.all_seen_iff hparts
  generalize hr : Attached.handle f now (a.arrived now) = r
  have hcases : PartResult now k buffer parts seen f (a.arrived now) r := by
    rw [← hr]
    exact Attached.handle_part (by rw [hsame]; exact hp) hf
      (hassembled.partly k buffer parts hmem)
  cases hcases with
  | faulted e b _ _ touched ready =>
    refine ⟨trivial, h.replied.quiet hlayout touched.toSent, ?_⟩
    rw [ready]
    exact hc.isPrefix
  | unanswered e b _ _ _ touched ready =>
    refine ⟨rfl, h.replied.quiet hlayout touched.toSent, ?_⟩
    rw [ready]
    exact hc.isPrefix
  | repeated b old => exact absurd old (hp.unseen hparts)
  | added b asm _ unfinished touched ready entry holds recent =>
    have hmore : more ≠ [] := fun h0 => unfinished (hlast.mpr h0)
    refine ⟨h.replied.quiet hlayout touched.toSent,
      h.sends.congr touched.outbound touched.nextMessage, .bundle k buffer parts :: ms,
      seen ++ [f], ?_, hassembled.further hc hf touched.others entry holds, ?_⟩
    · rw [ready]
      exact hc.further hparts hmore
    · rintro - k' buffer' parts' asm' hhead - hget
      cases hhead
      rw [entry] at hget
      rw [← Option.some.inj hget]
      exact recent
  | completed b asm _ _ finished _ touched ready entry =>
    have hmore : more = [] := hlast.mp finished
    subst hmore
    refine ⟨h.replied.ack hlayout touched.toSent hk fun hmine => absurd hmine (hapart _ hown),
      h.sends.congr touched.outbound touched.nextMessage, ms, [], ?_,
      hassembled.done hc touched.others fun _ _ => hc.numbered _ hmem hown,
      fun _ _ _ _ _ _ hne => absurd rfl hne⟩
    rw [ready]
    show Course peers layout n accepted (taken ++ (a.link.ready ++ [buffer])) ms [] _
    rw [← List.append_assoc]
    exact hc.done hparts

theorem Served.handle (h : Served own peers layout n accepted taken now start count todo
      (f :: fs) a) (hlayout : start.link.layout = layout) (hapart : ∀ g, peers g → ¬ own g) :
    (Attached.handle f now (a.arrived now)).Meets
      (fun _ b => Served own peers layout n accepted taken now start count todo fs b)
      (fun e b => Stopped own layout accepted taken start e b) := by
  obtain ⟨pending, seen, hc, hassembled, -⟩ := h.course
  obtain ⟨m, ms, more, rfl, hm, hrest⟩ := hc.next
  cases m with
  | bundle k buffer parts => exact h.handle_part hlayout hapart hm hc hassembled
  | ack k =>
    have hone : [Fragment.ack k] = seen ++ f :: more := hm
    cases seen with
    | nil =>
      obtain ⟨rfl, -⟩ := List.cons.inj hone
      exact h.handle_ack hlayout hc hassembled
    | cons g seen =>
      have hlen := congrArg List.length hone
      simp only [List.length_cons, List.length_append, List.length_nil] at hlen
      omega

end Attached

end BundleLink
