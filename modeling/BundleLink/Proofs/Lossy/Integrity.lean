import BundleLink.Proofs.Lossy.Upright

/-!
# Integrity and acknowledgement on such a network

Whatever the network repeats, reorders or loses, each bundle that is delivered is the buffer that
the peer wrote under its key, and a link takes a bundle for acknowledged only when the peer has
delivered it.

* `Lossy.Inv`         both nodes are upright;
* `step_cases`        a step changes at most one node, which does not forget what it was given;
* `Inv.step`, `Inv.run`  the invariant holds in every run;
* `delivered_assigned`   the result.
-/

namespace BundleLink

@[simp] theorem Node.delivered_settle (x : Node) (as ds : List (Key × Bytes))
    (r : Outcome Line Unit) : (x.settle as ds r).delivered = x.delivered ++ ds := by
  rcases r with _ | ⟨_ | _, _⟩ <;> rfl

theorem Node.assigned_settle (x : Node) (as ds : List (Key × Bytes)) (r : Outcome Line Unit) :
    x.assigned ⊆ (x.settle as ds r).assigned := by
  rcases r with _ | ⟨_ | _, _⟩
  · exact List.subset_append_left _ _
  · exact List.Subset.refl _
  · exact List.Subset.refl _

namespace Lossy

variable {gens : Side → UInt64 → Prop} {layout : Layout} {left left' : Side → Nat} {p : Lossy}
  {s : Side} {x : Node}

/-- Both nodes are upright, if `gens` are the generations of each side, of which it may still use
`left` more. -/
def Inv (gens : Side → UInt64 → Prop) (layout : Layout) (left : Side → Nat) (p : Lossy) : Prop :=
  ∃ book : Side → List Parcel, ∀ s, Upright (gens s) (gens s.opposite) layout (left s) (book s)
    (book s.opposite) (p.node s.opposite).delivered (p.node s)

/-! ## one step -/

/-- A step changes the clock or one node, which stays closed if it was, and keeps its record. -/
theorem step_cases (p : Lossy) (e : Event) :
    (∃ now, p.step e = { p with now := now }) ∨
      ∃ s x, p.step e = p.put s x ∧ (p.node s).assigned ⊆ x.assigned ∧
        ((p.node s).attached.link.connected = false → x.attached.link.connected = false) := by
  have hsame : ∃ now, p = { p with now := now } := ⟨p.now, rfl⟩
  cases e with
  | write s buffer flushNow =>
    rw [step]
    split
    · exact .inl hsame
    · refine .inr ⟨s, _, rfl, Node.assigned_settle _ _ _ _, ?_⟩
      intro hclosed
      rw [Attached.write_of_closed hclosed]
      exact hclosed
  | setFragmentSize s size =>
    rw [step]
    split
    · exact .inl hsame
    · refine .inr ⟨s, _, rfl, List.Subset.refl _, ?_⟩
      intro hclosed
      show ((p.node s).attached.link.setFragmentSize size).2.connected = false
      rw [Link.setFragmentSize]
      split
      · exact hclosed
      · exact hclosed
  | advanceGeneration s =>
    rw [step]
    split
    · exact .inl hsame
    · refine .inr ⟨s, _, rfl, ?_⟩
      rcases (p.node s).advance_eq with hadvance | hadvance
      all_goals
        rw [hadvance]
        exact ⟨List.Subset.refl _, fun hclosed => hclosed⟩
  | hand s i =>
    rw [step]
    split
    · exact .inr ⟨s, _, rfl, List.Subset.refl _, fun hclosed => hclosed⟩
    · exact .inl hsame
  | disturb s hitch => exact .inr ⟨s, _, rfl, List.Subset.refl _, fun hclosed => hclosed⟩
  | receive s =>
    rw [step]
    split
    · exact .inl hsame
    · refine .inr ⟨s, _, rfl, Node.assigned_settle _ _ _ _, ?_⟩
      intro hclosed
      rw [Attached.receive_of_closed hclosed]
      exact hclosed
  | pass d =>
    rw [step]
    split
    · exact .inl ⟨_, rfl⟩
    · exact .inl hsame

/-- one node changed, and the other one notices at most that there is more -/
theorem Inv.put {book : Side → List Parcel}
    (h : ∀ t, Upright (gens t) (gens t.opposite) layout (left t) (book t) (book t.opposite)
      (p.node t.opposite).delivered (p.node t))
    (hleft : ∀ t, left' t ≤ left t) {sent : List Parcel} (hsent : book s ⊆ sent)
    (hdelivered : (p.node s).delivered ⊆ x.delivered)
    (hx : Upright (gens s) (gens s.opposite) layout (left' s) sent (book s.opposite)
      (p.node s.opposite).delivered x) : Inv gens layout left' (p.put s x) := by
  refine ⟨fun t => if t = s then sent else book t, ?_⟩
  intro t
  have hne := s.opposite_ne
  rcases Side.eq_or_opposite s t with rfl | rfl
  · dsimp only
    rw [if_pos rfl, if_neg hne, node_put, node_put_opposite]
    exact hx
  · have htheirs : book s.opposite.opposite ⊆ sent := by
      rw [Side.opposite_opposite]
      exact hsent
    have hheard : (p.node s.opposite.opposite).delivered ⊆ x.delivered := by
      rw [Side.opposite_opposite]
      exact hdelivered
    have hother := ((h s.opposite).fewer (hleft _)).mono htheirs hheard
    rw [Side.opposite_opposite] at hother ⊢
    dsimp only
    rw [if_pos rfl, if_neg hne, node_put, node_put_opposite]
    exact hother

theorem advances_le (e : Event) (es : List Event) (s : Side) :
    advances s es ≤ advances s (e :: es) := by
  rw [advances, advances, List.countP_cons]
  exact Nat.le_add_right _ _

theorem Inv.step (hnonzero : ∀ s g, gens s g → g ≠ 0)
    (hapart : ∀ g, gens .first g → ¬ gens .second g) (e : Event) (es : List Event)
    (h : Inv gens layout (fun s => advances s (e :: es)) p) :
    Inv gens layout (fun s => advances s es) (p.step e) := by
  have hapart' (s : Side) (g : UInt64) (hg : gens s g) : ¬ gens s.opposite g := by
    cases s with
    | first => exact hapart g hg
    | second => exact fun h' => hapart g h' hg
  have hleft := advances_le e es
  obtain ⟨book, hbook⟩ := h
  have hsame : Inv gens layout (fun s => advances s es) p :=
    ⟨book, fun s => (hbook s).fewer (hleft s)⟩
  have hother (s : Side) := hbook s.opposite
  simp only [Side.opposite_opposite] at hother
  have hsub {α : Type} (l : List α) : l ⊆ l := List.Subset.refl l
  cases e with
  | write s buffer flushNow =>
    rw [Lossy.step]
    split
    · exact hsame
    · obtain ⟨sent, hsent, hx⟩ :=
        ((hbook s).fewer (hleft s)).write (hnonzero s) buffer flushNow p.now
      refine Inv.put hbook hleft hsent ?_ hx
      rw [Node.delivered_settle]
      exact List.subset_append_left _ _
  | setFragmentSize s size =>
    rw [Lossy.step]
    split
    · exact hsame
    · refine Inv.put hbook hleft (hsub _) (hsub _) ?_
      have hx := (hbook s).fewer (hleft s)
      rw [Link.setFragmentSize]
      split
      · exact { hx with }
      · exact { hx with }
  | advanceGeneration s =>
    rw [Lossy.step]
    split
    · exact hsame
    · have hcount : advances s (.advanceGeneration s :: es) = advances s es + 1 :=
        List.countP_cons_of_pos (by simp)
      have hdelivered : (p.node s).advance.delivered = (p.node s).delivered := by
        rcases (p.node s).advance_eq with hadvance | hadvance <;> rw [hadvance]
      refine Inv.put hbook hleft (hsub _) ?_
        (Upright.advance ((hbook s).fewer (Nat.le_of_eq hcount.symm)))
      rw [hdelivered]
      exact hsub _
  | hand s i =>
    rw [Lossy.step]
    split
    · rename_i wire hwire
      obtain ⟨f, hf, rfl⟩ := (hother s).posted wire (List.mem_of_getElem? hwire)
      exact Inv.put hbook hleft (hsub _) (hsub _) (((hbook s).fewer (hleft s)).hand hf)
    · exact hsame
  | disturb s hitch =>
    have hx := (hbook s).fewer (hleft s)
    exact Inv.put hbook hleft (hsub _) (hsub _) { hx with }
  | receive s =>
    rw [Lossy.step]
    split
    · exact hsame
    · rename_i hhalted
      refine Inv.put hbook hleft (hsub _) ?_ (((hbook s).fewer (hleft s)).receive (hother s).ledger
        (hother s).honest (hapart' s) (Bool.eq_false_iff.mpr hhalted) p.now)
      rw [Node.delivered_settle]
      exact List.subset_append_left _ _
  | pass d =>
    rw [Lossy.step]
    split
    · exact hsame
    · exact hsame

/-! ## runs -/

@[simp] theorem run_nil (p : Lossy) : p.run [] = p := rfl

@[simp] theorem run_cons (p : Lossy) (e : Event) (es : List Event) :
    p.run (e :: es) = (p.step e).run es := rfl

@[simp] theorem run_append (p : Lossy) (es es' : List Event) :
    p.run (es ++ es') = (p.run es).run es' := List.foldl_append

theorem Inv.run (hnonzero : ∀ s g, gens s g → g ≠ 0)
    (hapart : ∀ g, gens .first g → ¬ gens .second g) (es es' : List Event)
    (h : Inv gens layout (fun s => advances s (es ++ es')) p) :
    Inv gens layout (fun s => advances s es') (p.run es) := by
  induction es generalizing p with
  | nil => exact h
  | cons e es ih => exact ih (h.step hnonzero hapart e (es ++ es'))

theorem inv_opened (now : Moment) (id : Side → Nat) {settings : Side → Settings}
    (generation : Side → UInt64) (left : Side → Nat) (hlayout : ∀ s, (settings s).layout = layout) :
    Inv (fun s => Reached (generation s) (left s)) layout left
      (opened now id settings generation) := by
  refine ⟨fun _ => [], fun s => ⟨hlayout s, fun i hi => ⟨i, hi, rfl⟩, ?_, .empty _ _ _, rfl, rfl,
    fun _ he => (nomatch he), fun _ hwire => (nomatch hwire),
    fun _ => ⟨fun _ _ hk => (nomatch hk), fun _ hm => (nomatch hm)⟩,
    fun _ _ => ⟨fun _ _ hk => (nomatch hk), [], fun _ hf => (nomatch hf), rfl⟩⟩⟩
  show (1 : UInt64) ≠ 0
  decide

/-! ## what the invariant says -/

/-- The bundles that the peer of `s` has delivered are those that `s` wrote under their keys. -/
structure Honest (p : Lossy) (s : Side) : Prop where
  /-- a key is given to one write only -/
  distinct : ((p.node s).assigned.map Prod.fst).Nodup
  /-- the record of deliveries is the queue -/
  ready : (p.node s.opposite).attached.link.ready = (p.node s.opposite).delivered.map Prod.snd
  delivered : (p.node s.opposite).delivered ⊆ (p.node s).assigned

/-- the link stays open, and the bundle `k` with the fragments `fs` is not outbound any more -/
structure Leaves (k : Key) (fs : List Fragment) (before after : Link) : Prop where
  outbound : before.outbound.get? k = some fs
  isOpen : after.connected = true
  gone : after.outbound.get? k = none

theorem Inv.honest (h : Inv gens layout left p) (s : Side) : Honest p s := by
  obtain ⟨book, hbook⟩ := h
  have hother := hbook s.opposite
  rw [Side.opposite_opposite] at hother
  refine ⟨?_, hother.ready, ?_⟩
  · rw [(hbook s).assigned, List.map_map, List.Nodup, List.pairwise_map]
    exact (hbook s).ledger.distinct
  · intro e he
    obtain ⟨m, hm, rfl⟩ := hother.honest e he
    rw [(hbook s).assigned]
    exact List.mem_map_of_mem hm

/-- a bundle that is not outbound any more was delivered before -/
theorem Inv.leaves (h : Inv gens layout left p) {e : Event}
    (h' : Inv gens layout left' (p.step e)) {k : Key} {fs : List Fragment}
    (hleaves : Leaves k fs (p.node s).attached.link ((p.step e).node s).attached.link) :
    ∃ b, (k, b) ∈ (p.node s).assigned ∧ Bundle.join layout fs = .ok b ∧
      (k, b) ∈ (p.node s.opposite).delivered := by
  obtain ⟨hout, hopen, hgone⟩ := hleaves
  rcases step_cases p e with ⟨now, hstep⟩ | ⟨t, x, hstep, hassigned, hclosed⟩
  · rw [hstep] at hgone
    exact absurd (hout.symm.trans hgone) (by simp)
  · rcases Side.eq_or_opposite t s with rfl | rfl
    · obtain ⟨book, hbook⟩ := h
      obtain ⟨book', hbook'⟩ := h'
      have hopen' : (p.node s).attached.link.connected = true := by
        cases hc : (p.node s).attached.link.connected with
        | true => rfl
        | false =>
          rw [hstep, node_put, hclosed hc] at hopen
          exact hopen
      obtain ⟨m, hm, hkey, hparts⟩ := ((hbook s).owed hopen').known k fs hout
      have hmem : m.entry ∈ (p.node s).assigned := by
        rw [(hbook s).assigned]
        exact List.mem_map_of_mem hm
      -- the parcel is in the books after the step as well
      have hmem' : m.entry ∈ ((p.step e).node s).assigned := by
        rw [hstep, node_put]
        exact hassigned hmem
      rw [(hbook' s).assigned] at hmem'
      obtain ⟨m', hm', hentry⟩ := List.mem_map.mp hmem'
      have hkey' : m'.key = k := (congrArg Prod.fst hentry).trans hkey
      have hheard : m.entry ∈ (p.node s.opposite).delivered := by
        rcases ((hbook' s).owed hopen).settled m' hm' with hstill | hheard
        · rw [hkey', hgone] at hstill
          cases hstill
        · rw [hentry, hstep, node_put_opposite] at hheard
          exact hheard
      have hjoin := ((hbook s).ledger.sent m hm).parts.joined
      rw [hparts] at hjoin
      rw [Parcel.entry, hkey] at hmem hheard
      exact ⟨m.buffer, hmem, hjoin, hheard⟩
    · rw [hstep, node_put_opposite] at hgone
      exact absurd (hout.symm.trans hgone) (by simp)

/-- Each bundle that is delivered is the one that was written under its key, and a bundle that is
taken for acknowledged was delivered. -/
theorem delivered_assigned (now : Moment) (id : Side → Nat) (settings : Side → Settings)
    (generation : Side → UInt64) (es : List Event)
    (hlayout : (settings .first).layout = (settings .second).layout)
    (hapart : Apart generation fun s => advances s es) (s : Side) :
    Honest ((opened now id settings generation).run es) s ∧
      ∀ es₁ e es₂ k fs, es = es₁ ++ e :: es₂ →
        Leaves k fs (((opened now id settings generation).run es₁).node s).attached.link
          (((opened now id settings generation).run (es₁ ++ [e])).node s).attached.link →
        ∃ b, (k, b) ∈ (((opened now id settings generation).run es₁).node s).assigned ∧
          Bundle.join (settings s).layout fs = .ok b ∧
          (k, b) ∈ (((opened now id settings generation).run es₁).node s.opposite).delivered := by
  have hsame (t : Side) : (settings t).layout = (settings s).layout := by
    cases s <;> cases t <;> first | rfl | exact hlayout | exact hlayout.symm
  have hstart := inv_opened now id generation (fun s => advances s es) hsame
  have hrun (es₁ es₂ : List Event) (hsplit : es = es₁ ++ es₂) :
      Inv (fun s => Reached (generation s) (advances s es)) (settings s).layout
        (fun s => advances s es₂) ((opened now id settings generation).run es₁) := by
    apply Inv.run hapart.ne_zero hapart.disjoint es₁ es₂
    rw [← hsplit]
    exact hstart
  refine ⟨(hrun es [] (List.append_nil es).symm).honest s, ?_⟩
  intro es₁ e es₂ k fs hsplit hleaves
  have hbefore := hrun es₁ (e :: es₂) hsplit
  have hafter := hrun (es₁ ++ [e]) es₂ (by rw [hsplit, List.append_assoc]; rfl)
  rw [run_append, run_cons, run_nil] at hafter hleaves
  exact hbefore.leaves hafter hleaves

/-- a run in which fragments and acks are repeated and overtake each other -/
def repeated : List Event :=
  [.write .first [104, 105] true, .hand .second 1, .hand .second 0, .hand .second 1,
    .receive .second, .hand .first 0, .hand .first 1, .disturb .second (.ok false),
    .advanceGeneration .first, .write .first [97] false, .hand .second 3, .receive .first,
    .receive .first, .pass (.ofSeconds 30), .receive .second, .hand .second 0, .receive .second]

/-- both links as they are at first -/
def fresh : Lossy := opened .start (fun _ => 7) (fun _ => {}) spaced

/-- the ack that arrives with the first receive of the first side settles its first bundle -/
theorem delivered_assigned_repeated :
    Apart spaced (fun s => advances s repeated) ∧
    Honest (fresh.run repeated) .first ∧
    ((fresh.run repeated).node .second).delivered = [(⟨1, 1⟩, [104, 105])] ∧
    Leaves ⟨1, 1⟩ [.header 1 1 1 0, ⟨1, 1, 1, 2, 0, some [104, 105]⟩]
      ((fresh.run (repeated.take 11)).node .first).attached.link
      ((fresh.run (repeated.take 11 ++ [.receive .first])).node .first).attached.link ∧
    ∃ b, (⟨1, 1⟩, b) ∈ ((fresh.run (repeated.take 11)).node Side.first.opposite).delivered := by
  have hapart : Apart spaced fun s => advances s repeated :=
    .of_lt (by decide) (by decide) (by decide)
  obtain ⟨hhonest, hsettled⟩ :=
    delivered_assigned .start (fun _ => 7) (fun _ => {}) spaced repeated rfl hapart .first
  have hleaves : Leaves ⟨1, 1⟩ [.header 1 1 1 0, ⟨1, 1, 1, 2, 0, some [104, 105]⟩]
      ((fresh.run (repeated.take 11)).node .first).attached.link
      ((fresh.run (repeated.take 11 ++ [.receive .first])).node .first).attached.link :=
    ⟨by decide +kernel, by decide +kernel, by decide +kernel⟩
  obtain ⟨b, -, -, hb⟩ := hsettled _ _ (repeated.drop 12) _ _ rfl hleaves
  exact ⟨hapart, hhonest, by decide +kernel, hleaves, b, hb⟩

end Lossy

end BundleLink
