import BundleLink.Proofs.Lossy.Basic

/-!
# What a fragment from the network may do

The network repeats and reorders, so a fragment can arrive when its bundle was forgotten long ago.
What a link holds of inbound bundles is right nevertheless, because all fragments with one key
belong to one parcel; and an ack for a bundle of its own was written by the peer only after the
delivery, because an ack for any other reason has a key of the peer's own.

* `Ledger`                the parcels of one side;
* `Genuine`               the fragments that a side may ever have written;
* `Keeping`               the inbound bundles are parts of parcels, or parcels that were delivered;
* `Owed`                  each parcel is outbound, or the peer has delivered it;
* `Attached.Sound`        what holds of a link between two fragments, and after a failure;
* `Sound.handle`          one genuine fragment.
-/

namespace BundleLink

/-- what is recorded of a parcel -/
def Parcel.entry (m : Parcel) : Key × Bytes := (m.key, m.buffer)

/-- A parcel of a side with the generations `own`, which has given out the numbers below `n`. -/
structure Parcel.Sent (own : UInt64 → Prop) (layout : Layout) (n : UInt64) (m : Parcel) : Prop where
  proper : m.key.isProper = true
  parts : Bundle.Parts layout m.key m.buffer m.parts
  owned : own m.key.generation
  numbered : m.key.message < n

/-- all parcels of a side -/
structure Ledger (own : UInt64 → Prop) (layout : Layout) (n : UInt64) (book : List Parcel) :
    Prop where
  sent : ∀ m ∈ book, m.Sent own layout n
  distinct : book.Pairwise fun m m' => m.key ≠ m'.key

/-- A side with the parcels `book`, which has delivered `delivered` of a peer with the generations
`peers`, writes parts of its parcels and acks, but none for a bundle of the peer before that is
delivered. -/
def Genuine (peers : UInt64 → Prop) (book : List Parcel) (delivered : List (Key × Bytes))
    (f : Fragment) : Prop :=
  (∃ m ∈ book, f ∈ m.parts) ∨
    ∃ k, f = .ack k ∧ k.isProper = true ∧ (peers k.generation → ∃ b, (k, b) ∈ delivered)

/-- What the table holds of the parcels `theirs`: parts of one, or one that was delivered. -/
def Keeping (theirs : List Parcel) (delivered : List (Key × Bytes))
    (inbound : Table Key Assembly) : Prop :=
  ∀ k asm, inbound.get? k = some asm → ∃ m ∈ theirs, m.key = k ∧
    ((∃ seen, asm.Holds m.parts seen) ∨
      asm.complete = true ∧ asm.acked = true ∧ m.entry ∈ delivered)

/-- The outbound bundles are parcels of `book`, and all others of these the peer has delivered:
`heard` are its deliveries. -/
structure Owed (book : List Parcel) (heard : List (Key × Bytes))
    (outbound : Table Key (List Fragment)) : Prop where
  known : ∀ k fs, outbound.get? k = some fs → ∃ m ∈ book, m.key = k ∧ m.parts = fs
  settled : ∀ m ∈ book, outbound.get? m.key = some m.parts ∨ m.entry ∈ heard

variable {own peers : UInt64 → Prop} {layout : Layout} {n n' : UInt64}
  {book book' theirs theirs' : List Parcel} {heard heard' d d' : List (Key × Bytes)}
  {inbound inbound' : Table Key Assembly} {outbound outbound' : Table Key (List Fragment)}

/-! ## parcels -/

theorem Ledger.empty (own : UInt64 → Prop) (layout : Layout) (n : UInt64) :
    Ledger own layout n [] := ⟨fun _ hm => (nomatch hm), .nil⟩

theorem Ledger.fresh (h : Ledger own layout n book) {m : Parcel} (hmessage : m.key.message = n) :
    ∀ m' ∈ book, m'.key ≠ m.key := by
  intro m' hm' hkey
  have hlt := (h.sent m' hm').numbered
  rw [hkey, hmessage] at hlt
  exact UInt64.lt_irrefl _ hlt

theorem Ledger.append (h : Ledger own layout n book) {m : Parcel}
    (hm : m.Sent own layout n') (hmessage : m.key.message = n) (hn : n < n') :
    Ledger own layout n' (book ++ [m]) := by
  refine ⟨?_, List.pairwise_append.mpr
    ⟨h.distinct, List.pairwise_singleton _ _, ?_⟩⟩
  · intro m' hm'
    rcases List.mem_append.mp hm' with hm' | hm'
    · obtain ⟨hproper, hparts, hown, hnumbered⟩ := h.sent m' hm'
      exact ⟨hproper, hparts, hown, UInt64.lt_trans hnumbered hn⟩
    · rw [List.mem_singleton.mp hm']
      exact hm
  · intro m' hm' m'' hm''
    rw [List.mem_singleton.mp hm'']
    exact h.fresh hmessage m' hm'

theorem Genuine.mono {f : Fragment} (h : Genuine peers book d f) (hbook : book ⊆ book')
    (hd : d ⊆ d') : Genuine peers book' d' f := by
  rcases h with ⟨m, hm, hf⟩ | ⟨k, hf, hk, hdelivered⟩
  · exact .inl ⟨m, hbook hm, hf⟩
  · refine .inr ⟨k, hf, hk, ?_⟩
    intro hg
    obtain ⟨b, hb⟩ := hdelivered hg
    exact ⟨b, hd hb⟩

theorem Genuine.fits (h : Ledger own layout n book) {f : Fragment} (hf : Genuine peers book d f) :
    f.Fits layout := by
  rcases hf with ⟨m, hm, hf⟩ | ⟨k, rfl, -⟩
  · exact (h.sent m hm).parts.fits f hf
  · exact ⟨Fragment.wellFormed_header _ _ _ _, fun _ => rfl⟩

/-! ## inbound bundles -/

theorem Keeping.mono (h : Keeping theirs d inbound) (htheirs : theirs ⊆ theirs') (hd : d ⊆ d')
    (hsub : ∀ k asm, inbound'.get? k = some asm → inbound.get? k = some asm) :
    Keeping theirs' d' inbound' := by
  intro k asm hk
  obtain ⟨m, hm, hkey, hwhat⟩ := h k asm (hsub k asm hk)
  refine ⟨m, htheirs hm, hkey, hwhat.imp id ?_⟩
  rintro ⟨hcomplete, hacked, hmem⟩
  exact ⟨hcomplete, hacked, hd hmem⟩

theorem Keeping.update (h : Keeping theirs d inbound) (hd : d ⊆ d') {m : Parcel}
    (hm : m ∈ theirs) (hothers : ∀ j, j ≠ m.key → inbound'.get? j = inbound.get? j)
    (hentry : ∀ asm, inbound'.get? m.key = some asm → (∃ seen, asm.Holds m.parts seen) ∨
      asm.complete = true ∧ asm.acked = true ∧ m.entry ∈ d') : Keeping theirs d' inbound' := by
  intro k asm hk
  by_cases hkey : k = m.key
  · subst hkey
    exact ⟨m, hm, rfl, hentry asm hk⟩
  · rw [hothers k hkey] at hk
    exact h.mono (List.Subset.refl _) hd (fun _ _ hj => hj) k asm hk

/-! ## outbound bundles -/

theorem Owed.mono (h : Owed book heard outbound) (hheard : heard ⊆ heard') :
    Owed book heard' outbound :=
  ⟨h.known, fun m hm => (h.settled m hm).imp id fun hmem => hheard hmem⟩

theorem Owed.put (h : Owed book heard outbound) {m : Parcel}
    (hfresh : ∀ m' ∈ book, m'.key ≠ m.key) :
    Owed (book ++ [m]) heard (outbound.put m.key m.parts) := by
  constructor
  · intro k fs hk
    rw [Table.get?_put] at hk
    split at hk
    · rename_i hkey
      exact ⟨m, by simp, hkey.symm, Option.some.inj hk⟩
    · obtain ⟨m', hm', hwhat⟩ := h.known k fs hk
      exact ⟨m', List.mem_append_left _ hm', hwhat⟩
  · intro m' hm'
    rcases List.mem_append.mp hm' with hm' | hm'
    · rw [Table.get?_put, if_neg (hfresh m' hm')]
      exact h.settled m' hm'
    · rw [List.mem_singleton.mp hm', Table.get?_put, if_pos rfl]
      exact .inl rfl

/-- A bundle that was acknowledged is not outbound any more: the ack was genuine. -/
theorem Owed.erase (h : Owed book heard outbound) (hledger : Ledger own layout n book)
    (hhonest : ∀ x ∈ heard, ∃ m ∈ book, x = m.entry) {k : Key} {b : Bytes}
    (hheard : (k, b) ∈ heard)
    (hout : ∀ j, outbound'.get? j = if j = k then none else outbound.get? j) :
    Owed book heard outbound' := by
  constructor
  · intro j fs hj
    rw [hout] at hj
    split at hj
    · cases hj
    · exact h.known j fs hj
  · intro m hm
    by_cases hkey : m.key = k
    · obtain ⟨m', hm', hentry⟩ := hhonest _ hheard
      have hkey' : k = m'.key := congrArg Prod.fst hentry
      rw [Parcel.eq_of_key hledger.distinct hm hm' (hkey.trans hkey'), ← hentry]
      exact .inr hheard
    · rw [hout, if_neg hkey]
      exact h.settled m hm

/-! ## one fragment -/

/-- the wire forms of genuine fragments -/
def Posted (peers : UInt64 → Prop) (layout : Layout) (book : List Parcel)
    (delivered : List (Key × Bytes)) (wires : List Bytes) : Prop :=
  ∀ wire ∈ wires, ∃ f, Genuine peers book delivered f ∧ wire = f.wire layout

theorem Posted.mono {wires : List Bytes} (h : Posted peers layout book d wires)
    (hbook : book ⊆ book') (hd : d ⊆ d') : Posted peers layout book' d' wires := by
  intro wire hwire
  obtain ⟨f, hf, heq⟩ := h wire hwire
  exact ⟨f, hf.mono hbook hd, heq⟩

theorem Posted.append {wires : List Bytes} (h : Posted peers layout book d wires)
    {fs : List Fragment} (hfs : ∀ f ∈ fs, Genuine peers book d f) :
    Posted peers layout book d (wires ++ fs.map (Fragment.wire layout)) := by
  intro wire hwire
  rcases List.mem_append.mp hwire with hwire | hwire
  · exact h wire hwire
  · obtain ⟨f, hf, rfl⟩ := List.mem_map.mp hwire
    exact ⟨f, hfs f hf, rfl⟩

namespace Attached

variable {start a b : Attached Line} {now : Moment} {f : Fragment} {r : Outcome Line Unit}

/-- A link with the parcels `book` that started to handle fragments at `start` has delivered `d` of
the parcels `theirs`, and the peer has delivered `heard`. -/
structure Sound (peers : UInt64 → Prop) (layout : Layout) (book theirs : List Parcel)
    (heard : List (Key × Bytes)) (start : Attached Line) (d : List (Key × Bytes))
    (a : Attached Line) : Prop where
  terms : a.link.terms = start.link.terms
  raw : a.link.raw = start.link.raw
  incoming : a.channel.incoming = start.channel.incoming
  owed : Owed book heard a.link.outbound
  ready : a.link.ready = d.map Prod.snd
  honest : ∀ x ∈ d, ∃ m ∈ theirs, x = m.entry
  posted : Posted peers layout book d a.channel.written

theorem Sound.layout_eq (h : Sound peers layout book theirs heard start d a)
    (hlayout : start.link.layout = layout) : a.link.layout = layout :=
  (Link.layout_of_terms h.terms).trans hlayout

/-- the bundles that a fragment made ready -/
theorem gain_eq {bundles : List Bytes} (hr : handle f now (a.arrived now) = r)
    (h : r.after.link.ready = a.link.ready ++ bundles) :
    a.gain now f = bundles.map fun b => (f.key, b) := by
  rw [gain, hr, h, List.drop_left]

theorem gain_eq_nil (hr : handle f now (a.arrived now) = r)
    (h : r.after.link.ready = a.link.ready) : a.gain now f = [] :=
  gain_eq hr (h.trans (List.append_nil _).symm)

/-- what was written is genuine, and nothing was delivered -/
theorem Sound.sent (h : Sound peers layout book theirs heard start d a)
    (hlayout : start.link.layout = layout) {gs : List Fragment}
    (hsent : Sent gs (a.arrived now) b) (hgs : ∀ g ∈ gs, Genuine peers book d g)
    (howed : Owed book heard b.link.outbound) (hready : b.link.ready = a.link.ready) :
    Sound peers layout book theirs heard start d b := by
  have hsame : (a.arrived now).link.layout = layout := h.layout_eq hlayout
  refine ⟨hsent.terms.trans h.terms, hsent.raw.trans h.raw, Eq.trans hsent.incoming h.incoming,
    howed, hready.trans h.ready, h.honest, ?_⟩
  have hout : b.channel.written = a.channel.written ++ gs.map (Fragment.wire layout) := by
    rw [← hsame]
    exact hsent.outgoing
  rw [hout]
  exact h.posted.append hgs

theorem Sound.deliver (h : Sound peers layout book theirs heard start d a) {m : Parcel}
    (hm : m ∈ theirs) (hlayout : start.link.layout = layout) (hproper : m.key.isProper = true)
    (hsent : Sent [.ack m.key] (a.arrived now) b) (hout : b.link.outbound = a.link.outbound)
    (hready : b.link.ready = a.link.ready ++ [m.buffer]) :
    Sound peers layout book theirs heard start (d ++ [m.entry]) b := by
  have hsame : (a.arrived now).link.layout = layout := h.layout_eq hlayout
  refine ⟨hsent.terms.trans h.terms, hsent.raw.trans h.raw, Eq.trans hsent.incoming h.incoming,
    by rw [hout]; exact h.owed, ?_, ?_, ?_⟩
  · rw [hready, h.ready, List.map_append]
    rfl
  · intro x hx
    rcases List.mem_append.mp hx with hx | hx
    · exact h.honest x hx
    · exact ⟨m, hm, List.mem_singleton.mp hx⟩
  · have hwritten : b.channel.written =
        a.channel.written ++ [Fragment.ack m.key].map (Fragment.wire layout) := by
      rw [← hsame]
      exact hsent.outgoing
    rw [hwritten]
    apply (h.posted.mono (List.Subset.refl _) (List.subset_append_left _ _)).append
    intro g hg
    rw [List.mem_singleton.mp hg]
    exact .inr ⟨m.key, rfl, hproper, fun _ => ⟨m.buffer, by simp [Parcel.entry]⟩⟩

/-- what a fragment may do: deliver parcels, keep parts of parcels, and write what is genuine -/
def Trusts (peers : UInt64 → Prop) (layout : Layout) (book theirs : List Parcel)
    (heard : List (Key × Bytes)) (start : Attached Line) (d : List (Key × Bytes))
    (r : Outcome Line Unit) : Prop :=
  r.Meets
    (fun _ b => Sound peers layout book theirs heard start d b ∧ Keeping theirs d b.link.inbound)
    (fun e b => Sound peers layout book theirs heard start d b ∧ e.Ends)

section
variable (hlayout : start.link.layout = layout) (hbook : Ledger own layout n book)
  (htheirs : Ledger peers layout n' theirs) (hhonest : ∀ x ∈ heard, ∃ m ∈ book, x = m.entry)
  (hapart : ∀ g, own g → ¬ peers g)
include hlayout

include hbook hhonest hapart in
theorem Sound.handle_ack (h : Sound peers layout book theirs heard start d a)
    (hkeep : Keeping theirs d a.link.inbound) {k : Key} (hk : k.isProper = true)
    (hack : own k.generation → ∃ b, (k, b) ∈ heard) :
    Trusts peers layout book theirs heard start (d ++ a.gain now (.ack k))
      (Attached.handle (.ack k) now (a.arrived now)) := by
  have hcases := Attached.handle_ack hk now (a.arrived now)
  generalize hr : Attached.handle (.ack k) now (a.arrived now) = r at hcases
  cases hcases with
  | confirmed b fs known sent ready inbound outbound =>
    obtain ⟨m, hm, hkey, -⟩ := h.owed.known k fs known
    have hown : own k.generation := by
      rw [← hkey]
      exact (hbook.sent m hm).owned
    obtain ⟨bundle, hbundle⟩ := hack hown
    rw [gain_eq_nil hr ready, List.append_nil]
    refine ⟨h.sent hlayout sent ?_
      (h.owed.erase hbook hhonest hbundle outbound) ready, ?_⟩
    · intro g hg
      rw [List.mem_singleton.mp hg]
      exact .inr ⟨k, rfl, hk, fun hpeer => absurd hpeer (hapart _ hown)⟩
    · rw [inbound]
      exact hkeep
  | unanswered e b fs known isOpen => cases (show true = false from isOpen)
  | forgotten b unknown sent ready outbound inbound =>
    rw [gain_eq_nil hr ready, List.append_nil]
    refine ⟨h.sent hlayout sent (fun g hg => nomatch hg) (by rw [outbound]; exact h.owed) ready,
      hkeep.mono (List.Subset.refl _) (List.Subset.refl _) ?_⟩
    intro j asm hj
    rw [inbound] at hj
    split at hj
    · cases hj
    · exact hj

include htheirs in
theorem Sound.handle_part (h : Sound peers layout book theirs heard start d a)
    (hkeep : Keeping theirs d a.link.inbound) {m : Parcel} (hm : m ∈ theirs) (hf : f ∈ m.parts)
    {seen : List Fragment} (hpart : Partial m.parts seen (a.link.inbound.get? m.key)) :
    Trusts peers layout book theirs heard start (d ++ a.gain now f)
      (Attached.handle f now (a.arrived now)) := by
  have hsame : (a.arrived now).link.layout = layout := h.layout_eq hlayout
  obtain ⟨hproper, hp, -, -⟩ := htheirs.sent m hm
  have hquiet {b : Attached Line} (htouched : Touched m.key [] (a.arrived now) b)
      (hready : b.link.ready = a.link.ready) :
      Sound peers layout book theirs heard start d b :=
    h.sent hlayout htouched.toSent (fun g hg => nomatch hg)
      (by rw [htouched.outbound]; exact h.owed) hready
  have hcases : PartResult now m.key m.buffer m.parts seen f (a.arrived now)
      (Attached.handle f now (a.arrived now)) :=
    Attached.handle_part (by rw [hsame]; exact hp) hf hpart
  generalize hr : Attached.handle f now (a.arrived now) = r at hcases
  cases hcases with
  | faulted e b _ _ touched ready =>
    rw [gain_eq_nil hr ready, List.append_nil]
    exact ⟨hquiet touched ready, trivial⟩
  | repeated b old touched ready entry =>
    rw [gain_eq_nil hr ready, List.append_nil]
    refine ⟨hquiet touched ready, hkeep.mono (List.Subset.refl _) (List.Subset.refl _) ?_⟩
    intro j asm hj
    by_cases hjk : j = m.key
    · rw [hjk] at hj ⊢
      exact entry.symm.trans hj
    · exact (touched.others j hjk).symm.trans hj
  | added b asm new unfinished touched ready entry holds =>
    rw [gain_eq_nil hr ready, List.append_nil]
    refine ⟨hquiet touched ready, hkeep.update (List.Subset.refl _) hm touched.others ?_⟩
    intro asm' hasm'
    rw [entry] at hasm'
    rw [← Option.some.inj hasm']
    exact .inl ⟨f :: seen, holds⟩
  | completed b asm _ new finished isOpen touched ready entry complete acked =>
    have hgain : a.gain now f = [m.entry] := by
      rw [gain_eq hr ready, hp.key f hf]
      rfl
    rw [hgain]
    refine ⟨h.deliver hm hlayout hproper touched.toSent touched.outbound ready,
      hkeep.update (List.subset_append_left _ _) hm touched.others ?_⟩
    intro asm' hasm'
    rw [entry] at hasm'
    rw [← Option.some.inj hasm']
    exact .inr ⟨complete, acked, by simp⟩
  | unanswered e b new finished isOpen => cases (show true = false from isOpen)

include htheirs in
theorem Sound.handle_again (h : Sound peers layout book theirs heard start d a)
    (hkeep : Keeping theirs d a.link.inbound) {m : Parcel} (hm : m ∈ theirs) (hf : f ∈ m.parts)
    {asm : Assembly} (hentry : a.link.inbound.get? m.key = some asm)
    (hcomplete : asm.complete = true) (hacked : asm.acked = true) (hd : m.entry ∈ d) :
    Trusts peers layout book theirs heard start (d ++ a.gain now f)
      (Attached.handle f now (a.arrived now)) := by
  have hsame : (a.arrived now).link.layout = layout := h.layout_eq hlayout
  obtain ⟨hproper, hp, -, -⟩ := htheirs.sent m hm
  have hcases : (∃ b, Attached.handle f now (a.arrived now) = .ok () b ∧
      Wrote [.ack m.key] (a.arrived now) b) ∨
      ∃ e e', Attached.handle f now (a.arrived now) = .error (.fault e) (a.arrived now) ∧
        (a.arrived now).link.deadline now 0 = .error e' :=
    Attached.handle_again (by rw [hsame]; exact hp) hf hentry hcomplete hacked rfl
  obtain ⟨b, hr, hwrote⟩ | ⟨e, _, hr, -⟩ := hcases
  · rw [gain_eq_nil hr hwrote.ready, List.append_nil, hr]
    refine ⟨h.sent hlayout hwrote.toSent ?_ (by rw [hwrote.outbound]; exact h.owed)
      hwrote.ready, by rw [hwrote.inbound]; exact hkeep⟩
    intro g hg
    rw [List.mem_singleton.mp hg]
    exact .inr ⟨m.key, rfl, hproper, fun _ => ⟨m.buffer, hd⟩⟩
  · have hready : (a.arrived now).link.ready = a.link.ready := rfl
    rw [gain_eq_nil hr hready, List.append_nil, hr]
    exact ⟨h.sent hlayout (.refl _) (fun g hg => nomatch hg) h.owed rfl, trivial⟩

include hbook htheirs hhonest hapart in
theorem Sound.handle (h : Sound peers layout book theirs heard start d a)
    (hkeep : Keeping theirs d a.link.inbound) (hf : Genuine own theirs heard f) :
    Trusts peers layout book theirs heard start (d ++ a.gain now f)
      (Attached.handle f now (a.arrived now)) := by
  rcases hf with ⟨m, hm, hf⟩ | ⟨k, rfl, hk, hack⟩
  · cases hget : a.link.inbound.get? m.key with
    | none =>
      have hpart : Partial m.parts [] (a.link.inbound.get? m.key) := by
        rw [hget]
        exact fun g _ => List.not_mem_nil
      exact h.handle_part hlayout htheirs hkeep hm hf hpart
    | some asm =>
      obtain ⟨m', hm', hkey, hwhat⟩ := hkeep m.key asm hget
      obtain rfl := Parcel.eq_of_key htheirs.distinct hm' hm hkey
      rcases hwhat with ⟨seen, hholds⟩ | ⟨hcomplete, hacked, hd⟩
      · have hpart : Partial m'.parts seen (a.link.inbound.get? m'.key) := by
          rw [hget]
          exact hholds
        exact h.handle_part hlayout htheirs hkeep hm hf hpart
      · exact h.handle_again hlayout htheirs hkeep hm hf hget hcomplete hacked hd
  · exact h.handle_ack hlayout hbook hhonest hapart hkeep hk hack

end

end Attached

end BundleLink
