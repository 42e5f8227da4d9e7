import BundleLink.Proofs.Answering
import BundleLink.Proofs.Reassembly.Collecting
import BundleLink.Proofs.Session.Acks
import BundleLink.Proofs.Session.Entries
import BundleLink.Proofs.Session.Provenance
import BundleLink.Proofs.Session.Replies

/-!
# Bundles do not interfere

A link that was just opened, and that sends no bundles of its own, handles fragments of any kind
while time stands still. What it says and delivers about a bundle is then what it would say and
deliver if there were no fragments but those with the key of this bundle.

* `Deed.concerns`       deliveries of a bundle, and acks and naks for it;
* `share`               those of them that some fragments lead to;
* `Attached.Apportioned`  the state of a link between two fragments, of which each entry only
  depends on the fragments with its key;
* `Apportioned.handle`  one more fragment, and `Apportioned.handleAll` all fragments of a receive;
* `Session.Apportioned` the same for a session, with `Apportioned.run`;
* `Session.filter_concerns_eq`  the result.
-/

namespace BundleLink

open Assembly (react reactAll timeless)
open Link (Still Calm)

/-! ## what concerns a bundle -/

/-- what the peer or the application sees of a reaction -/
def Reaction.deed (layout : Layout) (k : Key) : Reaction → Deed
  | .ack => .called (.write ((Fragment.ack k).wire layout) none)
  | .nak => .called (.write ((Fragment.nak k).wire layout) none)
  | .bundle bytes => .delivered k bytes

/-- The bundle is delivered, or an ack or a nak for it is written. -/
def Deed.concerns (layout : Layout) (k : Key) : Deed → Bool
  | .assembled _ _ => false
  | .called (.write bytes _) =>
    bytes == (Fragment.ack k).wire layout || bytes == (Fragment.nak k).wire layout
  | .called (.flush _) => false
  | .delivered j _ => j == k

/-- what a link says and delivers about the bundle when it has handled fragments of any kind -/
def share (layout : Layout) (k : Key) (fs : List Fragment) : List Deed :=
  (reactAll layout (fs.filter (·.key == k)) none).2.map (Reaction.deed layout k)

theorem filter_key_concat {k : Key} {f : Fragment} (hf : f.key = k) (fs : List Fragment) :
    (fs ++ [f]).filter (·.key == k) = fs.filter (·.key == k) ++ [f] := by
  rw [List.filter_append, List.filter_cons, hf, beq_self_eq_true]
  rfl

theorem filter_key_skip {k : Key} {f : Fragment} (hf : f.key ≠ k) (fs : List Fragment) :
    (fs ++ [f]).filter (·.key == k) = fs.filter (·.key == k) := by
  rw [List.filter_append, List.filter_cons, beq_false_of_ne hf]
  exact List.append_nil _

theorem share_filter (layout : Layout) (k : Key) (fs : List Fragment) :
    share layout k (fs.filter (·.key == k)) = share layout k fs := by
  rw [share, share, List.filter_filter]
  simp only [Bool.and_self]

/-- Acks and naks for one bundle are about no other one. -/
theorem concerns_answer {layout : Layout} {j k : Key} {f : Fragment}
    (hf : f = .ack j ∨ f = .nak j) (failure : Option IoError) :
    Deed.concerns layout k (.called (.write (f.wire layout) failure)) = (j == k) := by
  have hfits : f.Fits layout := Fragment.IsAnswer.fits ⟨j, hf⟩ layout
  have hkey : f.key = j := by rcases hf with rfl | rfl <;> rfl
  have hack : (Fragment.ack k).Fits layout := Fragment.IsAnswer.fits ⟨k, .inl rfl⟩ layout
  have hnak : (Fragment.nak k).Fits layout := Fragment.IsAnswer.fits ⟨k, .inr rfl⟩ layout
  rw [Bool.eq_iff_iff, Deed.concerns, Bool.or_eq_true, beq_iff_eq, beq_iff_eq, beq_iff_eq]
  constructor
  · rintro (hsame | hsame)
    · rw [← hkey, Wire.wire_inj hfits hack hsame, Fragment.key_ack]
    · rw [← hkey, Wire.wire_inj hfits hnak hsame, Fragment.key_nak]
  · rintro rfl
    exact hf.imp (congrArg _) (congrArg _)

/-- of the calls for an answer the write concerns its bundle -/
theorem filter_answer {layout : Layout} {j k : Key} {f : Fragment} (hf : f = .ack j ∨ f = .nak j) :
    ([.called (.write (f.wire layout) none), .called (.flush none)] : List Deed).filter
        (Deed.concerns layout k) ++ [] =
      if j = k then [.called (.write (f.wire layout) none)] else [] := by
  have hflush : Deed.concerns layout k (.called (.flush none)) = false := rfl
  rw [List.append_nil, List.filter_cons, List.filter_cons, hflush, concerns_answer hf]
  by_cases hk : j = k
  · rw [if_pos (beq_iff_eq.mpr hk), if_pos hk]
    rfl
  · rw [if_neg (mt beq_iff_eq.mp hk), if_neg hk]
    rfl

/-- the reactions to one fragment: an answer, if any, and then a bundle, if any -/
theorem react_reactions (layout : Layout) (f : Fragment) (o : Option Assembly) :
    (react layout f o).2 = [] ∨ (react layout f o).2 = [.ack] ∨ (react layout f o).2 = [.nak] ∨
      ∃ bundle, (react layout f o).2 = [.ack, .bundle bundle] := by
  have hrefuse (k : Key) : (Assembly.refuse k).2 = [] ∨ (Assembly.refuse k).2 = [.nak] := by
    rw [Assembly.refuse]
    cases k.isProper
    · exact .inl rfl
    · exact .inr rfl
  have hgather (asm : Assembly) : (Assembly.gather layout f asm).2 = [] ∨
      (Assembly.gather layout f asm).2 = [.nak] ∨
      ∃ bundle, (Assembly.gather layout f asm).2 = [.ack, .bundle bundle] := by
    rw [Assembly.gather]
    split
    · exact .inl rfl
    · exact (hrefuse f.key).imp_right .inl
    · split
      · split
        · exact .inr (.inr ⟨_, rfl⟩)
        · exact (hrefuse f.key).imp_right .inl
      · exact .inl rfl
  rw [Assembly.react.eq_def]
  split
  · exact .inl rfl
  · split
    · exact .inl rfl
    · split
      · exact (hgather _).imp_right .inr
      · rename_i asm
        split
        · cases asm.acked
          · exact .inl rfl
          · exact .inr (.inl rfl)
        · exact (hgather asm).imp_right .inr

namespace Attached

variable {σ : Type} [Channel σ] {a b : Attached (Traced σ)} {layout : Layout} {j k : Key}
  {start : Link} {now : Moment} {limit : Nat} {f : Fragment} {fs : List Fragment}

/-- Of the deeds of a fragment its reactions concern the bundle of the fragment, and nothing
concerns any other bundle. -/
theorem filter_deeds {o : Option Assembly} (hhandled : handle f now a = .ok () b)
    (h : Responded layout f.key (react layout f o) a b) :
    (deeds now f a).filter (Deed.concerns layout k) =
      if f.key = k then (react layout f o).2.map (Reaction.deed layout f.key) else [] := by
  have hrecorded := h.recorded
  have hafter : b = (handle f now a).after := by rw [hhandled]; rfl
  rw [hafter] at hrecorded
  rw [hrecorded.deeds_eq]
  have hassembled : ((a.link.completes f now).toList.map (Deed.assembled f.key)).filter
      (Deed.concerns layout k) = [] := by
    cases a.link.completes f now <;> rfl
  rw [List.filter_append, List.filter_append, hassembled, List.nil_append]
  rcases react_reactions layout f o with hrs | hrs | hrs | ⟨bundle, hrs⟩
  all_goals rw [hrs]
  · split <;> rfl
  · exact filter_answer (.inl rfl)
  · exact filter_answer (.inr rfl)
  · have hfirst := @filter_answer layout f.key k (.ack f.key) (.inl rfl)
    rw [List.append_nil] at hfirst
    show List.filter _ ([_, _] : List Deed) ++ List.filter _ [Deed.delivered f.key bundle] = _
    rw [hfirst, List.filter_cons, List.filter_nil]
    show _ ++ (if (f.key == k) = true then _ else _) = _
    by_cases hk : f.key = k
    · rw [if_pos hk, if_pos (beq_iff_eq.mpr hk), if_pos hk]
      rfl
    · rw [if_neg hk, if_neg (mt beq_iff_eq.mp hk), if_neg hk]
      rfl

/-! ## one fragment after the other -/

omit [Channel σ] in
theorem Change.kept {l : Link} {o o' : Option Assembly} {bundle : Option Bytes} {asm : Assembly}
    (h : Change l f now o o' bundle) (hmin : 0 < l.settings.minLag.ns)
    (hkept : ∀ asm, o = some asm → asm.Kept now) (hasm : o' = some asm) : asm.Kept now := by
  cases h with
  | passed => exact hkept asm hasm
  | released => cases hasm
  | rejected => cases hasm
  | doubled old b hopen hinserted =>
    cases hasm
    obtain ⟨-, -, hcomplete, hlast⟩ := Assembly.insert_duplicate hinserted
    rw [Assembly.Kept, hcomplete, hlast, hopen]
    exact ⟨fun _ => (hkept old rfl).1 hopen, nofun⟩
  | @added _ old grown deadline begins part hinserted =>
    cases hasm
    have hopen : old.complete = false := by
      cases begins with
      | underway _ hopen => exact hopen
      | new => rfl
    have hcomplete : grown.complete = false := (Assembly.insert_added hinserted).2.2.trans hopen
    exact ⟨fun _ => rfl, fun hx => absurd (hcomplete.symm.trans hx) Bool.false_ne_true⟩
  | finished deadline bundle begins part hinserted hdue =>
    cases hasm
    exact ⟨nofun, fun _ => Link.lt_deadline hmin hdue⟩

/-- The link was `start` when it was opened, and has handled the fragments `fs` since. It can do so
with any other fragments that may come, and each of its entries, but for the moments, is what the
fragments with its key have made of it. -/
structure Apportioned (start : Link) (now : Moment) (fs : List Fragment) (a : Attached (Traced σ)) :
    Prop where
  connected : a.link.connected = true
  layout_eq : a.link.layout = start.layout
  still : Still start now fs.length a.link
  accepts : Channel.Accepts a.channel
  outbound : ∀ k, a.link.outbound.get? k = none
  regular : ∀ k asm, a.link.inbound.get? k = some asm → asm.Regular k
  kept : ∀ k asm, a.link.inbound.get? k = some asm → asm.Kept now
  entries : ∀ k, (a.link.inbound.get? k).map timeless =
    (reactAll start.layout (fs.filter (·.key == k)) none).1

/-- Raw bytes, ready bundles, counts and log do not matter, nor what only concerns writes. -/
theorem Apportioned.congr (h : Apportioned start now fs a)
    (hlink : ∃ size raw ready generation timeouts traffic log, b.link =
      { a.link with
        fragmentSize := size, raw := raw, ready := ready, generation := generation
        timeouts := timeouts, traffic := traffic, log := log })
    (hleads : Channel.Leads a.channel b.channel) : Apportioned start now fs b := by
  obtain ⟨size, raw, ready, generation, timeouts, traffic, log, hlink⟩ := hlink
  obtain ⟨hsettings, hgaps, harrival, hprogress⟩ := h.still
  constructor
  case accepts => exact h.accepts.leads hleads
  all_goals rw [hlink]
  · exact h.connected
  · exact h.layout_eq
  · exact ⟨hsettings, hgaps, harrival, hprogress⟩
  · exact h.outbound
  · exact h.regular
  · exact h.kept
  · exact h.entries

theorem Apportioned.ample (h : Apportioned start now fs a) (hcalm : Calm start now limit)
    (hroom : fs.length < limit) : Ample (a.arrived now).link now :=
  fun _ hmissing => (still_arrived h.still).deadline hcalm hroom hmissing

theorem Apportioned.handle (h : Apportioned start now fs a) (hcalm : Calm start now limit)
    (hmin : 0 < start.settings.minLag.ns) (hroom : fs.length < limit) (f : Fragment) :
    ∃ b, Attached.handle f now (a.arrived now) = .ok () b ∧ Apportioned start now (fs ++ [f]) b ∧
      ∀ k, share start.layout k (fs ++ [f]) = share start.layout k fs ++
        (deeds now f (a.arrived now)).filter (Deed.concerns start.layout k) := by
  obtain ⟨b, hb, hresponded⟩ := handle_responds (a := a.arrived now) (f := f) h.accepts h.layout_eq
    (h.ample hcalm hroom) (h.outbound f.key) (h.regular f.key)
  have hleads := handle_leads f now (a.arrived now)
  have hchanges := handle_changes f now (a.arrived now)
  rw [hb] at hleads hchanges
  obtain ⟨bundle, hchanged⟩ := hchanges
  have hframe := congrArg Link.frame hchanged.core
  have hsettings : (a.arrived now).link.settings = start.settings := h.still.settings
  have hentry : ((a.arrived now).link.inbound.get? f.key).map timeless = _ := h.entries f.key
  rw [hentry] at hresponded
  refine ⟨b, hb, ⟨?_, ?_, ?_, h.accepts.leads hleads, ?_, ?_, ?_, ?_⟩, ?_⟩
  · exact (connected_of_core hchanged.core).trans h.connected
  · exact (layout_of_core hchanged.core).trans h.layout_eq
  · rw [List.length_append]
    exact (still_arrived h.still).congr hframe
  · rw [hresponded.outbound]
    exact h.outbound
  · intro k asm hk
    by_cases hkey : k = f.key
    · subst hkey
      rcases hchanged.change.entry (h.regular f.key) hk with hold | ⟨hregular, -⟩
      · exact h.regular f.key asm hold
      · exact hregular
    · exact h.regular k asm ((hchanged.others k hkey).symm.trans hk)
  · intro k asm hk
    by_cases hkey : k = f.key
    · subst hkey
      exact hchanged.change.kept (by rw [hsettings]; exact hmin) (h.kept f.key) hk
    · exact h.kept k asm ((hchanged.others k hkey).symm.trans hk)
  · intro k
    by_cases hkey : f.key = k
    · subst hkey
      rw [hresponded.entry, filter_key_concat rfl, Assembly.reactAll_concat]
    · rw [hchanged.others k (Ne.symm hkey), filter_key_skip hkey]
      exact h.entries k
  · intro k
    rw [filter_deeds hb hresponded, share, share]
    split
    · rename_i hkey
      subst hkey
      rw [filter_key_concat rfl, Assembly.reactAll_concat, List.map_append]
    · rename_i hkey
      rw [filter_key_skip hkey, List.append_nil]

/-- All fragments among pieces are handled, and the deeds about each bundle are added up. -/
theorem Apportioned.handleAll (hcalm : Calm start now limit)
    (hmin : 0 < start.settings.minLag.ns) (ps : List Wire.Piece) (offset count : Nat)
    (h : Apportioned start now fs a)
    (hroom : fs.length + (notes now offset ps a).length ≤ limit) :
    ∃ n b, Attached.handleAll now count ps a = .ok n b ∧
      Apportioned start now (fs ++ (notes now offset ps a).map (·.fragment)) b ∧
      ∀ k, share start.layout k (fs ++ (notes now offset ps a).map (·.fragment)) =
        share start.layout k fs ++
          (along (deeds now) now ps a).filter (Deed.concerns start.layout k) := by
  induction ps generalizing fs offset count a with
  | nil =>
    refine ⟨count, a, rfl, ?_, fun k => ?_⟩
    · rw [notes, List.map_nil, List.append_nil]
      exact h
    · rw [notes, along, List.map_nil, List.append_nil, List.filter_nil, List.append_nil]
  | cons p ps ih =>
    cases p with
    | skipped size flaw =>
      exact ih (offset + size) count (a := a.warn (.dropped size a.link.description flaw))
        (h.congr ⟨_, _, _, _, _, _, _, rfl⟩ .refl) hroom
    | fragment f size =>
      rw [notes, List.length_cons] at hroom
      obtain ⟨b, hb, hone, hshare⟩ := h.handle hcalm hmin (by omega) f
      rw [Attached.handleAll, notes, along, hb]
      rw [hb] at hroom
      dsimp only at hroom ⊢
      have hroom : (fs ++ [f]).length + (notes now (offset + size) ps b).length ≤ limit := by
        rw [List.length_append, List.length_singleton]
        omega
      obtain ⟨n, c, hc, hall, hshares⟩ := ih (offset + size) (count + 1) hone hroom
      rw [List.map_cons]
      show ∃ n b, _ ∧ Apportioned start now (fs ++ f :: _) b ∧
        ∀ k, share start.layout k (fs ++ f :: _) = _
      rw [List.append_cons]
      refine ⟨n, c, hc, hall, fun k => ?_⟩
      rw [hshares, hshare, List.filter_append, List.append_assoc]

/-- What is dropped after a receive is nothing, as long as the clock stands still. -/
theorem Apportioned.purged (h : Apportioned start now fs a) (hpurged : Purged now a b) :
    Apportioned start now fs b := by
  have hsame (k : Key) : b.link.inbound.get? k = a.link.inbound.get? k := by
    rw [hpurged.inbound]
    cases hk : a.link.inbound.get? k with
    | none => rfl
    | some asm =>
      rw [Option.filter_some, (h.kept k asm hk).isOverdue_eq, Bool.not_false, if_pos rfl]
  have hframe := congrArg Link.frame hpurged.core
  refine ⟨hpurged.connected.trans h.connected,
    (Link.layout_of_terms hpurged.terms).trans h.layout_eq, h.still.congr hframe,
    hpurged.channel ▸ h.accepts, ?_, ?_, ?_, ?_⟩
  · rw [hpurged.outbound]
    exact h.outbound
  · intro k asm hk
    exact h.regular k asm ((hsame k).symm.trans hk)
  · intro k asm hk
    exact h.kept k asm ((hsame k).symm.trans hk)
  · intro k
    rw [hsame]
    exact h.entries k

end Attached

/-! ## sessions -/

namespace Session

variable {σ : Type} {s t : Session σ} {c : Chronicle} {start : Link} {now : Moment} {limit : Nat}
  {layout : Layout} {fs : List Fragment} {k : Key}

/-- No bundle is written, all receives are at one moment, and the layout stays the same. -/
def Event.Listens (layout : Layout) (now : Moment) : Event → Prop
  | .act .receive moment => moment = now
  | .act (.write _ _) _ | .act (.writeText _ _) _ => False
  | .act _ _ => True
  | .setLayout l => l = layout

theorem Event.Listens.buffer {e : Event} (he : e.Listens layout now) : e.buffer? = none := by
  cases e with
  | setLayout l => rfl
  | act op moment =>
    cases op with
    | write buffer flushNow => exact he.elim
    | writeText text flushNow => exact he.elim
    | _ => rfl

variable [Channel σ]

/-- A session of a link that was `start` when it was opened, and that has handled the fragments `fs`
since: what it has said and delivered about each bundle is what the fragments with its key lead
to. -/
structure Apportioned (start : Link) (now : Moment) (fs : List Fragment) (s : Session σ) :
    Prop where
  inv : Inv s
  calls : s.channel.calls = Deed.calls s.history
  shares : ∀ k, s.history.filter (Deed.concerns start.layout k) = share start.layout k fs
  atWork : s.party.Active → Attached.Apportioned start now fs s.attached

theorem Apportioned.aside (h : Apportioned start now fs s) (ht : Aside s t) (hinv : Inv t) :
    Apportioned start now fs t := by
  refine ⟨hinv, ?_, ?_, fun hx => ?_⟩
  · rw [ht.calls, ht.history]
    exact h.calls
  · rw [ht.history]
    exact h.shares
  · obtain ⟨hactive, hchannel, size, ready, generation, hlink⟩ := ht.active hx
    have hleads : Channel.Leads s.attached.channel t.attached.channel := by
      show Channel.Leads s.channel t.channel
      rw [hchannel]
      exact .refl
    exact (h.atWork hactive).congr ⟨_, _, _, _, _, _, _, hlink⟩ hleads

/-- a receive, all fragments of which are handled -/
theorem Apportioned.receive (h : Apportioned start now (c.notes.map (·.fragment)) s)
    (hcalm : Calm start now limit) (hmin : 0 < start.settings.minLag.ns)
    (hroom : (s.record c (.act .receive now)).notes.length ≤ limit) :
    Apportioned start now ((s.record c (.act .receive now)).notes.map (·.fragment))
      (s.step (.act .receive now)) := by
  by_cases hactive : s.party.Active
  · have hrecord := record_of_active hactive c now
    have hstep := step_of_active hactive now
    obtain ⟨hattached, hhistory, -⟩ := s.settle_after [] (s.deeds now)
      (Attached.settle (Attached.receiveBundles now s.attached))
    have hchannel : (s.settle [] (s.deeds now) _).channel = _ := congrArg Attached.channel hattached
    have hcalls : (s.step (.act .receive now)).channel.calls =
        Deed.calls (s.step (.act .receive now)).history := by
      have hrecorded := (h.inv.receive hactive.2 now).1
      rw [receive_of_active hactive] at hrecorded
      rw [hstep, hhistory, hchannel, hrecorded.calls, Deed.calls_append, ← h.calls]
      rfl
    have hatWork := h.atWork hactive
    rw [hrecord] at hroom ⊢
    rw [← hstep] at hhistory
    cases hended : s.attached.intake.ended with
    | error e =>
      -- what was read before the failure is not looked at
      have hnone : s.deeds now = [] := by
        rw [Session.deeds, Attached.during, if_pos hatWork.connected, Attached.fillRaw_error hended]
      rw [Chronicle.notes_failed hended]
      refine ⟨h.inv.step _, hcalls, fun k => ?_, fun hx => ?_⟩
      · rw [hhistory, hnone, List.append_nil]
        exact h.shares k
      · rw [hstep, Attached.receiveBundles_failed hended] at hx
        have hends : Failure.Ends (.error (.io e)) := rfl
        exact absurd hx (not_active_settle hends [] _ _)
    | ok ended =>
      have hnotes : (c.receive now s.attached).notes = _ := Chronicle.notes_ok hended
      rw [hnotes] at hroom ⊢
      rw [List.length_append] at hroom
      have hloaded : Attached.Apportioned start now (c.notes.map (·.fragment))
          s.attached.loaded := hatWork.congr ⟨_, _, _, _, _, _, _, rfl⟩ (fill_leads _ _ _ _)
      have hlength : (c.notes.map (·.fragment)).length = c.notes.length := List.length_map _
      rw [← hlength] at hroom
      obtain ⟨n, b, hb, hall, hshares⟩ := hloaded.handleAll hcalm hmin s.attached.pieces _ 0 hroom
      have hdeeds : s.deeds now =
          Attached.along (Attached.deeds now) now s.attached.pieces s.attached.loaded := by
        rw [Session.deeds, Attached.during, if_pos hatWork.connected, Attached.fillRaw_ok hended]
        rfl
      rw [List.map_append]
      refine ⟨h.inv.step _, hcalls, fun k => ?_, fun hx => ?_⟩
      · rw [hhistory, hdeeds, List.filter_append, h.shares, hshares]
      · have hconclude := Attached.conclude_meets now ended n b
        rw [hstep, Attached.receiveBundles_handled hended hb] at hx ⊢
        generalize Attached.conclude now ended n b = r at hx hconclude ⊢
        cases r with
        | ok _ d => exact hall.purged hconclude.1
        | error e d => exact absurd hx (not_active_settle hconclude.2 [] _ d)
  · rw [record_of_idle hactive, step_of_idle hactive now]
    exact h

theorem Apportioned.step (h : Apportioned start now (c.notes.map (·.fragment)) s)
    (hcalm : Calm start now limit) (hmin : 0 < start.settings.minLag.ns) {e : Event}
    (he : e.Listens start.layout now) (hroom : (s.record c e).notes.length ≤ limit) :
    Apportioned start now ((s.record c e).notes.map (·.fragment)) (s.step e) := by
  by_cases hreceive : ∃ moment, e = .act .receive moment
  · obtain ⟨moment, rfl⟩ := hreceive
    obtain rfl : moment = now := he
    exact h.receive hcalm hmin hroom
  · have hne (moment : Moment) : e ≠ .act .receive moment := fun heq => hreceive ⟨moment, heq⟩
    rw [record_of_ne hne]
    refine h.aside (aside_step hne he.buffer fun hx l hl => ?_) (h.inv.step e)
    subst hl
    exact Eq.trans he (h.atWork hx).layout_eq.symm

/-- a chronicle never gets shorter -/
theorem length_notes_le (es : List Event) (s : Session σ) (c : Chronicle) :
    c.notes.length ≤ (s.chronicle c es).notes.length := by
  induction es generalizing s c with
  | nil => exact Nat.le_refl _
  | cons e es ih =>
    refine Nat.le_trans ?_ (ih (s.step e) (s.record c e))
    unfold record
    split
    · split
      · show _ ≤ (c.notes ++ _).length
        rw [List.length_append]
        exact Nat.le_add_right _ _
      · exact Nat.le_refl _
    · exact Nat.le_refl _

theorem Apportioned.run (es : List Event)
    (h : Apportioned start now (c.notes.map (·.fragment)) s) (hcalm : Calm start now limit)
    (hmin : 0 < start.settings.minLag.ns) (hes : ∀ e ∈ es, e.Listens start.layout now)
    (hroom : (s.chronicle c es).notes.length ≤ limit) :
    Apportioned start now ((s.chronicle c es).notes.map (·.fragment)) (s.run es) := by
  induction es generalizing s c with
  | nil => exact h
  | cons e es ih =>
    have hfirst := Nat.le_trans (length_notes_le es (s.step e) (s.record c e)) hroom
    exact ih (h.step hcalm hmin (hes e List.mem_cons_self) hfirst)
      (fun e he => hes e (List.mem_cons_of_mem _ he)) hroom

theorem apportioned_opened (id : Nat) (description : String) (settings : Settings)
    (generation : UInt64) (now : Moment) {channel : σ} (haccepts : Channel.Accepts channel) :
    Apportioned (.opened id description settings generation now) now []
      (opened id description settings generation now channel) :=
  ⟨inv_opened id description settings generation now channel, rfl, fun _ => rfl, fun _ =>
    ⟨rfl, rfl, ⟨rfl, ⟨0, Nat.le_refl 0, rfl⟩, nofun, rfl⟩, haccepts.traced [], fun _ => rfl, nofun,
      nofun, fun _ => rfl⟩⟩

/-- In a run of events the session hears the wire forms of these fragments and nothing else, and
handles all of them. Its channel accepts all that is written to it. -/
structure Hears (layout : Layout) (now : Moment) (fs : List Fragment) (s : Session σ)
    (es : List Event) : Prop where
  accepts : Channel.Accepts s.channel.channel
  listens : ∀ e ∈ es, e.Listens layout now
  heard : (s.chronicle .blank es).heard = Fragment.wires layout fs
  handled : (s.chronicle .blank es).notes.length = fs.length

/-- The fragments that are handled are those that the peer sent. -/
theorem Hears.notes_eq {settings : Settings} (id : Nat) (description : String)
    (generation : UInt64) (channel : σ) {es : List Event}
    (hs : s = opened id description settings generation now channel)
    (h : Hears settings.layout now fs s es) (hfits : ∀ f ∈ fs, f.Fits settings.layout) :
    (s.chronicle .blank es).notes.map (·.fragment) = fs := by
  subst hs
  have hchronicled := (chronicled_opened id description settings generation now channel).run es
    fun l hl => h.listens _ hl
  have hnoted := hchronicled.noted
  rw [Chronicle.Noted, h.heard] at hnoted
  have hprefix := hnoted.map Wire.Find.fragment
  rw [Wire.map_finds, Wire.scan_all hfits, Wire.fragments_whole, List.map_map] at hprefix
  exact hprefix.eq_of_length ((List.length_map _).trans h.handled)

/-- What such a session says and delivers about each bundle only depends on the fragments with its
key. -/
theorem Hears.filter_eq {settings : Settings} (hvalid : settings.Valid) (id : Nat)
    (description : String) (generation : UInt64) (channel : σ) {es : List Event}
    (hs : s = opened id description settings generation now channel)
    (h : Hears settings.layout now fs s es) (hfits : ∀ f ∈ fs, f.Fits settings.layout)
    (hcalm : Calm s.party.link now fs.length) (k : Key) :
    (s.run es).history.filter (Deed.concerns settings.layout k) = share settings.layout k fs ∧
      (s.run es).channel.calls = Deed.calls (s.run es).history ∧
      (s.run es).party.delivered = (Deed.deliveries (s.run es).history).map Prod.snd := by
  have hnotes := h.notes_eq id description generation channel hs hfits
  have hroom := Nat.le_of_eq h.handled
  have hchannel : s.channel.channel = channel := by
    rw [hs]
    rfl
  have haccepts : Channel.Accepts channel := hchannel ▸ h.accepts
  have hopened := apportioned_opened id description settings generation now haccepts
  rw [← hs] at hopened
  have hlink : s.party.link = .opened id description settings generation now := by
    rw [hs]
    rfl
  rw [hlink] at hcalm
  have hmin := ((Settings.valid_iff settings).mp hvalid).2.2.2.1
  have hrun := Apportioned.run (c := .blank) es hopened hcalm hmin h.listens hroom
  rw [hnotes] at hrun
  exact ⟨hrun.shares k, hrun.calls, hrun.inv.received⟩

/-- Let a link with valid settings that was just opened hear any fragments, while time stands still
and no lag leads beyond the limits of the clock, and let another one hear only those of them that
have the key `k`, in whatever chunks and on whatever channels. When all fragments are handled, what
both links delivered of the bundle `k`, and the acks and naks for it that they wrote, are the same,
in the same order. Their histories leave out nothing that was delivered or written. -/
theorem filter_concerns_eq {τ : Type} [Channel τ] {s' : Session τ} (settings : Settings)
    (hvalid : settings.Valid) (now : Moment) (fs : List Fragment) (k : Key) (id id' : Nat)
    (description description' : String) (generation generation' : UInt64) (channel : σ)
    (channel' : τ) (es es' : List Event) (hfits : ∀ f ∈ fs, f.Fits settings.layout)
    (hs : s = opened id description settings generation now channel)
    (hs' : s' = opened id' description' settings generation' now channel')
    (hcalm : Calm s.party.link now fs.length) (h : Hears settings.layout now fs s es)
    (h' : Hears settings.layout now (fs.filter (·.key == k)) s' es') :
    (s.run es).history.filter (Deed.concerns settings.layout k) =
        (s'.run es').history.filter (Deed.concerns settings.layout k) ∧
      ((s.run es).channel.calls = Deed.calls (s.run es).history ∧
        (s.run es).party.delivered = (Deed.deliveries (s.run es).history).map Prod.snd) ∧
      (s'.run es').channel.calls = Deed.calls (s'.run es').history ∧
        (s'.run es').party.delivered = (Deed.deliveries (s'.run es').history).map Prod.snd := by
  have hfits' : ∀ f ∈ fs.filter (·.key == k), f.Fits settings.layout := fun f hf =>
    hfits f (List.mem_filter.mp hf).1
  have hcalm' : Calm s'.party.link now (fs.filter (·.key == k)).length := by
    have hsettings : s'.party.link.settings = s.party.link.settings := by rw [hs, hs']; rfl
    have hgaps : s'.party.link.gaps = s.party.link.gaps := by rw [hs, hs']; rfl
    exact hcalm.congr hsettings hgaps (List.length_filter_le _ _)
  obtain ⟨hall, htold⟩ := h.filter_eq hvalid id description generation channel hs hfits hcalm k
  obtain ⟨hown, htold'⟩ :=
    h'.filter_eq hvalid id' description' generation' channel' hs' hfits' hcalm' k
  refine ⟨?_, htold, htold'⟩
  rw [hall, hown, share_filter]

/-- a bundle among fragments of all kinds that lead to nothing -/
def hostile : List Fragment :=
  [.header 9 1 1 209, .header 9 2 1 0, .header 9 2 2 0, ⟨9, 3, 40000, 1, 7, some [7]⟩, .ack ⟨9, 4⟩,
    .header 8 1 1 5, ⟨8, 1, 1, 1, 5, some [6]⟩, .header 0 1 1 5, ⟨0, 1, 1, 1, 5, some [6]⟩,
    ⟨9, 1, 1, 2, 209, some [104, 105]⟩, .nak ⟨9, 5⟩, .header 0 1 0 0, .header 9 1 1 209]

def besieged : Session Script :=
  opened 7 "scripted" { layout := .checksummed } 1 .start
    (Script.lone (Fragment.wires .checksummed hostile))

def undisturbed : Session Script :=
  opened 8 "scripted" { layout := .checksummed } 3 .start
    (Script.lone (Fragment.wires .checksummed (hostile.filter (·.key == ⟨9, 1⟩))))

/-- two bundles are rejected, but the one that is whole is delivered and acknowledged, and its
header is acknowledged once more when it comes again -/
theorem filter_concerns_eq_hostile :
    Deed.calls (besieged.run [.act .receive .start]).history =
        [.nak ⟨9, 2⟩, .nak ⟨9, 3⟩, .nak ⟨8, 1⟩, .ack ⟨9, 1⟩, .ack ⟨9, 1⟩].flatMap
          (fun f => [.write (Fragment.wire .checksummed f) none, .flush none]) ∧
      (besieged.run [.act .receive .start]).history.filter (Deed.concerns .checksummed ⟨9, 1⟩) =
        [.called (.write ((Fragment.ack ⟨9, 1⟩).wire .checksummed) none),
          .delivered ⟨9, 1⟩ [104, 105],
          .called (.write ((Fragment.ack ⟨9, 1⟩).wire .checksummed) none)] := by
  have hlistens : ∀ e ∈ [Event.act .receive .start], e.Listens .checksummed .start := by
    intro e he
    rw [List.mem_singleton.mp he]
    rfl
  have hformed : ∀ f ∈ hostile, f.WellFormed := by decide
  have hboth := filter_concerns_eq { layout := .checksummed } (by decide) .start hostile ⟨9, 1⟩ 7 8
    "scripted" "scripted" 1 3 _ _ [.act .receive .start] [.act .receive .start]
    (fun f hf => ⟨hformed f hf, nofun⟩) (rfl : besieged = _) (rfl : undisturbed = _)
    (by decide +kernel)
    ⟨Script.accepts rfl rfl, hlistens, by decide +kernel, by decide +kernel⟩
    ⟨Script.accepts rfl rfl, hlistens, by decide +kernel, by decide +kernel⟩
  refine ⟨by decide +kernel, hboth.1.trans ?_⟩
  decide +kernel

end Session

end BundleLink
