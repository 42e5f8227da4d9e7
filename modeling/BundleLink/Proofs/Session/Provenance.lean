import BundleLink.Channel.Script
import BundleLink.Proofs.Pair.Order
import BundleLink.Proofs.Session.Chronicle

/-!
# Nothing is delivered that was not received

Whatever bytes a peer sends, in whatever chunks and at whatever times, a bundle that is delivered is
put together from a header and the data fragments that it declares, all of which stand in the bytes
that were received since the entry for their key was begun, and no two deliveries share a fragment.

* `Sourced.origin`            the origin of a bundle that an assembly is joined to;
* `Link.Accounts`             the entries of a link and its deliveries have their sources;
* `Accounts.turned`           one fragment keeps this, and `Accounts.handleAll` all of a receive;
* `Session.Chronicled`        the invariant of sessions, with `Chronicled.act`, `Chronicled.run`;
* `Session.delivered_origins` the result.
-/

namespace BundleLink

/-! ## the origin of one bundle -/

theorem Assembly.mem_fragments {a : Assembly} {f : Fragment} :
    f ∈ a.fragments ↔ ∃ i, a.at? i = some f := by
  rw [fragments, List.mem_filterMap]
  constructor
  · rintro ⟨o, ho, rfl⟩
    obtain ⟨i, hi⟩ := List.mem_iff_getElem?.mp ho
    refine ⟨i, ?_⟩
    rw [at?, ← Array.getElem?_toList, hi]
    rfl
  · rintro ⟨i, hi⟩
    rw [at?, Option.join_eq_some_iff, ← Array.getElem?_toList] at hi
    exact ⟨some f, List.mem_of_getElem? hi, rfl⟩

/-- notes for fragments with consecutive numbers -/
theorem exists_notes {w : List Note} {k : Key} (fs : List Fragment) (start : Nat)
    (h : ∀ i f, fs[i]? = some f →
      ∃ n, w.find? (Note.isFor k (start + i)) = some n ∧ n.fragment = f) :
    ∃ ns : List Note, ns.map (·.fragment) = fs ∧
      ∀ i n, ns[i]? = some n → w.find? (Note.isFor k (start + i)) = some n := by
  induction fs generalizing start with
  | nil => exact ⟨[], rfl, fun i n hn => by cases hn⟩
  | cons f fs ih =>
    obtain ⟨n, hn, hf⟩ := h 0 f rfl
    obtain ⟨ns, hns, hfound⟩ := ih (start + 1) fun i g hg => by
      have hg := h (i + 1) g hg
      rwa [← Nat.add_assoc, Nat.add_right_comm] at hg
    refine ⟨n :: ns, by rw [List.map_cons, hf, hns], ?_⟩
    intro i m hm
    cases i with
    | zero =>
      rw [List.getElem?_cons_zero, Option.some.injEq] at hm
      rw [← hm]
      exact hn
    | succ i =>
      rw [← Nat.add_assoc, Nat.add_right_comm]
      exact hfound i m hm

variable {layout : Layout} {ns : List Note} {os : List Origin} {x : Note} {k : Key}
  {taken : List Bytes} {now : Moment}

/-- There are notes for the fragments that are joined, as each is in the slot of its number. -/
theorem exists_joined {w : List Note} {asm : Assembly} {header : Fragment} {data : List Fragment}
    (hslot : ∀ i, asm.at? i = (w.find? (Note.isFor k i)).map (·.fragment))
    (hsorted : Bundle.sorted asm.fragments = header :: data)
    (hsound : Bundle.Sound layout header data) :
    ∃ (n : Note) (ms : List Note), n.fragment = header ∧ ms.map (·.fragment) = data ∧
      w.find? (Note.isFor k 0) = some n ∧
      ∀ i m, ms[i]? = some m → w.find? (Note.isFor k (1 + i)) = some m := by
  have hnote {f : Fragment} (hf : f ∈ header :: data) :
      ∃ n, w.find? (Note.isFor k f.slot) = some n ∧ n.fragment = f := by
    rw [← hsorted, Bundle.mem_sorted, Assembly.mem_fragments] at hf
    obtain ⟨i, hi⟩ := hf
    rw [hslot, Option.map_eq_some_iff] at hi
    obtain ⟨n, hn, rfl⟩ := hi
    obtain ⟨-, -, rfl⟩ := Note.isFor_iff.mp (List.find?_some hn)
    exact ⟨n, hn, rfl⟩
  obtain ⟨n, hn, hheader⟩ := hnote List.mem_cons_self
  have hzero : header.slot = 0 := by
    rw [Fragment.slot, hsound.number]
    rfl
  rw [hzero] at hn
  obtain ⟨ms, hms, hfound⟩ := exists_notes data 1 fun i f hf => by
    have hnumber : f.slot = 1 + i := by
      have := hsound.numbered i f hf
      rw [Fragment.slot]
      omega
    rw [← hnumber]
    exact hnote (List.mem_cons_of_mem _ (List.mem_of_getElem? hf))
  exact ⟨n, ms, hheader, hms, hn, hfound⟩

/-- A bundle that the fragments of an assembly are joined to has an origin. -/
theorem Sourced.origin {asm : Assembly} {bundle : Bytes} (h : Sourced (ns ++ [x]) os k asm)
    (hjoin : Bundle.join layout asm.fragments = .ok bundle) (hkey : x.fragment.key = k)
    (hx : x.bundle = some bundle) :
    ∃ o : Origin, o.key = k ∧ o.bundle = bundle ∧ o.Genuine layout ∧ o.From (ns ++ [x]) ∧
      ∀ n ∈ o.notes, n ∉ os.flatMap Origin.notes := by
  obtain ⟨past, w, hns, hw, hslot, hunused⟩ := h
  obtain ⟨header, data, hsorted, hsound, hbundle⟩ := Bundle.join_sound hjoin
  obtain ⟨n, ms, hheader, hms, hn, hfound⟩ := exists_joined hslot hsorted hsound
  have hfor {m : Note} {i : Nat} (hm : w.find? (Note.isFor k i) = some m) :
      m ∈ w ∧ m.fragment.key = k :=
    ⟨List.mem_of_find?_eq_some hm, (Note.isFor_iff.mp (List.find?_some hm)).1⟩
  have hall {m : Note} (hm : m ∈ n :: ms) : m ∈ w ∧ m.fragment.key = k := by
    rcases List.mem_cons.mp hm with rfl | hm
    · exact hfor hn
    · obtain ⟨i, hi⟩ := List.mem_iff_getElem?.mp hm
      exact hfor (hfound i m hi)
  refine ⟨⟨k, n, ms, bundle⟩, rfl, rfl, ⟨fun m hm => (hall hm).2, ?_, ?_⟩, ?_, ?_⟩
  · show Bundle.Sound layout n.fragment (ms.map (·.fragment))
    rw [hheader, hms]
    exact hsound
  · show bundle = Bundle.payloads (ms.map (·.fragment))
    rw [hms]
    exact hbundle
  · refine ⟨past, w, [], by rw [List.append_nil, hns], hw, ⟨x, ?_, hkey, hx⟩, hn, ?_⟩
    · -- the window ends with the last note of all
      have hlast := congrArg List.getLast? hns
      obtain ⟨first, rest, -, -, -⟩ := hw
      rw [List.getLast?_concat, List.getLast?_append, List.getLast?_cons, Option.some_or] at hlast
      rw [List.getLast?_cons]
      exact hlast.symm
    · intro i m hm
      rw [Nat.add_comm]
      exact hfound i m hm
  · intro m hm
    exact hunused m (hall hm).1 (hall hm).2

/-! ## the link -/

/-- Everything that was delivered comes from notes: what was taken, and what is ready. -/
structure Link.Told (layout : Layout) (taken : List Bytes) (ns : List Note) (os : List Origin)
    (l : Link) : Prop where
  origins : Origins layout ns os
  delivered : taken ++ l.ready = os.map Origin.bundle

/-- Everything that the link assembles comes from notes, too. -/
structure Link.Accounts (layout : Layout) (taken : List Bytes) (ns : List Note) (os : List Origin)
    (l : Link) : Prop extends Link.Told layout taken ns os l where
  layout : l.layout = layout
  entries : ∀ k asm, l.inbound.get? k = some asm → asm.complete = false → Sourced ns os k asm

namespace Link.Accounts

variable {σ : Type} {a b : Attached σ} {l l' : Link}

/-- entries may go, and others may be finished -/
theorem congr (h : Accounts layout taken ns os l) {taken' : List Bytes}
    (hlayout : l'.layout = l.layout) (hready : taken' ++ l'.ready = taken ++ l.ready)
    (hentries : ∀ k asm, l'.inbound.get? k = some asm → l.inbound.get? k = some asm) :
    Accounts layout taken' ns os l' :=
  ⟨⟨h.origins, hready.trans h.delivered⟩, hlayout.trans h.layout,
    fun k asm hk => h.entries k asm (hentries k asm hk)⟩

section turned

variable {bundle : Option Bytes}

/-- the entries of other keys, whatever is delivered for this one -/
theorem others (h : Accounts layout taken ns os a.link)
    (hturned : Attached.Turned x.fragment now (a.link.inbound.get? x.fragment.key) bundle a b)
    {os' : List Origin}
    (hunused : ∀ n, n.fragment.key ≠ x.fragment.key → n ∈ os'.flatMap Origin.notes →
      n ∈ os.flatMap Origin.notes) {j : Key} {asm : Assembly} (hj : j ≠ x.fragment.key)
    (hget : b.link.inbound.get? j = some asm) (hopen : asm.complete = false) :
    Sourced (ns ++ [x]) os' j asm := by
  rw [hturned.others j hj] at hget
  refine (h.entries j asm hget hopen).skip (fun hk => absurd hk.symm hj) ?_ ?_
  · intro n hk
    exact hunused n (fun he => hj (hk.symm.trans he))
  · intro hk
    exact absurd hk.symm hj

/-- Without a delivery only the entry of the key has to be looked at. -/
theorem quiet (h : Accounts layout taken ns os a.link)
    (hturned : Attached.Turned x.fragment now (a.link.inbound.get? x.fragment.key) bundle a b)
    (hnone : bundle = none)
    (hself : ∀ asm, b.link.inbound.get? x.fragment.key = some asm → asm.complete = false →
      Sourced (ns ++ [x]) os x.fragment.key asm) :
    ∃ os', Accounts layout taken (ns ++ [x]) os' b.link := by
  have hready := hturned.ready
  rw [hnone] at hready
  refine ⟨os, ⟨h.origins.append [x], ?_⟩,
    (Attached.layout_of_core hturned.core).trans h.layout, ?_⟩
  · rw [hready]
    exact (congrArg (taken ++ ·) (List.append_nil _)).trans h.delivered
  · intro j asm hget hopen
    by_cases hj : j = x.fragment.key
    · rw [hj] at hget ⊢
      exact hself asm hget hopen
    · exact h.others hturned (fun _ _ hn => hn) hj hget hopen

/-- One fragment is noted and takes its turn. -/
theorem turned {f : Fragment} (h : Accounts layout taken ns os a.link)
    (hturned : Attached.Turned f now (a.link.inbound.get? f.key) bundle a b)
    (hfragment : x.fragment = f) (hbundle : x.bundle = bundle)
    (hcreated : x.created =
      ((a.link.inbound.get? f.key).isNone && (b.link.inbound.get? f.key).isSome))
    (hx : x ∉ ns) : ∃ os', Accounts layout taken (ns ++ [x]) os' b.link := by
  subst hfragment
  have hfresh : x ∉ os.flatMap Origin.notes := fun hused => hx (h.origins.mem hused)
  have hquiet := h.quiet hturned
  have hentry (asm : Assembly) (hget : a.link.inbound.get? x.fragment.key = some asm) :=
    h.entries x.fragment.key asm hget
  have hturn := hturned.turn
  generalize ho : a.link.inbound.get? x.fragment.key = o at hturn hentry hcreated
  generalize ho' : b.link.inbound.get? x.fragment.key = o' at hturn hquiet hcreated
  cases hturn with
  | passed o hidle =>
    refine hquiet rfl fun asm hasm hopen => ?_
    refine (hentry asm hasm hopen).skip (fun _ => ⟨by rw [hcreated, hasm]; rfl, ?_⟩)
      (fun _ _ hn => hn) fun _ => hfresh
    intro hpart
    rcases hidle with hnot | ⟨asm', hasm', hcomplete⟩
    · rw [hpart] at hnot
      cases hnot
    · rw [hasm, Option.some.injEq] at hasm'
      rw [hasm', hcomplete] at hopen
      cases hopen
  | dropped => exact hquiet rfl fun asm hasm => by cases hasm
  | doubled asm grown hopen hinserted =>
    obtain ⟨htaken, hat, -, -⟩ := Assembly.insert_duplicate hinserted
    refine hquiet rfl fun asm' hasm' _ => ?_
    cases hasm'
    exact ((hentry asm rfl hopen).skip (fun _ => ⟨hcreated, fun _ => htaken⟩)
      (fun _ _ hn => hn) fun _ => hfresh).congr hat
  | added deadline hbegins hpart hinserted =>
    refine hquiet rfl fun asm' hasm' _ => ?_
    cases hasm'
    exact (Sourced.grow hbegins hentry hpart hinserted (by rw [hcreated]; simp) hfresh).congr
      fun _ => rfl
  | finished kept bundle hbegins hpart hinserted hcollected hjoined hcomplete =>
    have hgrown := Sourced.grow hbegins hentry hpart hinserted (by rw [hcreated]; simp) hfresh
    rw [h.layout] at hjoined
    obtain ⟨o, hkey, rfl, hgenuine, hfrom, hunused⟩ := hgrown.origin hjoined rfl hbundle
    refine ⟨os ++ [o], ⟨(h.origins.append [x]).concat hgenuine hfrom hunused, ?_⟩,
      (Attached.layout_of_core hturned.core).trans h.layout, ?_⟩
    · rw [hturned.ready, ← List.append_assoc, h.delivered, List.map_append]
      rfl
    · intro j asm hget hopen
      by_cases hj : j = x.fragment.key
      · rw [hj, ho', Option.some.injEq] at hget
        rw [← hget, hcomplete] at hopen
        cases hopen
      · refine h.others hturned ?_ hj hget hopen
        intro n hk hn
        rw [List.flatMap_append, List.mem_append, List.flatMap_singleton] at hn
        refine hn.resolve_right fun hno => hk ?_
        rw [(hfrom.mem hno).2, hkey]

end turned

variable [Channel σ]

/-- a fragment is handled, and either takes its turn or ends the link -/
theorem handle (h : Accounts layout taken ns os a.link) (now : Moment) (offset : Nat)
    (f : Fragment) (hx : a.note now offset f ∉ ns) :
    ∃ os', (Attached.handle f now (a.arrived now)).Meets
      (fun _ b => Accounts layout taken (ns ++ [a.note now offset f]) os' b.link ∧
        b.link.raw = a.link.raw)
      fun e b => Told layout taken (ns ++ [a.note now offset f]) os' b.link ∧ e.Ends := by
  have harrived : Accounts layout taken ns os (a.arrived now).link :=
    h.congr rfl rfl fun _ _ hk => hk
  have hturns := Attached.handle_turns f now (a.arrived now)
  have hbundle : (a.note now offset f).bundle =
    ((Attached.handle f now (a.arrived now)).after.link.ready.drop a.link.ready.length).head? := rfl
  have hcreated : (a.note now offset f).created = ((a.link.inbound.get? f.key).isNone &&
    ((Attached.handle f now (a.arrived now)).after.link.inbound.get? f.key).isSome) := rfl
  have hfragment : (a.note now offset f).fragment = f := rfl
  generalize Attached.handle f now (a.arrived now) = r at hturns hbundle hcreated
  generalize a.note now offset f = x at hx hfragment hbundle hcreated
  cases r with
  | ok _ b =>
    obtain ⟨bundle, hturned⟩ := hturns
    have hready : b.link.ready = a.link.ready ++ bundle.toList := hturned.ready
    have hsame : x.bundle = bundle := by
      rw [hbundle]
      show (b.link.ready.drop _).head? = _
      rw [hready, List.drop_left, Option.head?_toList]
    obtain ⟨os', hos'⟩ := harrived.turned hturned hfragment hsame hcreated hx
    have hraw : b.link.raw = a.link.raw := by
      have hcore := congrArg Link.raw hturned.core
      exact hcore
    exact ⟨os', hos', hraw⟩
  | error e b =>
    have hready : b.link.ready = a.link.ready := hturns.ready
    exact ⟨os, ⟨h.origins.append [x], by rw [hready]; exact h.delivered⟩, hturns.breaks.ends⟩

/-- All fragments of a receive, which stand behind those of all notes so far. -/
theorem handleAll (h : Accounts layout taken ns os a.link) (now : Moment) (count offset : Nat)
    (ps : List Wire.Piece) (hapart : (ns.map Note.toFind ++ Wire.finds offset ps).Pairwise
      (Wire.Find.Before layout)) :
    ∃ os', (Attached.handleAll now count ps a).Meets
      (fun _ b => Accounts layout taken (ns ++ Attached.notes now offset ps a) os' b.link ∧
        b.link.raw = a.link.raw ∧
        (Attached.notes now offset ps a).map Note.toFind = Wire.finds offset ps)
      fun e b =>
        Told layout taken (ns ++ Attached.notes now offset ps a) os' b.link ∧ e.Ends := by
  induction ps generalizing ns os a count offset with
  | nil =>
    refine ⟨os, ?_, rfl, rfl⟩
    rw [Attached.notes, List.append_nil]
    exact h
  | cons p ps ih =>
    cases p with
    | skipped size flaw =>
      have hwarned : Accounts layout taken ns os
          (a.warn (.dropped size a.link.description flaw)).link := h.congr rfl rfl fun _ _ hk => hk
      exact ih hwarned count (offset + size) hapart
    | fragment f size =>
      have hx : a.note now offset f ∉ ns := by
        intro hmem
        have hbefore := (List.pairwise_append.mp hapart).2.2 _
          (List.mem_map_of_mem hmem) _ List.mem_cons_self
        exact hbefore.ne rfl
      obtain ⟨os', hhandled⟩ := h.handle now offset f hx
      rw [Attached.notes, Attached.handleAll]
      generalize Attached.handle f now (a.arrived now) = r at hhandled
      cases r with
      | error e b => exact ⟨os', hhandled⟩
      | ok _ b =>
        obtain ⟨hb, hraw⟩ := hhandled
        have hnext : ((ns ++ [a.note now offset f]).map Note.toFind ++
            Wire.finds (offset + size) ps).Pairwise (Wire.Find.Before layout) := by
          rw [List.map_append, List.append_assoc]
          exact hapart
        obtain ⟨os'', hall⟩ := ih hb (count + 1) (offset + size) hnext
        refine ⟨os'', ?_⟩
        rw [List.append_cons]
        refine hall.imp (fun _ c hc => ⟨hc.1, hc.2.1.trans hraw, ?_⟩) fun _ _ hc => hc
        exact congrArg (_ :: ·) hc.2.2

end Link.Accounts

/-- The raw bytes of the link are what a scan of all bytes heard leaves over, and the fragments that
it finds are noted. -/
structure Chronicle.Current (layout : Layout) (c : Chronicle) (l : Link) : Prop where
  raw : l.raw = (Wire.scan layout c.heard).2
  notes : c.notes.map Note.toFind = Wire.finds 0 (Wire.scan layout c.heard).1

/-- At any time the fragments noted are the first ones that a scan of all bytes heard finds. -/
def Chronicle.Noted (layout : Layout) (c : Chronicle) : Prop :=
  c.notes.map Note.toFind <+: Wire.finds 0 (Wire.scan layout c.heard).1

section
variable {σ : Type} [Channel σ] {a : Attached σ} {c : Chronicle}

/-- What the receives of a session find is what one scan of all their bytes finds. -/
theorem Chronicle.Current.scan (h : c.Current layout a.link) (hlayout : a.link.layout = layout) :
    Wire.finds 0 (Wire.scan layout (c.heard ++ a.input)).1 = c.notes.map Note.toFind ++
        Wire.finds (c.heard.length - a.link.raw.length) a.pieces ∧
      (Wire.scan layout (c.heard ++ a.input)).2 = a.loaded.link.raw := by
  obtain ⟨hfinds, hrest⟩ := Wire.finds_append layout 0 c.heard a.input
  rw [← h.raw, ← h.notes, Nat.zero_add] at hfinds
  rw [← h.raw] at hrest
  subst hlayout
  exact ⟨hfinds, hrest⟩

theorem Chronicle.notes_failed {e : IoError} (h : a.intake.ended = .error e) :
    (c.receive now a).notes = c.notes := by
  show c.notes ++ _ = _
  rw [h, List.append_nil]

theorem Chronicle.notes_ok {ended : Bool} (h : a.intake.ended = .ok ended) :
    (c.receive now a).notes = c.notes ++
      Attached.notes now (c.heard.length - a.link.raw.length) a.pieces a.loaded := by
  show c.notes ++ _ = _
  rw [h]

theorem Chronicle.Current.noted (h : c.Current layout a.link) (hlayout : a.link.layout = layout)
    (now : Moment) : (c.receive now a).Noted layout := by
  show _ <+: Wire.finds 0 (Wire.scan layout (c.heard ++ a.input)).1
  rw [(h.scan hlayout).1]
  cases hended : a.intake.ended with
  | error e =>
    rw [Chronicle.notes_failed hended]
    exact List.prefix_append _ _
  | ok ended =>
    rw [Chronicle.notes_ok hended, List.map_append, List.prefix_append_right_inj]
    exact Attached.notes_isPrefix now _ a.pieces a.loaded

omit [Channel σ] in
/-- The last step of a receive takes expired entries away only. -/
theorem Link.Accounts.purged {d : Attached σ} (h : a.link.Accounts layout taken ns os)
    (hd : Attached.Purged now a d) : d.link.Accounts layout taken ns os := by
  refine h.congr (Link.layout_of_terms hd.terms) (by rw [hd.ready]) ?_
  intro k asm hk
  rw [hd.inbound] at hk
  exact (Option.filter_eq_some_iff.mp hk).1

/-- A receive keeps the accounts, or ends the link. -/
theorem Link.Accounts.receiveBundles (h : a.link.Accounts layout taken c.notes os)
    (hcurrent : c.Current layout a.link) (now : Moment) :
    ∃ os', (Attached.receiveBundles now a).Meets
      (fun _ b => b.link.Accounts layout taken (c.receive now a).notes os' ∧
        (c.receive now a).Current layout b.link)
      fun e b => b.link.Told layout taken (c.receive now a).notes os' ∧ e.Ends := by
  obtain ⟨hfinds, hrest⟩ := hcurrent.scan h.layout
  cases hended : a.intake.ended with
  | error e =>
    rw [Attached.receiveBundles_failed hended, Chronicle.notes_failed hended]
    exact ⟨os, ⟨h.origins, h.delivered⟩, rfl⟩
  | ok ended =>
    have hloaded : a.loaded.link.Accounts layout taken c.notes os :=
      h.congr rfl rfl fun _ _ hk => hk
    have hapart := (Wire.finds_scan layout [] (c.heard ++ a.input)).apart
    rw [List.length_nil, hfinds] at hapart
    obtain ⟨os', hall⟩ := hloaded.handleAll now 0 _ a.pieces hapart
    have hnotes : (c.receive now a).notes = _ := Chronicle.notes_ok hended
    rw [← hnotes] at hall
    refine ⟨os', ?_⟩
    cases hr : Attached.handleAll now 0 a.pieces a.loaded with
    | error e b =>
      rw [hr] at hall
      rw [Attached.receiveBundles_broken hended hr]
      exact hall
    | ok count b =>
      rw [hr] at hall
      rw [Attached.receiveBundles_handled hended hr]
      obtain ⟨hb, hraw, hmap⟩ := hall
      refine (Attached.conclude_meets now ended count b).imp ?_ ?_
      · intro _ d hd
        refine ⟨hb.purged hd.1, ?_, ?_⟩
        · rw [hd.1.raw, hraw]
          exact hrest.symm
        · rw [hnotes, List.map_append, hmap]
          exact hfinds.symm
      · intro e d hd
        exact ⟨(hb.purged hd.1).toTold, hd.2⟩

end

namespace Session

variable {σ : Type} {s : Session σ} {c : Chronicle}

/-- The chronicle is about the session: its fragments are found in the bytes heard, what was
delivered comes from them, and while the link is at work so do its entries. -/
structure Chronicled (layout : Layout) (c : Chronicle) (s : Session σ) : Prop where
  noted : c.Noted layout
  sources : ∃ os, s.party.link.Told layout s.party.taken c.notes os ∧
    (s.party.Active → s.party.link.Accounts layout s.party.taken c.notes os ∧
      c.Current layout s.party.link)

theorem chronicled_opened (id : Nat) (description : String) (settings : Settings)
    (generation : UInt64) (now : Moment) (channel : σ) :
    Chronicled settings.layout .blank
      (opened id description settings generation now channel) := by
  have hnothing : Wire.scan settings.layout Chronicle.blank.heard = ([], []) := Wire.scan_nil _
  refine ⟨List.nil_prefix, [], ⟨.none _ _, rfl⟩,
    fun _ => ⟨⟨⟨.none _ _, rfl⟩, rfl, fun k asm hk => by cases hk⟩, ?_, ?_⟩⟩
  · rw [hnothing]
    rfl
  · rw [hnothing]
    rfl

/-- operations that hear nothing -/
theorem Chronicled.alone (h : Chronicled layout c s) {x : Party}
    (hdelivered : x.delivered = s.party.delivered)
    (hactive : x.Active → s.party.Active ∧ x.link.layout = s.party.link.layout ∧
      x.link.raw = s.party.link.raw ∧ x.link.inbound = s.party.link.inbound)
    (t : Traced σ) (ds : List Deed) : Chronicled layout c ⟨x, t, ds⟩ := by
  obtain ⟨os, htold, haccounts⟩ := h.sources
  refine ⟨h.noted, os, ⟨htold.origins, hdelivered.trans htold.delivered⟩, fun hx => ?_⟩
  obtain ⟨hs, hlayout, hraw, hinbound⟩ := hactive hx
  obtain ⟨hlink, hcurrent⟩ := haccounts hs
  refine ⟨hlink.congr hlayout hdelivered ?_, hraw.trans hcurrent.raw, hcurrent.notes⟩
  intro k asm hk
  rw [← hinbound]
  exact hk

theorem Chronicled.same (h : Chronicled layout c s) {x : Party} (hsame : s.party.Same x) :
    Chronicled layout c { s with party := x } :=
  h.alone hsame.delivered (fun hx => ⟨(hsame.active hx).1, hsame.layout, (hsame.active hx).2.1,
    (hsame.active hx).2.2.1⟩) s.channel s.history

variable [Channel σ]

theorem record_of_active (h : s.party.Active) (c : Chronicle) (now : Moment) :
    s.record c (.act .receive now) = c.receive now s.attached := by
  rw [record, h.1, h.2]
  rfl

theorem record_of_idle (h : ¬ s.party.Active) (c : Chronicle) (now : Moment) :
    s.record c (.act .receive now) = c := by
  refine if_neg fun hwork => h ?_
  rw [Bool.and_eq_true, Bool.not_eq_true'] at hwork
  exact hwork

theorem record_of_ne {e : Event} (he : ∀ now, e ≠ .act .receive now) (s : Session σ)
    (c : Chronicle) : s.record c e = c := by
  cases e with
  | setLayout l => rfl
  | act op now =>
    cases op with
    | receive => exact absurd rfl (he now)
    | _ => rfl

/-- operations that may end the link -/
theorem Chronicled.settled {os : List Origin} {r : Outcome (Traced σ) Unit}
    (hnoted : c.Noted layout)
    (hmeets : r.Meets
      (fun _ b => b.link.Accounts layout s.party.taken c.notes os ∧ c.Current layout b.link)
      fun e b => b.link.Told layout s.party.taken c.notes os ∧
        (e.Ends ∨
          b.link.Accounts layout s.party.taken c.notes os ∧ c.Current layout b.link))
    (buffers : List Bytes) (ds : List Deed) :
    Chronicled layout c (s.settle buffers ds (Attached.settle r)) := by
  rcases r with ⟨_, b⟩ | ⟨e | e, b⟩
  · exact ⟨hnoted, os, hmeets.1.toTold, fun _ => hmeets⟩
  · obtain ⟨htold, hcase⟩ := hmeets
    rw [Attached.settle]
    split
    · have hclosed := Attached.close_connected
        (b.warn (.closing b.link.id b.link.description e))
      have hready := Attached.close_ready (b.warn (.closing b.link.id b.link.description e))
      refine ⟨hnoted, os, ⟨htold.origins, ?_⟩, fun hx => absurd hx (Party.not_active hclosed)⟩
      show s.party.taken ++ (Attached.close _).link.ready = _
      rw [hready]
      exact htold.delivered
    · rename_i hfatal
      exact ⟨hnoted, os, htold, fun _ => hcase.resolve_left hfatal⟩
  · exact ⟨hnoted, os, ⟨hmeets.1.origins, hmeets.1.delivered⟩, fun hx => absurd hx.2 (by
      simp [Session.settle, Attached.settle])⟩

theorem Chronicled.write (h : Chronicled layout c s) (hhalted : s.party.halted = false)
    (buffers : List Bytes) (buffer : Bytes) (flushNow : Bool) (now : Moment) :
    Chronicled layout c (s.settle buffers [] (s.attached.write buffer flushNow now)) := by
  cases hopen : s.party.link.connected with
  | false =>
    rw [Attached.write_of_closed (a := s.attached) hopen]
    exact h.alone (x := { s.party with link := s.attached.link }) rfl
      (fun hx => absurd hx (Party.not_active hopen)) s.attached.channel _
  | true =>
    obtain ⟨os, htold, haccounts⟩ := h.sources
    obtain ⟨hlink, hcurrent⟩ := haccounts ⟨hopen, hhalted⟩
    have hissued {b : Attached (Traced σ)} (hb : Attached.Issued s.attached b) :
        b.link.Accounts layout s.party.taken c.notes os ∧ c.Current layout b.link := by
      obtain ⟨traffic, next, outbound, progress, hb⟩ := hb
      rw [hb]
      exact ⟨hlink.congr rfl rfl fun _ _ hk => hk, hcurrent.raw, hcurrent.notes⟩
    have hmeets := Attached.writeBundle_issued buffer flushNow now s.attached
    rw [Attached.write, if_pos (show s.attached.link.connected = true from hopen)]
    exact Chronicled.settled h.noted (hmeets.imp (fun _ b hb => hissued hb.1)
      fun e b hb => ⟨(hissued hb.1).1.toTold, .inr (hissued hb.1)⟩) buffers []

theorem Chronicled.receive (h : Chronicled layout c s) (hhalted : s.party.halted = false)
    (now : Moment) :
    Chronicled layout (s.record c (.act .receive now))
      (s.settle [] (s.deeds now) (s.attached.receive now)) := by
  rw [record, hhalted]
  cases hopen : s.party.link.connected with
  | false =>
    rw [Attached.receive_of_closed (a := s.attached) hopen]
    exact h.alone (x := { s.party with link := s.attached.link }) rfl
      (fun hx => absurd hx (Party.not_active hopen)) s.attached.channel _
  | true =>
    obtain ⟨os, htold, haccounts⟩ := h.sources
    obtain ⟨hlink, hcurrent⟩ := haccounts ⟨hopen, hhalted⟩
    obtain ⟨os', hmeets⟩ := Link.Accounts.receiveBundles (a := s.attached) hlink hcurrent now
    have hnoted := hcurrent.noted (a := s.attached) hlink.layout now
    rw [Attached.receive, if_pos (show s.attached.link.connected = true from hopen)]
    exact Chronicled.settled hnoted (hmeets.imp (fun _ b hb => hb)
      fun e b hb => ⟨hb.1, .inl hb.2⟩) [] _

theorem Chronicled.act (h : Chronicled layout c s) (op : Pair.Operation) (now : Moment) :
    Chronicled layout (s.record c (.act op now)) (s.act now op) := by
  cases op with
  | read => exact h.same (Party.same_read _)
  | readInto buffer => exact h.same (Party.same_readInto _ buffer)
  | readText => exact h.same (Party.same_readText _)
  | write buffer flushNow =>
    exact Party.unless_halted h fun hhalted => h.write hhalted [buffer] buffer flushNow now
  | writeText text flushNow =>
    exact Party.unless_halted h fun hhalted =>
      h.write hhalted [Utf8.encode text] (Utf8.encode text) flushNow now
  | receive =>
    show Chronicled layout _ (if s.party.halted then s else _)
    cases hhalted : s.party.halted with
    | false => exact h.receive hhalted now
    | true =>
      rw [record, hhalted, Bool.not_true, Bool.and_false]
      exact h
  | setFragmentSize size =>
    exact Party.unless_halted h fun _ => h.same (Party.same_setFragmentSize _ size)
  | advanceGeneration =>
    refine Party.unless_halted h fun _ =>
      h.alone s.party.alike_advance.delivered (fun hx => ?_) s.channel _
    obtain ⟨hactive, hadvance⟩ := Party.advance_of_active hx
    rw [hadvance]
    exact ⟨hactive, rfl, rfl, rfl⟩
  | close =>
    show Chronicled layout c (if s.party.halted then _ else _)
    split
    · exact h.alone (x := { s.party with link := { s.party.link with connected := false } }) rfl
        (fun hx => absurd hx (Party.not_active rfl)) s.channel _
    · exact h.alone (x := { s.party with link := s.attached.close.link })
        (congrArg (s.party.taken ++ ·) (Attached.close_ready s.attached))
        (fun hx => absurd hx (Party.not_active (Attached.close_connected s.attached)))
        s.attached.close.channel _

/-- the layout stays the same -/
theorem Chronicled.step (h : Chronicled layout c s) (e : Event)
    (he : ∀ l, e = .setLayout l → l = layout) : Chronicled layout (s.record c e) (s.step e) := by
  cases e with
  | act op now => exact h.act op now
  | setLayout l =>
    refine Party.unless_halted h fun hhalted => ?_
    obtain rfl := he l rfl
    refine h.alone (x := { s.party with link := s.party.link.setLayout l }) rfl
      (fun hx => ⟨hx, ?_, rfl, rfl⟩) s.channel _
    obtain ⟨os, -, haccounts⟩ := h.sources
    exact (haccounts hx).1.layout.symm

theorem Chronicled.run (es : List Event) (h : Chronicled layout c s)
    (hes : ∀ l, .setLayout l ∈ es → l = layout) :
    Chronicled layout (s.chronicle c es) (s.run es) := by
  induction es generalizing s c with
  | nil => exact h
  | cons e es ih =>
    exact ih (h.step e fun l he => hes l (he ▸ List.mem_cons_self))
      fun l hl => hes l (List.mem_cons_of_mem _ hl)

/-- In any session of a link on any channel that keeps its layout, whatever bytes the receives read
and whatever else happens, each bundle that is delivered has an origin: a header, and data fragments
with the numbers from 1 up to the count that it declares, which all have one key, and whose payloads
in this order are the bundle; in the checksummed layout each carries the sum of its own bytes, and
the header the sum of all. All of them were handled since the entry for the key was last begun, no
two deliveries share one, and they stand in the bytes that were read, one behind the other. -/
theorem delivered_origins (id : Nat) (description : String) (settings : Settings)
    (generation : UInt64) (start : Moment) (channel : σ) (es : List Event)
    (hes : ∀ l, .setLayout l ∈ es → l = settings.layout)
    (hs : s = opened id description settings generation start channel)
    (hc : c = s.chronicle .blank es) :
    ∃ os : List Origin, (s.run es).party.delivered = os.map Origin.bundle ∧
      (∀ o ∈ os, o.Genuine settings.layout ∧ o.From c.notes) ∧
      (os.flatMap Origin.notes).Nodup ∧
      (∀ n ∈ c.notes, n.toFind.Stands settings.layout c.heard) ∧
      c.notes.Pairwise fun m n => m.toFind.Before settings.layout n.toFind := by
  have hrun : Chronicled settings.layout c (s.run es) := by
    rw [hc, hs]
    exact (chronicled_opened id description settings generation start channel).run es hes
  obtain ⟨os, htold, -⟩ := hrun.sources
  have hlaid := Wire.finds_scan settings.layout [] c.heard
  refine ⟨os, htold.delivered, htold.origins.genuine, htold.origins.apart, ?_, ?_⟩
  · intro n hn
    exact hlaid.stands _ (hrun.noted.subset (List.mem_map_of_mem hn))
  · exact List.pairwise_map.mp (hlaid.apart.sublist hrun.noted.sublist)

/-- a channel that hands out noise, the header of a bundle twice, and its data fragment -/
def noisy : Script :=
  { Script.lone [] with
    readings :=
      [.ok (.data ([0, 1, 2] ++ (Fragment.header 9 1 1 209).wire .checksummed)),
        .ok (.data (Fragment.wires .checksummed
          [.header 9 1 1 209, ⟨9, 1, 1, 2, 209, some [104, 105]⟩]))] }

def listening : Session Script := opened 7 "scripted" { layout := .checksummed } 1 .start noisy

/-- one bundle is delivered, and it comes from what stands behind the noise -/
theorem delivered_origins_noisy :
    (listening.chronicle .blank [.act .receive .start]).notes.map
        (fun n => (n.offset, n.created, n.bundle)) =
      [(3, true, none), (37, false, none), (71, false, some [104, 105])] ∧
    ∃ o : Origin, (listening.run [.act .receive .start]).party.delivered = [o.bundle] ∧
      o.bundle = [104, 105] ∧ o.Genuine .checksummed ∧
      o.From (listening.chronicle .blank [.act .receive .start]).notes := by
  obtain ⟨os, hdelivered, horigins, -⟩ := delivered_origins 7 "scripted" { layout := .checksummed }
    1 .start noisy [.act .receive .start] (by simp) rfl rfl
  have hrun : (listening.run [.act .receive .start]).party.delivered = [[104, 105]] := by
    decide +kernel
  refine ⟨by decide +kernel, ?_⟩
  have hos : os.map Origin.bundle = [[104, 105]] := hdelivered.symm.trans hrun
  obtain ⟨o, rfl, hbundle⟩ := List.map_eq_singleton_iff.mp hos
  exact ⟨o, by rw [hbundle]; exact hrun, hbundle, horigins o List.mem_cons_self⟩

end Session

end BundleLink
