import BundleLink.Proofs.Hearing
import BundleLink.Proofs.Reassembly.Collecting

/-!
# Delivering a mixture of bundles

However the fragments of a mixture are spread over receives, once they are handled the link has
delivered the bundles that are there completely, in the order in which they came to be so, and has
answered what was to be answered and nothing else.

* `Collected.receive`   one receive handles some of the fragments and leaves the others;
* `Attached.received`   the state after several receives;
* `deliveries_of_receives`  the result.
-/

namespace BundleLink.Attached

open Link (Still Calm)

variable {layout : Layout} {family : Family layout} {now : Moment} {σ : Type} [Channel σ]
  [Medium σ] {start a b : Attached σ} {done todo : List Fragment}

theorem Collected.loaded (h : Collected family start now done a)
    (hloaded : Loaded layout a todo b) : Collected family start now done b := by
  have hframe := congrArg Link.frame hloaded.core
  apply h.congr hframe (hloaded.isOpen.trans h.isOpen) _ hloaded.ready hloaded.outgoing
  rw [hloaded.inbound]
  exact h.stored

theorem Collected.purged (h : Collected family start now done a) (hpurged : Purged now a b) :
    Collected family start now done b := by
  have hframe := congrArg Link.frame hpurged.core
  apply h.congr hframe _ (h.stored.purge hpurged.inbound) hpurged.ready
  · rw [hpurged.channel]
  · rw [hpurged.channel]
    exact h.isOpen

section
variable {limit : Nat} (hcalm : Calm start.link now limit)
  (hmin : 0 < start.link.settings.minLag.ns)
include hcalm hmin

theorem Collected.handleAll (h : Collected family start now done a) {fs : List Fragment}
    (hfs : ∀ f ∈ fs, ∃ m ∈ family.parcels, f ∈ m.parts)
    (hlimit : done.length + fs.length ≤ limit) :
    ∃ count b, Attached.handleAll now 0 (fs.map (Wire.whole layout)) a = .ok count b ∧
      Handled family start now (done ++ fs) a b := by
  have hall := handleAll_meets layout now
    (I := fun gs b => ∃ before, before ++ gs = fs ∧ Handled family start now (done ++ before) a b)
    (E := fun _ _ => False) (fun f gs b hb => ?step) fs 0 a ⟨[], rfl, ?start⟩
  case step =>
    obtain ⟨before, hsplit, hcollected, hraw, hincoming⟩ := hb
    have hmem : f ∈ fs := by
      rw [← hsplit]
      exact List.mem_append_right before List.mem_cons_self
    have hroom : (done ++ before).length < limit := by
      rw [← hsplit, List.length_append, List.length_cons] at hlimit
      rw [List.length_append]
      omega
    obtain ⟨c, hc, hnext⟩ := hcollected.handle hcalm hmin hroom (hfs f hmem)
    rw [hc]
    refine ⟨before ++ [f], by rw [← hsplit, List.append_assoc]; rfl, ?_,
      hnext.raw.trans hraw, hnext.incoming.trans hincoming⟩
    rw [← List.append_assoc]
    exact hnext.toCollected
  case start =>
    rw [List.append_nil]
    exact ⟨h, rfl, rfl⟩
  cases hr : Attached.handleAll now 0 (fs.map (Wire.whole layout)) a with
  | error e b =>
    rw [hr] at hall
    cases hall
  | ok count b =>
    rw [hr] at hall
    obtain ⟨-, before, hsplit, hhandled⟩ := hall
    rw [List.append_nil] at hsplit
    subst hsplit
    exact ⟨count, b, rfl, hhandled⟩

/-- After a receive the fragments `more` were handled and `rest` are still to come. -/
structure Received (family : Family layout) (start : Attached σ) (now : Moment)
    (done more rest : List Fragment) (b : Attached σ) : Prop extends
    Collected family start now (done ++ more) b where
  stream : b.stream = Fragment.wires layout rest
  /-- where every fragment fits into the raw bytes at least one is handled -/
  progress : Medium.Prompt σ → 0 < start.link.settings.readChunk →
    (∀ f ∈ rest, f.wireLength layout ≤ start.link.settings.rawLimit) → more ≠ [] ∨ rest = []

theorem Collected.receive (h : Collected family start now done a)
    (hfs : ∀ f ∈ todo, ∃ m ∈ family.parcels, f ∈ m.parts)
    (hlimit : done.length + todo.length ≤ limit)
    (hstream : a.stream = Fragment.wires layout todo) (hended : a.intake.ended = .ok false) :
    ∃ b more rest, todo = more ++ rest ∧ a.receive now = .ok () b ∧
      Received family start now done more rest b := by
  have hfits : ∀ f ∈ todo, f.Fits layout := fun f hf => by
    obtain ⟨m, hm, hfm⟩ := hfs f hf
    exact (family.parts hm).fits f hfm
  obtain ⟨more, rest, rfl, -, hloaded, hraw, heq⟩ :=
    receiveBundles_loaded h.sameLayout hfits hstream hended now
  rw [List.length_append, ← Nat.add_assoc] at hlimit
  obtain ⟨count, c, hc, hhandled⟩ := (h.loaded hloaded).handleAll hcalm hmin
    (fun f hf => hfs f (List.mem_append_left rest hf)) (Nat.le_of_add_right_le hlimit)
  obtain ⟨d, hd⟩ := conclude_ok hhandled.still hcalm
    (by rw [List.length_append]; exact Nat.le_of_add_right_le hlimit) count
  have hpurged := conclude_meets now false count c
  rw [hd] at hpurged
  rw [hc] at heq
  have hreceive : a.receive now = .ok () d := by
    rw [Attached.receive, if_pos h.connected, heq]
    show settle (conclude now false count c) = _
    rw [hd, settle_ok]
  refine ⟨d, more, rest, rfl, hreceive, hhandled.toCollected.purged hpurged.1, ?_, ?_⟩
  · rw [Attached.stream, hpurged.1.raw, hpurged.1.channel, hhandled.raw, hhandled.incoming]
    exact hloaded.stream
  · intro hprompt hchunk hrest
    by_cases hmore : more = []
    · right
      subst hmore
      have hsettings : a.link.settings = start.link.settings := h.still.settings
      have hlimit' : a.loaded.link.settings = start.link.settings :=
        (Link.settings_of_terms hloaded.terms).trans hsettings
      rcases stuck_of_nothing hprompt (by rw [hsettings]; exact hchunk) hended hloaded hraw with
        hnone | ⟨hfull, f, hf, hshort⟩
      · exact hnone
      · have hle := hrest f (List.mem_of_head? hf)
        rw [hlimit'] at hfull
        omega
    · exact .inl hmore

end

/-! ## several receives -/

/-- the state after several receives at the same moment -/
def received (now : Moment) (a : Attached σ) : Nat → Attached σ
  | 0 => a
  | n + 1 => ((a.received now n).receive now).after

theorem collected_opened {settings : Settings} (family : Family settings.layout)
    (hopen : Medium.isOpen a.channel = true) {id : Nat} {description : String}
    {generation : UInt64} (ha : a.link = .opened id description settings generation now) :
    Collected family a now [] a := by
  refine ⟨?_, ⟨rfl, ⟨0, Nat.le_refl 0, rfl⟩, ?_, ?_⟩, ?_, hopen, ?_, ?_,
    (List.append_nil _).symm⟩
  · rw [ha]
    rfl
  · intro t ht
    rw [ha] at ht
    cases ht
  · rw [ha]
    rfl
  · rw [ha]
    rfl
  · rw [ha]
    exact Stored.empty family now
  · rw [ha]
    rfl

theorem Collected.received (hmin : 0 < start.link.settings.minLag.ns) {fs : List Fragment}
    (hcalm : Calm start.link now fs.length) (h : Collected family start now [] start)
    (hfs : ∀ f ∈ fs, ∃ m ∈ family.parcels, f ∈ m.parts)
    (hstream : start.stream = Fragment.wires layout fs) (n : Nat)
    (hreads : ∀ i, i < n → (start.received now i).intake.ended = .ok false) :
    (∀ i, i < n → ∃ b, (start.received now i).receive now = .ok () b) ∧
      ∃ done todo, fs = done ++ todo ∧ Collected family start now done (start.received now n) ∧
        (start.received now n).stream = Fragment.wires layout todo ∧
        (Medium.Prompt σ → 0 < start.link.settings.readChunk →
          (∀ f ∈ fs, f.wireLength layout ≤ start.link.settings.rawLimit) →
          n ≤ done.length ∨ todo = []) := by
  induction n with
  | zero =>
    exact ⟨fun i hi => absurd hi (Nat.not_lt_zero i), [], fs, rfl, h, hstream,
      fun _ _ _ => .inl (Nat.zero_le _)⟩
  | succ n ih =>
    obtain ⟨hok, done, todo, rfl, hcollected, hrest, hprogress⟩ :=
      ih fun i hi => hreads i (Nat.lt_succ_of_lt hi)
    rw [List.length_append] at hcalm
    obtain ⟨b, more, rest, rfl, hb, hreceived⟩ := hcollected.receive hcalm hmin
      (fun f hf => hfs f (List.mem_append_right done hf)) (Nat.le_refl _) hrest
      (hreads n (Nat.lt_succ_self n))
    have hnext : start.received now (n + 1) = b := by
      rw [Attached.received, hb]
      rfl
    refine ⟨?_, done ++ more, rest, (List.append_assoc _ _ _).symm, ?_, ?_, ?_⟩
    · intro i hi
      rcases Nat.lt_succ_iff_lt_or_eq.mp hi with hi | rfl
      · exact hok i hi
      · exact ⟨b, hb⟩
    · rw [hnext]
      exact hreceived.toCollected
    · rw [hnext]
      exact hreceived.stream
    · intro hprompt hchunk hraw
      rcases hreceived.progress hprompt hchunk fun f hf => hraw f (by simp [hf]) with hmore | hnone
      · rcases hprogress hprompt hchunk hraw with hle | hnone
        · left
          have hpos := List.length_pos_iff.mpr hmore
          rw [List.length_append]
          omega
        · exact absurd (List.append_eq_nil_iff.mp hnone).1 hmore
      · exact .inr hnone

/-- A link that was just opened receives fragments of a family of bundles, in any order and any of
them repeated or missing. Those of the fragments that were handled so far have made ready each
bundle that they contain completely, once and in the order of completion, and were answered by acks
for such bundles and by nothing else; and all of them are handled in the end. -/
theorem deliveries_of_receives {settings : Settings} (family : Family settings.layout)
    (id : Nat) (description : String) (generation : UInt64) (fs : List Fragment) (n : Nat)
    (hvalid : settings.Valid)
    (hstart : start.link = .opened id description settings generation now)
    (hopen : Medium.isOpen start.channel = true)
    (hincoming : Medium.incoming start.channel = Fragment.wires settings.layout fs)
    (hfs : ∀ f ∈ fs, ∃ m ∈ family.parcels, f ∈ m.parts)
    (hcalm : Calm start.link now fs.length)
    (hreads : ∀ i, i < n → (start.received now i).intake.ended = .ok false) :
    (∀ i, i < n → ∃ b, (start.received now i).receive now = .ok () b) ∧
      ∃ done todo, fs = done ++ todo ∧
        (start.received now n).stream = Fragment.wires settings.layout todo ∧
        (start.received now n).link.ready = (family.deliveries [] done).map Parcel.buffer ∧
        Medium.outgoing (start.received now n).channel = Medium.outgoing start.channel ++
          (family.acks [] done).map (Fragment.wire settings.layout) ∧
        (family.deliveries [] done).Nodup ∧
        (∀ m, m ∈ family.deliveries [] done ↔
          m ∈ family.parcels ∧ ∀ f ∈ m.parts, f ∈ done) ∧
        ((start.received now n).stream = [] → todo = []) ∧
        (Medium.Prompt σ → (∀ f ∈ fs, f.wireLength settings.layout ≤ settings.rawLimit) →
          fs.length ≤ n → todo = []) := by
  have hsettings : start.link.settings = settings := by rw [hstart]; rfl
  have hraw : start.link.raw = [] := by rw [hstart]; rfl
  have hmin := ((Settings.valid_iff settings).mp hvalid).2.2.2.1
  have hstream : start.stream = Fragment.wires settings.layout fs := by
    rw [Attached.stream, hraw, hincoming]
    rfl
  obtain ⟨hok, done, todo, hsplit, hcollected, hrest, hprogress⟩ :=
    (collected_opened family hopen hstart).received (by rw [hsettings]; exact hmin) hcalm hfs
      hstream n hreads
  refine ⟨hok, done, todo, hsplit, hrest, hcollected.ready, hcollected.outgoing,
    family.nodup_deliveries, ?_, ?_, ?_⟩
  · intro m
    rw [family.mem_deliveries, List.append_nil]
    apply and_congr_right
    intro hm
    have hnot := (family.parts hm).not_whole
    rw [Parcel.whole_iff]
    simp [hnot]
  · intro hempty
    rw [hempty] at hrest
    exact Wire.wires_eq_nil hrest.symm
  · intro hprompt hfit hn
    rw [hsettings] at hprogress
    rcases hprogress hprompt hvalid.readChunk_pos hfit with hle | hnone
    · rw [hsplit, List.length_append] at hn
      exact List.length_eq_zero_iff.mp (by omega)
    · exact hnone

/-- two short bundles, and one of which only the header arrives -/
def mixture : Family .plain where
  parcels :=
    [⟨⟨9, 1⟩, [104, 105, 33], [.header 9 1 2 0, ⟨9, 1, 1, 2, 0, some [104, 105]⟩,
        ⟨9, 1, 2, 1, 0, some [33]⟩]⟩,
      ⟨⟨9, 2⟩, [97], [.header 9 2 1 0, ⟨9, 2, 1, 1, 0, some [97]⟩]⟩,
      ⟨⟨8, 2⟩, [98], [.header 8 2 1 0, ⟨8, 2, 1, 1, 0, some [98]⟩]⟩]
  split := by
    intro m hm
    simp only [List.mem_cons, List.not_mem_nil, or_false] at hm
    rcases hm with rfl | rfl | rfl
    · exact ⟨2, Bundle.split_eq_ok.mpr (by decide +kernel)⟩
    · exact ⟨1, Bundle.split_eq_ok.mpr (by decide +kernel)⟩
    · exact ⟨4096, Bundle.split_eq_ok.mpr (by decide +kernel)⟩
  distinct := by decide

/-- the fragments of the mixture, as they might arrive -/
def mixed : List Fragment :=
  [⟨9, 1, 2, 1, 0, some [33]⟩, .header 9 2 1 0, ⟨9, 1, 1, 2, 0, some [104, 105]⟩,
    ⟨9, 1, 2, 1, 0, some [33]⟩, ⟨9, 2, 1, 1, 0, some [97]⟩, .header 9 1 2 0,
    ⟨9, 2, 1, 1, 0, some [97]⟩, .header 8 2 1 0, .header 9 1 2 0]

/-- a link whose peer wrote the mixture into their memory channel -/
def listening : Attached End where
  link := .opened 7 "memory b -> a" {} 1 .start
  channel := ⟨.second, { forth := ⟨Fragment.wires .plain mixed, [], false⟩, back := .empty }⟩

theorem deliveries_of_receives_mixture :
    Calm listening.link .start mixed.length ∧ (∀ f ∈ mixed, ∃ m ∈ mixture.parcels, f ∈ m.parts) ∧
      (∀ i, i < 9 → (listening.received .start i).intake.ended = .ok false) ∧
      (∀ i, i < 9 → ∃ b, (listening.received .start i).receive .start = .ok () b) ∧
      (listening.received .start 9).link.ready = [[97], [104, 105, 33]] ∧
      Medium.outgoing (listening.received .start 9).channel = Medium.outgoing listening.channel ++
        [.ack ⟨9, 2⟩, .ack ⟨9, 1⟩, .ack ⟨9, 2⟩, .ack ⟨9, 1⟩].map (Fragment.wire .plain) := by
  have hcalm : Calm listening.link .start mixed.length := by decide +kernel
  have hmixed : ∀ f ∈ mixed, ∃ m ∈ mixture.parcels, f ∈ m.parts := by decide
  have hopen : ∀ i, i < 9 → (listening.received .start i).channel.isOver = false := by
    decide +kernel
  have hreads (i : Nat) (hi : i < 9) :
      (listening.received .start i).intake.ended = .ok false :=
    End.ended_of_open _ _ _ _ (hopen i hi)
  obtain ⟨hok, done, todo, hsplit, -, hready, houtgoing, -, -, -, hall⟩ :=
    deliveries_of_receives mixture 7 "memory b -> a" 1 mixed 9 Settings.valid_default rfl rfl
      (by decide +kernel) hmixed hcalm hreads
  obtain rfl := hall End.prompt (by decide +kernel) (Nat.le_refl 9)
  rw [List.append_nil] at hsplit
  subst hsplit
  refine ⟨hcalm, hmixed, hreads, hok, hready.trans ?_, houtgoing.trans ?_⟩
  · decide +kernel
  · decide +kernel

end BundleLink.Attached
