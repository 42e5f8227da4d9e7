import BundleLink.Proofs.Filling
import BundleLink.Proofs.Session.Steps

/-!
# What holds of the inbound bundles at any time

Whatever bytes come in, and whatever the application does in between, the entries of the inbound
table are of the two kinds that they are meant to be, and the moments that they hold are in order.

* `Link.Orderly`             the invariant of a link;
* `Attached.Change.entry`    what a fragment makes of an entry, then `handle_orderly` for the whole
  table and `Stages.orderly` for a receive;
* `Session.Orderly`          the same for a session, with `Orderly.receive`, `Orderly.operate` and
  `Orderly.run`;
* `Session.entries_regular`  the result.
-/

namespace BundleLink

theorem Link.minLag_le {l : Link} {lag : Span} (h : l.lag = .ok lag) :
    l.settings.minLag.ns ≤ lag.ns := by
  rw [Link.lag] at h
  cases hspan : Span.ofSeconds? l.meanGap with
  | error f =>
    rw [hspan] at h
    cases h
  | ok span =>
    rw [hspan] at h
    obtain rfl := Except.ok.inj h
    exact Nat.le_max_right _ _

/-- The last progress is over, all entries are regular, and no fragment was added after the last
progress. A deadline is at least five times the least lag behind the last fragment. -/
structure Link.Orderly (settings : Settings) (now : Moment) (l : Link) : Prop where
  settings_eq : l.settings = settings
  progress_le : l.lastProgress.ns ≤ now.ns
  regular : ∀ k asm, l.inbound.get? k = some asm → asm.Regular k
  arrival_le : ∀ k asm, l.inbound.get? k = some asm → asm.lastArrival.ns ≤ l.lastProgress.ns
  deadline_ge : ∀ k asm, l.inbound.get? k = some asm →
    asm.lastArrival.ns + 5 * settings.minLag.ns ≤ asm.deadline.ns

namespace Link.Orderly

variable {settings : Settings} {now later : Moment} {l l' : Link}

/-- Entries may go, and the last progress may come. -/
theorem congr (h : l.Orderly settings now) (hsettings : l'.settings = l.settings)
    (hprogress : l.lastProgress.ns ≤ l'.lastProgress.ns) (hnow : l'.lastProgress.ns ≤ later.ns)
    (hentries : ∀ k asm, l'.inbound.get? k = some asm → l.inbound.get? k = some asm) :
    l'.Orderly settings later :=
  ⟨hsettings.trans h.settings_eq, hnow, fun k asm hk => h.regular k asm (hentries k asm hk),
    fun k asm hk => Nat.le_trans (h.arrival_le k asm (hentries k asm hk)) hprogress,
    fun k asm hk => h.deadline_ge k asm (hentries k asm hk)⟩

theorem mono (h : l.Orderly settings now) (hlater : now.ns ≤ later.ns) :
    l.Orderly settings later :=
  h.congr rfl (Nat.le_refl _) (Nat.le_trans h.progress_le hlater) fun _ _ hk => hk

end Link.Orderly

namespace Attached

variable {σ : Type} {a b : Attached σ} {settings : Settings} {f : Fragment} {now : Moment}

/-- The entry after a fragment is the one that was there before, or a new one: it is regular, its
last fragment has just arrived, and it gets a deadline from the lag. -/
theorem Change.entry {l : Link} {o o' : Option Assembly} {bundle : Option Bytes} {asm : Assembly}
    (h : Change l f now o o' bundle) (hregular : ∀ asm, o = some asm → asm.Regular f.key)
    (hasm : o' = some asm) : o = some asm ∨
      (asm.Regular f.key ∧ asm.lastArrival = now ∧
        ∃ count, l.deadline now count = .ok asm.deadline) := by
  -- the assembly that a new fragment is added to
  have hbegins {asm : Assembly} (hb : Begins now o asm) :
      asm.Filled f.key ∧ asm.acked = false ∧ asm.complete = false := by
    cases hb with
    | underway asm hopen =>
      have hold := hregular asm rfl
      refine ⟨hold.filled hopen, Bool.eq_false_iff.mpr fun hacked => ?_, hopen⟩
      rw [hold.acked.mpr hacked] at hopen
      cases hopen
    | new deadline => exact ⟨.empty _ _ _, rfl, rfl⟩
  cases h with
  | passed => exact .inl hasm
  | released => cases hasm
  | rejected => cases hasm
  | doubled asm' b hopen hinserted =>
    cases hasm
    rw [((hregular asm' rfl).filled hopen).insert_duplicate hinserted]
    exact .inl rfl
  | @added _ _ grown deadline begins part hinserted hdue hmissing =>
    cases hasm
    obtain ⟨hfilled, hunacked, hopen⟩ := hbegins begins
    obtain ⟨hgrown, hpresent, hacked⟩ := hfilled.insert_added rfl hinserted
    have hcomplete : grown.complete = false :=
      (Assembly.insert_added hinserted).2.2.trans hopen
    refine .inr ⟨⟨?_, ?_, fun _ => hgrown.touch now deadline, fun _ => hpresent,
      fun _ n hn => hgrown.exists_free hn hmissing⟩, rfl, _, hdue⟩
    · show grown.complete = true ↔ grown.acked = true
      rw [hcomplete, hacked, hunacked]
    · intro hx
      exact absurd (hcomplete.symm.trans hx) Bool.false_ne_true
  | finished deadline bundle begins part hinserted hdue =>
    cases hasm
    exact .inr ⟨⟨⟨fun _ => rfl, fun _ => rfl⟩, fun _ => ⟨rfl, rfl⟩, nofun, nofun, nofun⟩, rfl, _,
      hdue⟩

variable [Channel σ]

theorem handle_orderly (h : a.link.Orderly settings now) (hnow : a.link.lastProgress = now)
    (f : Fragment) :
    (handle f now a).Meets (fun _ b => b.link.Orderly settings now) fun _ _ => True := by
  refine (handle_changes f now a).imp ?_ fun _ _ _ => trivial
  rintro _ b ⟨bundle, hb⟩
  have hsettings : b.link.settings = a.link.settings := by
    have hcore := congrArg Link.settings hb.core
    exact hcore
  have hprogress : b.link.lastProgress = a.link.lastProgress := by
    have hcore := congrArg Link.lastProgress hb.core
    exact hcore
  -- each entry was there before, or the fragment made it
  have hentry (k : Key) (asm : Assembly) (hk : b.link.inbound.get? k = some asm) :
      a.link.inbound.get? k = some asm ∨
        (asm.Regular k ∧ asm.lastArrival = now ∧
          ∃ count, a.link.deadline now count = .ok asm.deadline) := by
    by_cases hkey : k = f.key
    · subst hkey
      exact hb.change.entry (fun asm hasm => h.regular f.key asm hasm) hk
    · exact .inl ((hb.others k hkey).symm.trans hk)
  refine ⟨hsettings.trans h.settings_eq, hprogress ▸ h.progress_le, fun k asm hk => ?_,
    fun k asm hk => ?_, fun k asm hk => ?_⟩
  · rcases hentry k asm hk with hold | ⟨hregular, -⟩
    · exact h.regular k asm hold
    · exact hregular
  · rw [hprogress]
    rcases hentry k asm hk with hold | ⟨-, hlast, -⟩
    · exact h.arrival_le k asm hold
    · exact Nat.le_of_eq (by rw [hlast, hnow])
  · rcases hentry k asm hk with hold | ⟨-, hlast, count, hdue⟩
    · exact h.deadline_ge k asm hold
    · obtain ⟨lag, hlag, hdeadline⟩ := exists_lag hdue
      have hleast := Link.minLag_le hlag
      rw [h.settings_eq] at hleast
      have hfive : 5 * settings.minLag.ns ≤ lag.ns * max count Link.leastRemaining := by
        rw [Nat.mul_comm]
        exact Nat.mul_le_mul hleast (Nat.le_max_right _ _)
      rw [hlast, hdeadline]
      exact Nat.add_le_add_left hfive _

omit [Channel σ] in
theorem orderly_arrived (h : a.link.Orderly settings now) :
    (a.arrived now).link.Orderly settings now :=
  h.congr rfl h.progress_le (Nat.le_refl _) fun _ _ hk => hk

theorem handleAll_orderly (ps : List Wire.Piece) (count : Nat)
    (h : a.link.Orderly settings now) :
    (handleAll now count ps a).Meets (fun _ b => b.link.Orderly settings now)
      fun _ _ => True := by
  induction ps generalizing count a with
  | nil => exact h
  | cons p ps ih =>
    cases p with
    | skipped size flaw =>
      exact ih count (h.congr rfl (Nat.le_refl _) h.progress_le fun _ _ hk => hk)
    | fragment f size =>
      have hone := handle_orderly (orderly_arrived h) rfl f
      rw [handleAll]
      generalize handle f now (a.arrived now) = r at hone
      cases r with
      | ok _ b => exact ih (count + 1) hone
      | error e b => trivial

theorem Stages.orderly {c : Attached σ} (hc : Stages now a b c)
    (h : a.link.Orderly settings now) : c.link.Orderly settings now := by
  obtain ⟨count, hhandled⟩ := hc.handled
  have hloaded : a.loaded.link.Orderly settings now :=
    h.congr rfl (Nat.le_refl _) h.progress_le fun _ _ hk => hk
  have hb := handleAll_orderly a.pieces 0 hloaded
  rw [hhandled] at hb
  replace hb : b.link.Orderly settings now := hb
  have hsettings := Link.settings_of_terms hc.purged.terms
  have hprogress : c.link.lastProgress = b.link.lastProgress := by
    have hcore := congrArg Link.lastProgress hc.purged.core
    exact hcore
  refine hb.congr hsettings (Nat.le_of_eq (by rw [hprogress])) (hprogress ▸ hb.progress_le)
    fun k asm hk => ?_
  rw [hc.purged.inbound] at hk
  exact (Option.filter_eq_some_iff.mp hk).1

end Attached

namespace Session

variable {σ : Type} [Channel σ] {s : Session σ} {settings : Settings} {now later : Moment}

/-- While the link is at work, it is orderly. -/
def Orderly (settings : Settings) (now : Moment) (s : Session σ) : Prop :=
  s.party.Active → s.party.link.Orderly settings now

theorem Orderly.receive (h : Orderly settings now s) :
    Orderly settings now (s.step (.act .receive now)) := by
  intro hx
  obtain ⟨b, c, hc, hlink⟩ := step_receive hx
  rw [hlink]
  exact hc.orderly (a := s.attached) (h (active_of_step hx))

theorem Orderly.operate (h : Orderly settings now s) {e : Event}
    (he : ∀ now, e ≠ .act .receive now) (hmoment : ∀ m, e.moment? = some m → m = now) :
    Orderly settings now (s.step e) := by
  intro hx
  have hold := h (active_of_step hx)
  obtain ⟨⟨layout, size, outbound, ready, generation, next, progress, traffic, hlink⟩, hprogress⟩ :=
    step_operated he hx
  rw [hlink] at hprogress ⊢
  rcases hprogress with hsame | hmoved
  · refine hold.congr rfl (Nat.le_of_eq ?_) ?_ fun _ _ hk => hk
    · exact congrArg Moment.ns hsame.symm
    · show progress.ns ≤ now.ns
      rw [show progress = _ from hsame]
      exact hold.progress_le
  · have hnow : progress = now := hmoment progress hmoved
    refine hold.congr rfl ?_ (Nat.le_of_eq (by rw [hnow])) fun _ _ hk => hk
    show _ ≤ progress.ns
    rw [hnow]
    exact hold.progress_le

/-- The rest of a run, whose moments are all later than `now`. -/
theorem Orderly.run (es : List Event) (h : Orderly settings now s)
    (hclock : Monotone (clock now es later)) : Orderly settings later (s.run es) := by
  induction es generalizing s now with
  | nil =>
    have hle := (List.pairwise_cons.mp hclock).1 later (by simp)
    exact fun hx => (h hx).mono hle
  | cons e es ih =>
    cases e with
    | setLayout layout => exact ih (h.operate nofun nofun) hclock
    | act op next =>
      have htail := (List.pairwise_cons.mp hclock).2
      have hle := (List.pairwise_cons.mp hclock).1 next List.mem_cons_self
      have hnext : Orderly settings next s := fun hx => (h hx).mono hle
      refine ih (s := s.step (.act op next)) ?_ htail
      by_cases hreceive : ∃ now, Event.act op next = .act .receive now
      · obtain ⟨now, heq⟩ := hreceive
        cases heq
        exact hnext.receive
      · exact hnext.operate (fun now heq => hreceive ⟨now, heq⟩) fun m hm => by
          cases hm
          rfl

/-- In any session of a link on any channel, with any settings and a clock that never goes back, let
the link be at work. Then all its inbound entries are regular: a finished one was acknowledged and
has no slots, and an unfinished one holds in each slot the fragment with that number and with its
key, knows the count of its header and misses at least one fragment. No entry got a fragment after
the last progress, which is over, and no deadline is less than five times the least lag after that
fragment. -/
theorem entries_regular (id : Nat) (description : String) (settings : Settings)
    (generation : UInt64) (start : Moment) (channel : σ) (es : List Event) (now : Moment) (k : Key)
    (asm : Assembly) (hs : s = (opened id description settings generation start channel).run es)
    (hclock : Monotone (clock start es now)) (hactive : s.party.Active)
    (hget : s.party.link.inbound.get? k = some asm) :
    asm.Regular k ∧ asm.lastArrival.ns ≤ s.party.link.lastProgress.ns ∧
      s.party.link.lastProgress.ns ≤ now.ns ∧
      asm.lastArrival.ns + 5 * settings.minLag.ns ≤ asm.deadline.ns := by
  have hopened : Orderly settings start
      (opened id description settings generation start channel) := fun _ =>
    ⟨rfl, Nat.le_refl _, nofun, nofun, nofun⟩
  have horderly := hopened.run es hclock
  rw [← hs] at horderly
  have hlink := horderly hactive
  exact ⟨hlink.regular k asm hget, hlink.arrival_le k asm hget, hlink.progress_le,
    hlink.deadline_ge k asm hget⟩

/-- one bundle whose header comes after its first data fragment, and one that is whole -/
def gathering : Session Script :=
  opened 7 "scripted" {} 1 .start
    (Script.lone (Fragment.wires .plain
      [⟨9, 1, 1, 2, 0, some [104, 105]⟩, .header 9 1 2 0, .header 9 2 1 0,
        ⟨9, 2, 1, 1, 0, some [33]⟩]))

/-- one entry of either kind -/
theorem entries_regular_gathering : ∃ partly kept,
    (gathering.run [.act .receive .start]).party.link.inbound.get? ⟨9, 1⟩ = some partly ∧
      (gathering.run [.act .receive .start]).party.link.inbound.get? ⟨9, 2⟩ = some kept ∧
      partly.complete = false ∧ partly.present = 2 ∧ partly.declared = some 2 ∧
      partly.Regular ⟨9, 1⟩ ∧ kept.complete = true ∧ kept.Regular ⟨9, 2⟩ := by
  have hpartly : ((gathering.run [.act .receive .start]).party.link.inbound.get? ⟨9, 1⟩).map
      (fun asm => (asm.complete, asm.present, asm.declared)) = some (false, 2, some 2) := by
    decide +kernel
  have hkept : ((gathering.run [.act .receive .start]).party.link.inbound.get? ⟨9, 2⟩).map
      Assembly.complete = some true := by decide +kernel
  obtain ⟨partly, hpartly, hopen⟩ := Option.map_eq_some_iff.mp hpartly
  obtain ⟨kept, hkept, hcomplete⟩ := Option.map_eq_some_iff.mp hkept
  obtain ⟨hopen, hcounts⟩ := Prod.mk.inj hopen
  obtain ⟨hpresent, hdeclared⟩ := Prod.mk.inj hcounts
  have hregular (k : Key) (asm : Assembly)
      (hget : (gathering.run [.act .receive .start]).party.link.inbound.get? k = some asm) :
      asm.Regular k :=
    (entries_regular 7 "scripted" {} 1 .start _ [.act .receive .start] .start k asm rfl
      (by decide) ⟨by decide +kernel, by decide +kernel⟩ hget).1
  exact ⟨partly, kept, hpartly, hkept, hopen, hpresent, hdeclared, hregular _ _ hpartly,
    hcomplete, hregular _ _ hkept⟩

end Session

end BundleLink
