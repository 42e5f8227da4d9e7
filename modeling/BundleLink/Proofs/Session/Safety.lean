import BundleLink.Proofs.Session.Faultless

/-!
# Every receive is safe

A link has been used in any way on a channel that may do anything, with its layout changed at any
time. Then its raw bytes are within their bound, and its inbound entries are regular. Therefore one
more receive comes to an end, stays within the bound, asks for nothing impossible and does not
fault, provided that the lags leave room. If it succeeds, it leaves nothing that could be taken
apart.

* `Link.Contained`       the invariant of a link;
* `Attached.SafeReceive` what one receive guarantees;
* `receive_contained`    the invariant survives a receive, unless that faults;
* `Contained.step`, `Contained.run`  and whatever else is done;
* `Session.receive_safe` the result.
-/

namespace BundleLink

/-- The raw bytes are within their bound, and the entries are regular. -/
structure Link.Contained (settings : Settings) (l : Link) : Prop where
  settings_eq : l.settings = settings
  raw_lt : l.raw.length < settings.rawLimit + settings.readChunk
  regular : l.Regular

variable {settings : Settings}

/-- Raw bytes and entries may go. -/
theorem Link.Contained.congr {l l' : Link} (h : l.Contained settings)
    (hsettings : l'.settings = l.settings) (hraw : l'.raw.length ≤ l.raw.length)
    (hentries : ∀ k asm, l'.inbound.get? k = some asm → l.inbound.get? k = some asm) :
    l'.Contained settings :=
  ⟨hsettings.trans h.settings_eq, Nat.lt_of_le_of_lt hraw h.raw_lt,
    fun k asm hk => h.regular k asm (hentries k asm hk)⟩

/-- All the rest may change. -/
theorem Link.Contained.same {l l' : Link} (h : l.Contained settings)
    (hsettings : l'.settings = l.settings) (hraw : l'.raw = l.raw)
    (hinbound : l'.inbound = l.inbound) : l'.Contained settings :=
  h.congr hsettings (Nat.le_of_eq (congrArg List.length hraw)) fun _ _ hk => hinbound ▸ hk

namespace Attached

variable {σ : Type} [Channel σ] {a b : Attached σ} {now : Moment}

/-- One receive comes to an end, stays within the bound, and does nothing that is not possible. -/
structure SafeReceive (settings : Settings) (now : Moment) (a : Attached σ) : Prop where
  /-- the reads end -/
  reads : Reads settings.readChunk (settings.rawLimit - a.link.raw.length) a.channel
    a.intake.chunks.reverse a.intake.ended a.intake.channel
  /-- there are not too many of them -/
  fewReads : a.intake.chunks.length ≤
    settings.rawLimit - a.link.raw.length + Channel.lull a.channel
  /-- the raw bytes after any number of reads -/
  bounded : ∀ m, (a.link.raw ++ (a.intake.chunks.reverse.take m).flatten).length <
    settings.rawLimit + settings.readChunk
  /-- the raw bytes are taken apart -/
  takenApart : Wire.TakenApart a.link.layout a.filled.link.raw a.pieces a.loaded.link.raw
  /-- there are not too many pieces -/
  fewPieces : a.pieces.length ≤ a.filled.link.raw.length
  /-- nothing is asked for that is not possible -/
  met : ∀ d ∈ a.demands now, d.Met
  /-- and nothing faults -/
  faultless : ∀ f, (a.receive now).failure ≠ some (.fault f)
  /-- the raw bytes after the receive -/
  after : (a.receive now).after.link.raw.length < settings.rawLimit + settings.readChunk
  /-- if it succeeds, no more of them can be taken apart -/
  settled : ∀ b, a.receive now = .ok () b →
    b.link.raw = [] ∨ Wire.extract b.link.layout b.link.raw = .incomplete

/-! ## one receive -/

theorem reads_intake (hsettings : a.link.settings = settings) (hchunk : 0 < settings.readChunk) :
    Reads settings.readChunk (settings.rawLimit - a.link.raw.length) a.channel
      a.intake.chunks.reverse a.intake.ended a.intake.channel := by
  rw [← hsettings] at hchunk ⊢
  exact reads_fill hchunk _ _

/-- Nothing is read when the bound is reached, and otherwise only the last chunk goes beyond it. -/
theorem raw_reads_lt (h : a.link.Contained settings) (hchunk : 0 < settings.readChunk) (m : Nat) :
    (a.link.raw ++ (a.intake.chunks.reverse.take m).flatten).length <
      settings.rawLimit + settings.readChunk := by
  have hroom := (reads_intake h.settings_eq hchunk).length_take_lt hchunk m
  rw [List.length_append]
  rcases Nat.lt_or_ge a.link.raw.length settings.rawLimit with hfree | hfull
  · omega
  · rw [← h.settings_eq] at hfull
    rw [intake_of_full hfull]
    have hraw := h.raw_lt
    rw [List.reverse_nil, List.take_nil, List.flatten_nil, List.length_nil]
    omega

theorem contained_loaded (h : a.link.Contained settings) (hchunk : 0 < settings.readChunk) :
    a.loaded.link.Contained settings := by
  have hfilled := raw_reads_lt h hchunk a.intake.chunks.reverse.length
  rw [List.take_length] at hfilled
  have hconsumed := Wire.consumed_scan a.filled.link.layout a.filled.link.raw
  refine ⟨h.settings_eq, Nat.lt_of_le_of_lt ?_ hfilled, h.regular⟩
  show (Wire.scan a.filled.link.layout a.filled.link.raw).2.length ≤ a.filled.link.raw.length
  omega

omit [Channel σ] in
theorem contained_of_underway {n : Nat} (h : Underway now a n b) (ha : a.link.Contained settings) :
    b.link.Contained settings := by
  obtain ⟨hraw, -, hsettings, -⟩ := kept_of_arrivals h.core
  exact ⟨hsettings.trans ha.settings_eq, hraw ▸ ha.raw_lt, h.regular⟩

omit [Channel σ] in
theorem contained_purged {c : Attached σ} (h : Purged now b c) (hb : b.link.Contained settings) :
    c.link.Contained settings := by
  refine hb.congr (Link.settings_of_terms h.terms) (Nat.le_of_eq (by rw [h.raw]))
    fun k asm hk => ?_
  rw [h.inbound] at hk
  exact (Option.filter_eq_some_iff.mp hk).1

/-- A receive leaves a contained link, or one that is about to be closed. -/
theorem receiveBundles_contained (h : a.link.Contained settings) (hchunk : 0 < settings.readChunk)
    (hopen : a.link.connected = true) (now : Moment) :
    (receiveBundles now a).Meets (fun _ b => b.link.Contained settings)
      fun e b => e.Ends ∧ b.link.settings = settings ∧ b.link.connected = true := by
  cases hended : a.intake.ended with
  | error e =>
    rw [receiveBundles_failed hended]
    exact ⟨rfl, h.settings_eq, hopen⟩
  | ok ended =>
    have hall := (handleAll_underway h.regular now).2
    have hloaded := contained_loaded h hchunk
    cases hr : handleAll now 0 a.pieces a.loaded with
    | error e b =>
      rw [receiveBundles_broken hended hr]
      rw [hr] at hall
      obtain ⟨hbreaks, n, hcore⟩ := hall
      obtain ⟨-, -, hsettings, hconnected⟩ := kept_of_arrivals hcore
      exact ⟨hbreaks.ends, hsettings.trans h.settings_eq, hconnected.trans hopen⟩
    | ok count b =>
      rw [receiveBundles_handled hended hr]
      rw [hr] at hall
      have hb := contained_of_underway hall.2 hloaded
      obtain ⟨-, -, -, hconnected⟩ := kept_of_arrivals hall.2.core
      refine (conclude_meets now ended count b).imp (fun _ c hc => contained_purged hc.1 hb)
        fun e c hc => ⟨hc.2, ?_, ?_⟩
      · exact (Link.settings_of_terms hc.1.terms).trans hb.settings_eq
      · exact hc.1.connected.trans (hconnected.trans hopen)

/-- a link that is closed keeps neither raw bytes nor entries -/
theorem contained_close (hsettings : a.link.settings = settings)
    (hchunk : 0 < settings.readChunk)
    (h : a.link.connected = true ∨ a.link.Contained settings) :
    a.close.link.Contained settings := by
  rw [close]
  split
  · refine ⟨hsettings, Nat.add_pos_right _ hchunk, fun k asm hk => ?_⟩
    cases hk
  · rename_i hclosed
    exact h.resolve_left hclosed

/-- The link is contained afterwards, unless a fault came up. -/
def LeavesContained (settings : Settings) (r : Outcome σ Unit) : Prop :=
  r.Meets (fun _ b => b.link.Contained settings)
    fun e b => (∃ f, e = .fault f) ∨ b.link.Contained settings

/-- A failure ends the link, unless it leaves it contained. -/
theorem settle_contained {r : Outcome σ Unit} (hchunk : 0 < settings.readChunk)
    (h : r.Meets (fun _ b => b.link.Contained settings) fun e b =>
      (e.Ends ∧ b.link.settings = settings ∧ b.link.connected = true) ∨
        b.link.Contained settings) :
    LeavesContained settings (settle r) := by
  rcases r with ⟨_, b⟩ | ⟨e | f, b⟩
  · exact h
  · rw [settle]
    split
    · rcases h with ⟨-, hsettings, hopen⟩ | hb
      · exact .inr (contained_close hsettings hchunk (.inl hopen))
      · exact .inr (contained_close hb.settings_eq hchunk (.inr (hb.same rfl rfl rfl)))
    · rename_i hlasts
      rcases h with ⟨hends, -⟩ | hb
      · exact absurd hends hlasts
      · exact .inr hb
  · exact .inl ⟨f, rfl⟩

theorem receive_contained (h : a.link.Contained settings) (hchunk : 0 < settings.readChunk)
    (now : Moment) : LeavesContained settings (a.receive now) := by
  rw [receive]
  split
  · rename_i hopen
    exact settle_contained hchunk ((receiveBundles_contained h hchunk hopen now).imp
      (fun _ _ hb => hb) fun _ _ hb => .inl hb)
  · exact .inr h

theorem receive_faultless (h : a.link.Regular) (hsustains : a.Sustains now a.hears.length)
    (htimeouts : a.link.timeouts < Link.maxTimeoutCount) (f : Fault) :
    (a.receive now).failure ≠ some (.fault f) := by
  intro hfault
  rw [receive] at hfault
  split at hfault
  · rw [failure_settle] at hfault
    have hmild := receiveBundles_faultless h hsustains htimeouts
    generalize receiveBundles now a = r at hfault hmild
    rcases r with ⟨_, b⟩ | ⟨e, b⟩
    · cases hfault
    · obtain ⟨x, rfl⟩ := hmild
      cases hfault
  · cases hfault

/-- What a receive that succeeds leaves of the raw bytes cannot be taken apart. -/
theorem receive_settled (h : a.link.Regular) (hok : a.receive now = .ok () b) :
    b.link.raw = [] ∨ Wire.extract b.link.layout b.link.raw = .incomplete := by
  obtain ⟨c, hc⟩ := stages_of_ok (receive_eq_ok hok)
  obtain ⟨count, hhandled⟩ := hc.handled
  have hunderway := (handleAll_underway h now).2
  rw [hhandled] at hunderway
  obtain ⟨hraw, hlayout, -⟩ := kept_of_arrivals hunderway.2.core
  rw [hc.purged.raw, Link.layout_of_terms hc.purged.terms, hraw, hlayout]
  exact (Wire.takenApart_scan _ _).rest_settled

theorem safeReceive (h : a.link.Contained settings) (hchunk : 0 < settings.readChunk)
    (hsustains : a.Sustains now a.hears.length)
    (htimeouts : a.link.timeouts < Link.maxTimeoutCount) : SafeReceive settings now a := by
  have hreads := reads_intake h.settings_eq hchunk
  have hapart := Wire.takenApart_scan a.filled.link.layout a.filled.link.raw
  have hfaultless := receive_faultless h.regular hsustains htimeouts
  have hcontained := receive_contained h hchunk now
  refine ⟨hreads, ?_, raw_reads_lt h hchunk, hapart,
    Nat.le_trans (Nat.le_add_right _ _) hapart.length_le, demands_met h.regular now, hfaultless, ?_,
    fun b hb => receive_settled h.regular hb⟩
  · have hle := hreads.length_le
    rwa [List.length_reverse] at hle
  · generalize a.receive now = r at hcontained hfaultless
    cases r with
    | ok _ b => exact hcontained.raw_lt
    | error e b =>
      rcases hcontained with ⟨f, rfl⟩ | hb
      · exact absurd rfl (hfaultless f)
      · exact hb.raw_lt

end Attached

/-! ## sessions -/

namespace Session

variable {σ : Type} [Channel σ] {s t : Session σ} {now : Moment}

/-- Unless a fault has stopped the party, its link is contained. -/
def Contained (settings : Settings) (s : Session σ) : Prop :=
  s.party.halted = false → s.party.link.Contained settings

namespace Contained

omit [Channel σ] in
theorem setLink (h : Contained settings s) {l : Link}
    (hl : s.party.link.Contained settings → l.Contained settings) :
    Contained settings (s.setLink l) :=
  fun hrunning => hl (h hrunning)

omit [Channel σ] in
/-- an operation that only reads -/
theorem gets (h : Contained settings s) {r : Except LinkError (Option Bytes) × Link}
    (hr : ∃ rest, r.2 = { s.party.link with ready := rest }) :
    Contained settings { s with party := s.party.gets r } := by
  obtain ⟨rest, hrest⟩ := hr
  obtain ⟨hlink, hhalted⟩ := s.party.gets_eq r
  intro hrunning
  have hold := h (hhalted.symm.trans hrunning)
  show (s.party.gets r).link.Contained settings
  rw [hlink, hrest]
  exact hold.same rfl rfl rfl

omit [Channel σ] in
/-- an operation on the channel -/
theorem settled {r : Outcome (Traced σ) Unit} (h : Attached.LeavesContained settings r)
    (buffers : List Bytes) (ds : List Deed) : Contained settings (s.settle buffers ds r) := by
  rcases r with ⟨_, b⟩ | ⟨e | f, b⟩
  · exact fun _ => h
  · rcases h with ⟨f, hf⟩ | hb
    · cases hf
    · exact fun _ => hb
  · exact nofun

theorem write (h : s.party.link.Contained settings) (hchunk : 0 < settings.readChunk)
    (buffer : Bytes) (flushNow : Bool) (now : Moment) :
    Attached.LeavesContained settings (s.attached.write buffer flushNow now) := by
  have hissued {b : Attached (Traced σ)} (hb : Attached.Issued s.attached b) :
      b.link.Contained settings := by
    obtain ⟨traffic, next, outbound, progress, hb⟩ := hb
    rw [hb]
    exact h.same rfl rfl rfl
  rw [Attached.write]
  split
  · exact Attached.settle_contained hchunk
      ((Attached.writeBundle_issued buffer flushNow now s.attached).imp
        (fun _ _ hb => hissued hb.1) fun _ _ hb => .inr (hissued hb.1))
  · exact .inr h

theorem step (h : Contained settings s) (hchunk : 0 < settings.readChunk) (e : Event) :
    Contained settings (s.step e) := by
  cases e with
  | setLayout layout =>
    exact Party.unless_halted h fun _ => h.setLink fun hl => hl.same rfl rfl rfl
  | act op now =>
    cases op with
    | receive =>
      exact Party.unless_halted h fun hrunning =>
        settled (Attached.receive_contained (a := s.attached) (h hrunning) hchunk now) _ _
    | read => exact h.gets (Link.read_queue _)
    | readInto buffer => exact h.gets (Link.readInto_queue _ buffer)
    | readText => exact h.gets (Link.readText_queue _)
    | write buffer flushNow =>
      exact Party.unless_halted h fun hrunning =>
        settled (write (h hrunning) hchunk buffer flushNow now) _ _
    | writeText text flushNow =>
      exact Party.unless_halted h fun hrunning =>
        settled (write (h hrunning) hchunk (Utf8.encode text) flushNow now) _ _
    | setFragmentSize size =>
      obtain ⟨n, hn⟩ := s.party.link.setFragmentSize_eq size
      refine Party.unless_halted h fun _ => h.setLink fun hl => ?_
      rw [hn]
      exact hl.same rfl rfl rfl
    | advanceGeneration =>
      refine Party.unless_halted h fun _ => ?_
      show Contained settings { s with party := s.party.advance }
      rcases s.party.advance_eq with hadvance | hadvance
      · rw [hadvance]
        exact h.setLink fun hl => hl.same rfl rfl rfl
      · rw [hadvance]
        exact fun hrunning => nomatch hrunning
    | close =>
      show Contained settings (if s.party.halted then _ else _)
      split
      · rename_i hhalted
        exact fun hrunning => nomatch hhalted.symm.trans hrunning
      · rename_i hrunning
        have hl := h (Bool.eq_false_iff.mpr hrunning)
        exact fun _ => Attached.contained_close (a := s.attached) hl.settings_eq hchunk (.inr hl)

theorem run (h : Contained settings s) (hchunk : 0 < settings.readChunk) (es : List Event) :
    Contained settings (s.run es) := by
  induction es generalizing s with
  | nil => exact h
  | cons e es ih => exact ih (h.step hchunk e)

end Contained

/-- Let a link with valid settings have been used in any way on any channel, with its layout changed
at any time, and let no fault have stopped its party. Then one more receive is safe, provided that
the lags during it leave room and that one more timeout can be counted: it comes to an end even if
the channel never runs dry, the raw bytes stay within their bound, each piece takes at least one of
them off and no more than there are, nothing impossible is asked for, nothing faults, and if the
receive succeeds then no raw bytes are left that could be taken apart. -/
theorem receive_safe (id : Nat) (description : String) {settings : Settings}
    (hvalid : settings.Valid) (generation : UInt64) (start : Moment) (channel : σ)
    (es : List Event) (now : Moment)
    (hs : s = (opened id description settings generation start channel).run es)
    (hrunning : s.party.halted = false)
    (hsustains : s.attached.Sustains now s.attached.hears.length)
    (htimeouts : s.party.link.timeouts < Link.maxTimeoutCount) :
    Attached.SafeReceive settings now s.attached := by
  have hchunk : 0 < settings.readChunk := by
    obtain ⟨-, hfits, -⟩ := settings.valid_iff.mp hvalid
    have hheader := Wire.headerLength_pos settings.layout
    omega
  have hopened : Contained settings (opened id description settings generation start channel) :=
    fun _ => ⟨rfl, Nat.add_pos_right _ hchunk, nofun⟩
  have hcontained := hopened.run hchunk es
  rw [← hs] at hcontained
  exact Attached.safeReceive (hcontained hrunning) hchunk hsustains htimeouts

/-- Chunks and raw bytes have room for one fragment only. -/
def narrow : Settings := { fragmentSize := 10, readChunk := 36, rawLimit := 36 }

/-- A fragment with the greatest number there is, then the header of another bundle in another
layout, and then bytes without end. The layout changes when ten bytes of the header have come. -/
def flooded : Session Script :=
  (opened 7 "scripted" narrow 1 .start
    { Script.lone (Fragment.wire .plain ⟨9, 1, 2147483647, 0, 0, some []⟩ ++
        Fragment.wire .checksummed (.header 9 2 2 5) ++ [1]) with filler := some 67 }).run
    [.act .receive .start, .setLayout .checksummed]

/-- The next receive reads as many bytes as there may be, and finds the header. -/
theorem receive_safe_flooded :
    flooded.party.link.raw.length = 10 ∧ flooded.attached.filled.link.raw.length = 36 + 36 - 1 ∧
      flooded.attached.hears = [.header 9 2 2 5] ∧
      flooded.attached.demands (millis 1) = [.slot 0 1, .rest 1 3] ∧
      Attached.SafeReceive narrow (millis 1) flooded.attached :=
  ⟨by decide +kernel, by decide +kernel, by decide +kernel, by decide +kernel,
    receive_safe 7 "scripted" (by decide) 1 .start _
      [.act .receive .start, .setLayout .checksummed] (millis 1) rfl (by decide +kernel)
      (by decide +kernel) (by decide +kernel)⟩

end Session

end BundleLink
