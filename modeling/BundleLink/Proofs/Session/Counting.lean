import BundleLink.Proofs.Answering
import BundleLink.Proofs.Chunking
import BundleLink.Proofs.Session.Provenance
import BundleLink.Proofs.Session.Retention

/-!
# What a link writes, reads and counts

A channel with a record of its calls shows what was written, and the log shows what was dropped. The
counts of a link are compared with both.

* `Tally.of`             the total of a number, as far as it has room;
* `Traced.sent`          the bytes of the writes that succeeded;
* `Link.droppedBytes`    the number of bytes that the log says were dropped;
* `Attached.Counts`      the counts are right about what is known of the past;
* `Attached.Accrued`     what was answered, handled and dropped between one state and another;
* `handle_accrues`       one fragment, and `receiveBundles_accrued` one receive;
* `writeBundle_count`    one write, which ends in one of the ways of `Attached.WriteCount`.
-/

namespace BundleLink

/-! ## observations -/

/-- the total of a number, as far as it has room -/
def Tally.of (n : Nat) : Tally := ⟨min n greatest⟩

theorem Tally.of_add (m n : Nat) : (of m).add n = of (m + n) := by
  show Tally.mk (min (min m greatest + n) greatest) = ⟨min (m + n) greatest⟩
  congr 1
  omega

/-- the bytes of a write that succeeded -/
def ChannelCall.sent? : ChannelCall → Option Bytes
  | .write bytes none => some bytes
  | .write _ (some _) | .flush _ => none

/-- the bytes of all writes that succeeded, the oldest ones first -/
def Traced.sent {σ : Type} (t : Traced σ) : List Bytes := t.calls.filterMap ChannelCall.sent?

theorem Traced.sent_append {σ : Type} {t t' : Traced σ} {cs : List ChannelCall}
    (h : t'.calls = t.calls ++ cs) : t'.sent = t.sent ++ cs.filterMap ChannelCall.sent? := by
  rw [sent, h, List.filterMap_append]
  rfl

/-- the number of bytes that a warning says were dropped -/
def Warning.droppedBytes : Warning → Nat
  | .dropped size _ _ => size
  | _ => 0

/-- warnings about anything else count for nothing -/
theorem Warning.foldr_droppedBytes {ws : List Warning} (h : ∀ w ∈ ws, w.droppedBytes = 0)
    (n : Nat) : ws.foldr (fun w n => w.droppedBytes + n) n = n := by
  induction ws with
  | nil => rfl
  | cons w ws ih =>
    rw [List.foldr_cons, ih fun v hv => h v (List.mem_cons_of_mem w hv), h w List.mem_cons_self,
      Nat.zero_add]

/-- the number of bytes that the log says were dropped -/
def Link.droppedBytes (l : Link) : Nat := l.log.foldr (fun w n => w.droppedBytes + n) 0

theorem Link.droppedBytes_warn (l : Link) (w : Warning) :
    (l.warn w).droppedBytes = l.droppedBytes + w.droppedBytes := Nat.add_comm _ _

/-- The fragment acknowledges a bundle that is outbound. -/
def Happening.acknowledges {σ : Type} : Happening σ → Bool
  | .handled x =>
    x.fragment.isControl && x.fragment.length == Fragment.ackLength
      && (x.before.link.outbound.get? x.fragment.key).isSome
  | .received _ => false

namespace Attached

variable {σ : Type} {a b c : Attached (Traced σ)} {heard arrived whole taken dropped : Nat}

/-- The counts of the link are right: it has written what its channel shows, read `heard` bytes,
handled `arrived` fragments, sent `whole` bundles, and received those that are ready and `taken`
others. -/
def Counts (heard arrived whole taken : Nat) (a : Attached (Traced σ)) : Prop :=
  a.link.traffic =
    { bytesSent := .of a.channel.sent.flatten.length
      bytesReceived := .of heard
      fragmentsSent := .of a.channel.sent.length
      fragmentsReceived := .of arrived
      bundlesSent := .of whole
      bundlesReceived := .of (taken + a.link.ready.length) }

theorem Counts.congr (h : Counts heard arrived whole taken a)
    (htraffic : b.link.traffic = a.link.traffic) (hready : b.link.ready = a.link.ready)
    (hsent : b.channel.sent = a.channel.sent) : Counts heard arrived whole taken b := by
  rw [Counts, htraffic, hready, hsent]
  exact h

/-! ## answers -/

/-- From `a` to `b` the answers `fs` were written, `heard` bytes read, `arrived` fragments handled
and `dropped` bytes dropped. If the counts were right they still are. -/
structure Accrued (fs : List Fragment) (heard arrived dropped : Nat) (a b : Attached (Traced σ)) :
    Prop where
  answers : ∀ f ∈ fs, f.IsAnswer
  layout : b.link.layout = a.link.layout
  nextMessage : b.link.nextMessage = a.link.nextMessage
  sent : b.channel.sent = a.channel.sent ++ fs.map (Fragment.wire a.link.layout)
  counts : ∀ {bytes fragments whole taken}, Counts bytes fragments whole taken a →
    Counts (bytes + heard) (fragments + arrived) whole taken b
  dropped : b.link.droppedBytes = a.link.droppedBytes + dropped

theorem Accrued.trans {fs gs : List Fragment} {heard' arrived' dropped' : Nat}
    (h : Accrued fs heard arrived dropped a b) (h' : Accrued gs heard' arrived' dropped' b c) :
    Accrued (fs ++ gs) (heard + heard') (arrived + arrived') (dropped + dropped') a c := by
  refine ⟨fun f hf => (List.mem_append.mp hf).elim (h.answers f) (h'.answers f),
    h'.layout.trans h.layout, h'.nextMessage.trans h.nextMessage, ?_, fun hcounts => ?_, ?_⟩
  · rw [h'.sent, h.sent, h.layout, List.map_append, List.append_assoc]
  · rw [← Nat.add_assoc, ← Nat.add_assoc]
    exact h'.counts (h.counts hcounts)
  · rw [h'.dropped, h.dropped, Nat.add_assoc]

/-- Nothing happened that is counted. -/
structure Uncounted (a b : Attached (Traced σ)) : Prop where
  layout : b.link.layout = a.link.layout
  nextMessage : b.link.nextMessage = a.link.nextMessage
  traffic : b.link.traffic = a.link.traffic
  ready : b.link.ready = a.link.ready
  sent : b.channel.sent = a.channel.sent
  dropped : b.link.droppedBytes = a.link.droppedBytes

theorem Uncounted.accrued (h : Uncounted a b) : Accrued [] 0 0 0 a b :=
  ⟨nofun, h.layout, h.nextMessage, h.sent.trans (List.append_nil _).symm,
    fun hcounts => hcounts.congr h.traffic h.ready h.sent, h.dropped⟩

theorem Uncounted.refl (a : Attached (Traced σ)) : Uncounted a a := ⟨rfl, rfl, rfl, rfl, rfl, rfl⟩

/-- Only answers were written, and what is outbound stays so. -/
def Accrues (a b : Attached (Traced σ)) : Prop :=
  ∃ fs, Accrued fs 0 0 0 a b ∧ b.link.outbound = a.link.outbound

theorem Uncounted.accrues (h : Uncounted a b) (hout : b.link.outbound = a.link.outbound) :
    Accrues a b := ⟨[], h.accrued, hout⟩

theorem Accrues.refl (a : Attached (Traced σ)) : Accrues a a := (Uncounted.refl a).accrues rfl

theorem Accrues.trans (h : Accrues a b) (h' : Accrues b c) : Accrues a c := by
  obtain ⟨fs, hfs, hout⟩ := h
  obtain ⟨gs, hgs, hout'⟩ := h'
  exact ⟨fs ++ gs, hfs.trans hgs, hout'.trans hout⟩

variable [Channel σ]

theorem transmit_cases (f : Fragment) (a : Attached (Traced σ)) :
    (∃ b, transmit f a = .ok () b ∧ b.channel.sent = a.channel.sent ++ [f.wire a.link.layout] ∧
        b.link =
          { a.link with traffic := a.link.traffic.fragmentSent (f.wire a.link.layout).length }) ∨
      ∃ e b, transmit f a = .error (.error (.io e)) b ∧ b.channel.sent = a.channel.sent ∧
        b.link = a.link ∧
        b.channel.calls.getLast? = some (.write (f.wire a.link.layout) (some e)) := by
  have hcalls : (Channel.write (f.wire a.link.layout) a.channel).2.calls = a.channel.calls ++
      [.write (f.wire a.link.layout)
        (ChannelCall.failure (Channel.write (f.wire a.link.layout) a.channel).1)] := rfl
  rw [transmit]
  dsimp only
  generalize Channel.write (f.wire a.link.layout) a.channel = r at hcalls
  obtain ⟨_ | ⟨⟩, t⟩ := r
  · refine .inr ⟨_, _, rfl, ?_, rfl, ?_⟩
    · exact (Traced.sent_append hcalls).trans (List.append_nil _)
    · show t.calls.getLast? = _
      rw [hcalls]
      exact List.getLast?_concat
  · exact .inl ⟨_, rfl, Traced.sent_append hcalls, rfl⟩

/-- a flush writes nothing, and it is not counted whether it succeeds -/
theorem flush_cases (a : Attached (Traced σ)) :
    ((flush a).after.channel.sent = a.channel.sent ∧ (flush a).after.link = a.link) ∧
      (flush a).Meets (fun _ _ => True) fun e _ => ∃ io, e = .error (.io io) := by
  have hcalls : (Channel.flush a.channel).2.calls = a.channel.calls ++
      [.flush (ChannelCall.failure (Channel.flush a.channel).1)] := rfl
  rw [flush]
  generalize Channel.flush a.channel = r at hcalls
  have hsent : r.2.sent = a.channel.sent :=
    (Traced.sent_append hcalls).trans (List.append_nil _)
  obtain ⟨e | ⟨⟩, t⟩ := r
  · exact ⟨⟨hsent, rfl⟩, e, rfl⟩
  · exact ⟨⟨hsent, rfl⟩, trivial⟩

omit [Channel σ] in
/-- a write of one fragment that succeeded is counted -/
theorem Counts.sent (h : Counts heard arrived whole taken a) {wire : Bytes}
    (hsent : b.channel.sent = a.channel.sent ++ [wire])
    (hlink : b.link = { a.link with traffic := a.link.traffic.fragmentSent wire.length }) :
    Counts heard arrived whole taken b := by
  rw [Counts, hsent, List.length_append, List.flatten_append, List.length_append, hlink]
  rw [Counts] at h
  dsimp only
  rw [h, Traffic.fragmentSent]
  dsimp only
  rw [Tally.of_add, Tally.of_add, List.flatten_singleton]
  rfl

omit [Channel σ] in
/-- a bundle that was written as a whole is counted -/
theorem Counts.bundle (h : Counts heard arrived whole taken a)
    (htraffic : b.link.traffic = a.link.traffic.bundleSent)
    (hready : b.link.ready = a.link.ready) (hsent : b.channel.sent = a.channel.sent) :
    Counts heard arrived (whole + 1) taken b := by
  rw [Counts] at h ⊢
  rw [htraffic, h, Traffic.bundleSent, hready, hsent]
  dsimp only
  rw [Tally.of_add]

theorem flush_accrues (a : Attached (Traced σ)) : Accrues a (flush a).after := by
  obtain ⟨⟨hsent, hlink⟩, -⟩ := flush_cases a
  refine Uncounted.accrues ⟨?_, ?_, ?_, ?_, hsent, ?_⟩ ?_ <;> rw [hlink]

theorem answer_accrues {f : Fragment} (hf : f.IsAnswer) (a : Attached (Traced σ)) :
    Accrues a (answer f a).after := by
  rw [answer]
  rcases transmit_cases f a with ⟨b, hb, hsent, hlink⟩ | ⟨e, b, hb, hsent, hlink, -⟩
  · have hone : Accrued [f] 0 0 0 a b :=
      ⟨fun g hg => List.mem_singleton.mp hg ▸ hf, by rw [hlink], by rw [hlink], hsent,
        fun hcounts => hcounts.sent hsent hlink, by rw [hlink]; rfl⟩
    rw [hb]
    exact Accrues.trans ⟨[f], hone, by rw [hlink]⟩ (flush_accrues b)
  · rw [hb]
    refine Uncounted.accrues ⟨?_, ?_, ?_, ?_, hsent, ?_⟩ ?_ <;>
      exact congrArg _ hlink

/-! ## one fragment -/

theorem reject_accrues (k : Key) (why : Rejection) (a : Attached (Traced σ)) :
    Accrues a (reject k why a).after := by
  have herased : Accrues a ((a.warn (.rejected k why)).eraseInbound k) :=
    Uncounted.accrues ⟨rfl, rfl, rfl, rfl, rfl, Link.droppedBytes_warn a.link _⟩ rfl
  rw [reject]
  split
  · exact herased.trans (answer_accrues ⟨k, .inr rfl⟩ _)
  · exact herased

omit [Channel σ] in
theorem accrued_deliver (k : Key) (asm : Assembly) (bundle : Bytes) (a : Attached (Traced σ)) :
    Accrued [] 0 0 0 a ((a.putInbound k asm).deliver bundle) := by
  refine ⟨nofun, rfl, rfl, (List.append_nil _).symm, fun hcounts => ?_, rfl⟩
  show a.link.traffic.bundleReceived = _
  rw [Counts] at hcounts
  rw [hcounts, Traffic.bundleReceived, Tally.of_add, Nat.add_assoc]
  show _ = Traffic.mk _ _ _ _ _ (.of (_ + (a.link.ready ++ [bundle]).length))
  rw [List.length_append]
  rfl

theorem finish_accrues (k : Key) (asm : Assembly) (a : Attached (Traced σ)) :
    Accrues a (finish k asm a).after := by
  rw [finish]
  dsimp only
  split
  · exact .refl a
  · exact reject_accrues k _ a
  · generalize hb : a.putInbound k _ = b
    have hput : Accrues a b := by
      rw [← hb]
      exact Uncounted.accrues ⟨rfl, rfl, rfl, rfl, rfl, rfl⟩ rfl
    have hanswered := hput.trans (answer_accrues ⟨k, .inl rfl⟩ b)
    generalize answer (.ack k) b = r at hanswered
    cases r with
    | error e c => exact hanswered
    | ok _ c => exact hanswered.trans ⟨[], accrued_deliver k _ _ c, rfl⟩

theorem assemble_accrues (k : Key) (f : Fragment) (now : Moment) (asm : Assembly)
    (a : Attached (Traced σ)) : Accrues a (assemble k f now asm a).after := by
  have hput (asm : Assembly) : Accrues a (a.putInbound k asm) :=
    Uncounted.accrues ⟨rfl, rfl, rfl, rfl, rfl, rfl⟩ rfl
  rw [assemble]
  split
  · exact hput _
  · exact reject_accrues k _ a
  · split
    · exact .refl a
    · dsimp only
      split
      · exact finish_accrues k _ a
      · exact hput _

theorem handleBundle_accrues (f : Fragment) (now : Moment) (a : Attached (Traced σ)) :
    Accrues a (handleBundle f now a).after := by
  rw [handleBundle]
  split
  · exact Uncounted.accrues ⟨rfl, rfl, rfl, rfl, rfl, Link.droppedBytes_warn a.link _⟩ rfl
  · split
    · exact .refl a
    · split
      · split
        · split
          · exact answer_accrues ⟨f.key, .inl rfl⟩ a
          · exact .refl a
        · have herased : Accrues a (a.eraseInbound f.key) :=
            Uncounted.accrues ⟨rfl, rfl, rfl, rfl, rfl, rfl⟩ rfl
          exact herased.trans (assemble_accrues f.key f now _ _)
      · split
        · exact .refl a
        · exact assemble_accrues _ f now _ a

/-- Whatever the fragment is, and however its handling ends, only answers are written, and only an
acknowledged bundle is not outbound any more. -/
theorem handle_accrues (f : Fragment) (now : Moment) (a : Attached (Traced σ)) :
    ∃ fs, Accrued fs 0 0 0 a (handle f now a).after ∧
      (handle f now a).after.link.outbound =
        if (Happening.handled ⟨f, now, a⟩).acknowledges then a.link.outbound.erase f.key
        else a.link.outbound := by
  rw [handle, Happening.acknowledges]
  dsimp only
  cases hcontrol : f.isControl with
  | false => exact handleBundle_accrues f now a
  | true =>
    rw [if_pos rfl, handleControl]
    dsimp only
    split
    · rename_i hnak
      have hlength : (f.length == Fragment.ackLength) = false :=
        beq_false_of_ne fun heq => Int16.lt_irrefl (heq ▸ hnak)
      rw [hlength]
      exact Uncounted.accrues ⟨rfl, rfl, rfl, rfl, rfl, Link.droppedBytes_warn a.link _⟩ rfl
    · rename_i hack
      have hlength : (f.length == Fragment.ackLength) = true := by
        rw [Fragment.isControl, Bool.and_eq_true, decide_eq_true_eq] at hcontrol
        exact beq_iff_eq.mpr (Int16.le_antisymm hcontrol.2 (Int16.not_lt.mp hack))
      rw [hlength]
      cases a.link.outbound.get? f.key with
      | none => exact Uncounted.accrues ⟨rfl, rfl, rfl, rfl, rfl, rfl⟩ rfl
      | some parts =>
        obtain ⟨fs, hanswered, hout⟩ := answer_accrues ⟨f.key, .inl rfl⟩
          { a with link := { a.link with outbound := a.link.outbound.erase f.key } }
        have herased : Uncounted a
            { a with link := { a.link with outbound := a.link.outbound.erase f.key } } :=
          ⟨rfl, rfl, rfl, rfl, rfl, rfl⟩
        exact ⟨fs, herased.accrued.trans hanswered, hout⟩

/-! ## one receive -/

omit [Channel σ] in
theorem accrued_arrived (now : Moment) (a : Attached (Traced σ)) :
    Accrued [] 0 1 0 a (a.arrived now) := by
  refine ⟨nofun, rfl, rfl, (List.append_nil _).symm, fun hcounts => ?_, rfl⟩
  show a.link.traffic.fragmentReceived = _
  rw [Counts] at hcounts
  rw [hcounts, Traffic.fragmentReceived, Tally.of_add]
  rfl

/-- The fragments among the pieces are handled and the others dropped, up to the first failure. If
there is none, this makes up all pieces. -/
theorem handleAll_accrued (now : Moment) (ps : List Wire.Piece) (offset count : Nat)
    (a : Attached (Traced σ))
    (hsizes : ∀ f n, .fragment f n ∈ ps → n = f.wireLength a.link.layout) :
    ∃ fs dropped, Accrued fs 0 (notes now offset ps a).length dropped a
        (handleAll now count ps a).after ∧
      ∀ n b, handleAll now count ps a = .ok n b →
        dropped + (Fragment.wires a.link.layout ((notes now offset ps a).map (·.fragment))).length =
          Wire.consumed ps := by
  induction ps generalizing offset count a with
  | nil => exact ⟨[], 0, (Uncounted.refl a).accrued, fun _ _ _ => rfl⟩
  | cons p ps ih =>
    have hlater {l : Layout} (hl : l = a.link.layout) (f : Fragment) (n : Nat)
        (hmem : .fragment f n ∈ ps) : n = f.wireLength l :=
      hl ▸ hsizes f n (List.mem_cons_of_mem _ hmem)
    cases p with
    | skipped size flaw =>
      have hdropped : Accrued [] 0 0 size a
          (a.warn (.dropped size a.link.description flaw)) :=
        ⟨nofun, rfl, rfl, (List.append_nil _).symm,
          fun hcounts => hcounts.congr (b := a.warn _) rfl rfl rfl,
          Link.droppedBytes_warn a.link _⟩
      obtain ⟨fs, dropped, haccrued, hmade⟩ :=
        ih (offset + size) count (a.warn (.dropped size a.link.description flaw)) (hlater rfl)
      have hall := hdropped.trans haccrued
      rw [Nat.zero_add, Nat.zero_add] at hall
      refine ⟨fs, size + dropped, hall, fun n b hb => ?_⟩
      rw [Nat.add_assoc]
      exact congrArg (size + ·) (hmade n b hb)
    | fragment f size =>
      obtain ⟨fs, haccrued, -⟩ := handle_accrues f now (a.arrived now)
      have hone : Accrued fs 0 1 0 a (handle f now (a.arrived now)).after :=
        (accrued_arrived now a).trans haccrued
      have hsize : size = f.wireLength a.link.layout := hsizes f size List.mem_cons_self
      rw [handleAll, notes]
      generalize handle f now (a.arrived now) = r at hone
      cases r with
      | error e b => exact ⟨fs, 0, hone, fun n c hc => by cases hc⟩
      | ok _ b =>
        obtain ⟨gs, dropped, hrest, hmade⟩ := ih (offset + size) (count + 1) b (hlater hone.layout)
        have hall := hone.trans hrest
        rw [Nat.zero_add, Nat.zero_add, Nat.add_comm 1] at hall
        dsimp only
        refine ⟨fs ++ gs, dropped, by rw [List.length_cons]; exact hall, fun n c hc => ?_⟩
        have hrest := hmade n c hc
        rw [show b.link.layout = a.link.layout from hone.layout] at hrest
        rw [Wire.consumed_cons, ← hrest, List.map_cons, Fragment.wires_cons, List.length_append,
          show (a.note now offset f).fragment = f from rfl, Fragment.length_wire]
        show _ = size + _
        omega

/-- Of what is outbound, the acknowledged bundles go, and no others. -/
theorem handleAll_outbound (now : Moment) (ps : List Wire.Piece) (count : Nat)
    (a : Attached (Traced σ)) {n : Nat} {b : Attached (Traced σ)}
    (h : handleAll now count ps a = .ok n b) :
    b.link.outbound.size + (handlings now ps a).countP Happening.acknowledges =
        a.link.outbound.size ∧
      ∀ k parts, b.link.outbound.get? k = some parts → a.link.outbound.get? k = some parts := by
  induction ps generalizing count a with
  | nil =>
    cases h
    exact ⟨rfl, fun _ _ hk => hk⟩
  | cons p ps ih =>
    cases p with
    | skipped size flaw => exact ih count (a.warn _) h
    | fragment f size =>
      obtain ⟨-, -, hout⟩ := handle_accrues f now (a.arrived now)
      rw [handleAll] at h
      rw [handlings_fragment, List.countP_cons]
      generalize handle f now (a.arrived now) = r at h hout
      cases r with
      | error e c => cases h
      | ok _ c =>
        obtain ⟨hsize, hkeys⟩ := ih (count + 1) c h
        replace hout : c.link.outbound = _ := hout
        dsimp only
        cases hack : (Happening.handled ⟨f, now, a.arrived now⟩).acknowledges with
        | false =>
          rw [hack] at hout
          rw [hout] at hsize hkeys
          exact ⟨hsize, hkeys⟩
        | true =>
          rw [hack, if_pos rfl] at hout
          rw [hout] at hsize hkeys
          rw [Happening.acknowledges, Bool.and_eq_true] at hack
          obtain ⟨parts, hparts⟩ := Option.isSome_iff_exists.mp hack.2
          have hless : (a.link.outbound.erase f.key).size + 1 = a.link.outbound.size :=
            Table.size_erase hparts
          refine ⟨?_, fun k gs hk => ?_⟩
          · rw [if_pos rfl, ← hless, ← Nat.add_assoc]
            exact congrArg (· + 1) hsize
          · have hold := hkeys k gs hk
            rw [Table.get?_erase] at hold
            split at hold
            · cases hold
            · exact hold

theorem sent_fill (chunk room : Nat) (acc : List Bytes) (t : Traced σ) :
    (fill chunk room acc t).channel.sent = t.sent := by
  rw [Traced.sent, calls_fill]
  rfl

/-- the reads of a receive -/
theorem accrued_filled (a : Attached (Traced σ)) :
    Accrued [] a.input.length 0 0 a a.filled := by
  have hsent : a.filled.channel.sent = a.channel.sent := sent_fill _ _ _ _
  refine ⟨nofun, rfl, rfl, hsent.trans (List.append_nil _).symm, fun hcounts => ?_, rfl⟩
  rw [Counts, hsent]
  show a.link.traffic.bytesArrived a.input.length = _
  rw [Counts] at hcounts
  rw [hcounts, Traffic.bytesArrived, Tally.of_add]
  rfl

/-- handling fragments does not look at what is still raw -/
theorem lasting_raw (raw : Bytes) : Lasting fun a : Attached (Traced σ) => a.link.raw = raw := by
  have hanswer (f : Fragment) (a : Attached (Traced σ)) :
      (answer f a).after.link.raw = a.link.raw := by
    have hcounted := answer_counted f a
    generalize answer f a = r at hcounted
    obtain ⟨traffic, hlink⟩ : Counted a r.after := by
      cases r with
      | ok _ b => exact hcounted
      | error e b => exact hcounted.1
    rw [hlink]
  refine ⟨fun h hidle => hidle.raw.trans h, fun h f => (hanswer f _).trans h, ?_⟩
  intro a b c h k hok hidle bundle
  have hraw := hanswer (.ack k) a
  rw [hok] at hraw
  exact hidle.raw.trans (Eq.trans hraw h)

omit [Channel σ] in
/-- bundles that are dropped count as no bytes -/
theorem droppedBytes_purge (now : Moment) (a : Attached (Traced σ)) :
    (a.purge now).link.droppedBytes = a.link.droppedBytes := by
  show (_ ++ a.link.log).foldr _ 0 = _
  rw [List.foldr_append]
  refine Warning.foldr_droppedBytes (fun w hw => ?_) _
  obtain ⟨⟨k, asm⟩, -, he⟩ := List.mem_filterMap.mp hw
  split at he
  · rw [overdueWarning] at he
    split at he <;> cases he
    rfl
  · cases he

omit [Channel σ] in
theorem checkTimeout_uncounted (now : Moment) (a : Attached (Traced σ)) :
    Uncounted a (checkTimeout now a).after := by
  rw [checkTimeout]
  split
  · exact .refl a
  · split
    · exact .refl a
    · split
      · exact .refl a
      · dsimp only
        split <;> exact ⟨rfl, rfl, rfl, rfl, rfl, rfl⟩

omit [Channel σ] in
theorem conclude_uncounted (now : Moment) (ended : Bool) (count : Nat)
    (a : Attached (Traced σ)) : Uncounted a (conclude now ended count a).after := by
  have hpurged : Uncounted a (a.purge now) :=
    ⟨rfl, rfl, rfl, rfl, rfl, droppedBytes_purge now a⟩
  rw [conclude]
  dsimp only
  split
  · exact hpurged
  · split
    · exact ⟨rfl, rfl, rfl, rfl, rfl, hpurged.dropped⟩
    · split
      · have hchecked := checkTimeout_uncounted now (a.purge now)
        exact ⟨hchecked.layout, hchecked.nextMessage, hchecked.traffic, hchecked.ready,
          hchecked.sent, hchecked.dropped.trans hpurged.dropped⟩
      · exact hpurged

theorem Uncounted.close (a : Attached (Traced σ)) : Uncounted a a.close := by
  rw [Attached.close]
  split
  · exact ⟨rfl, rfl, rfl, rfl, rfl, rfl⟩
  · exact .refl a

/-- closing a link calls nothing that is recorded -/
theorem calls_settle (r : Outcome (Traced σ) Unit) :
    (Attached.settle r).after.channel.calls = r.after.channel.calls :=
  (recorded_settle (.silent rfl rfl rfl)).1.calls.trans (List.append_nil _)

theorem Uncounted.settle (r : Outcome (Traced σ) Unit) :
    Uncounted r.after (Attached.settle r).after := by
  rcases r with ⟨_, b⟩ | ⟨e | e, b⟩
  · exact .refl b
  · rw [Attached.settle]
    split
    · have hclosed := Uncounted.close (b.warn (.closing b.link.id b.link.description e))
      exact ⟨hclosed.layout, hclosed.nextMessage, hclosed.traffic, hclosed.ready, hclosed.sent,
        hclosed.dropped.trans (Link.droppedBytes_warn b.link _)⟩
    · exact .refl b
  · exact .refl b

/-- In a receive all bytes read and all fragments handled are counted, and if it succeeds, then what
was read is still raw, or was handled, or dropped. -/
theorem receiveBundles_accrued (c : Chronicle) (now : Moment) (a : Attached (Traced σ)) :
    ∃ fs arrived dropped,
      Accrued fs a.input.length arrived.length dropped a (receiveBundles now a).after ∧
        (c.receive now a).notes = c.notes ++ arrived ∧
        ∀ b, receiveBundles now a = .ok () b →
          b.link.raw.length + (Fragment.wires a.link.layout (arrived.map (·.fragment))).length +
            dropped = a.link.raw.length + a.input.length := by
  have hread := accrued_filled a
  cases hended : a.intake.ended with
  | error e =>
    rw [receiveBundles_failed hended, Chronicle.notes_failed hended]
    exact ⟨[], [], 0, hread, (List.append_nil _).symm, nofun⟩
  | ok ended =>
    have hloaded : Accrued [] a.input.length 0 0 a a.loaded :=
      ⟨hread.answers, hread.layout, hread.nextMessage, hread.sent,
        fun hcounts => (hread.counts hcounts).congr (b := a.loaded) rfl rfl rfl, hread.dropped⟩
    obtain ⟨fs, dropped, hhandled, hmade⟩ := handleAll_accrued now a.pieces
      (c.heard.length - a.link.raw.length) 0 a.loaded fun f n hmem => Wire.size_of_mem_scan hmem
    have hall := hloaded.trans hhandled
    rw [Nat.add_zero, Nat.zero_add, Nat.zero_add, List.nil_append] at hall
    refine ⟨fs, _, dropped, ?_, Chronicle.notes_ok hended, ?_⟩
    · cases hr : handleAll now 0 a.pieces a.loaded with
      | error e b =>
        rw [hr] at hall
        rw [receiveBundles_broken hended hr]
        exact hall
      | ok count b =>
        rw [hr] at hall
        rw [receiveBundles_handled hended hr]
        have hdone := hall.trans (conclude_uncounted now ended count b).accrued
        rw [List.append_nil] at hdone
        exact hdone
    · intro b hb
      obtain ⟨d, hstages⟩ := stages_of_ok hb
      obtain ⟨count, hd⟩ := hstages.handled
      have hraw : b.link.raw = a.loaded.link.raw := by
        have hcontinued := (lasting_raw a.loaded.link.raw).handleAll rfl now a.pieces 0
        rw [hd] at hcontinued
        exact hstages.purged.raw.trans hcontinued
      have hcount := Wire.consumed_scan a.filled.link.layout a.filled.link.raw
      have hmade := hmade count d hd
      have hlength : a.filled.link.raw.length = a.link.raw.length + a.input.length :=
        List.length_append
      rw [hraw]
      show (Wire.scan a.filled.link.layout a.filled.link.raw).2.length + _ + _ = _
      rw [← hlength, ← hcount, Nat.add_assoc, Nat.add_comm, Nat.add_comm _ dropped]
      exact congrArg (· + _) hmade

/-! ## one write -/

/-- From `a` to `b` the fragments `fs` were written and counted, and nothing else changed. -/
structure Transmitted (fs : List Fragment) (a b : Attached (Traced σ)) : Prop where
  counted : Counted a b
  sent : b.channel.sent = a.channel.sent ++ fs.map (Fragment.wire a.link.layout)
  counts : ∀ {bytes fragments whole taken}, Counts bytes fragments whole taken a →
    Counts bytes fragments whole taken b

/-- all fragments are written, or those in front of one that is not -/
theorem transmitAll_cases (fs : List Fragment) (a : Attached (Traced σ)) :
    (∃ b, transmitAll fs a = .ok () b ∧ Transmitted fs a b) ∨
      ∃ done f rest e b, fs = done ++ f :: rest ∧
        transmitAll fs a = .error (.error (.io e)) b ∧ Transmitted done a b ∧
        b.channel.calls.getLast? = some (.write (f.wire a.link.layout) (some e)) := by
  have hnone {a b : Attached (Traced σ)} (hsent : b.channel.sent = a.channel.sent)
      (hlink : b.link = a.link) : Transmitted [] a b :=
    ⟨⟨a.link.traffic, hlink⟩, hsent.trans (List.append_nil _).symm, fun hcounts =>
      hcounts.congr (by rw [hlink]) (by rw [hlink]) hsent⟩
  induction fs generalizing a with
  | nil => exact .inl ⟨a, rfl, hnone rfl rfl⟩
  | cons f fs ih =>
    rw [transmitAll]
    rcases transmit_cases f a with ⟨b, hb, hsent, hlink⟩ | ⟨e, b, hb, hsent, hlink, hfailed⟩
    · have hone : Counted a b := ⟨_, hlink⟩
      have hmore {gs : List Fragment} {c : Attached (Traced σ)} (hc : Transmitted gs b c) :
          Transmitted (f :: gs) a c := by
        refine ⟨hone.trans hc.counted, ?_, fun hcounts => hc.counts (hcounts.sent hsent hlink)⟩
        rw [hc.sent, hsent, layout_of_core hone.core, List.append_assoc]
        rfl
      rw [hb]
      rcases ih b with ⟨c, hc, hall⟩ | ⟨done, g, rest, e, c, rfl, hc, hdone, hfailed⟩
      · exact .inl ⟨c, hc, hmore hall⟩
      · rw [layout_of_core hone.core] at hfailed
        exact .inr ⟨f :: done, g, rest, e, c, rfl, hc, hmore hdone, hfailed⟩
    · rw [hb]
      exact .inr ⟨[], f, fs, e, b, rfl, rfl, hnone hsent hlink, hfailed⟩

/-- How a write ends: before anything was written, at a fragment that could not be written, or when
all were. -/
inductive WriteCount (buffer : Bytes) (now : Moment) (a : Attached (Traced σ)) :
    Outcome (Traced σ) Unit → Prop
  | refused (e : Failure LinkError) (mild : (∃ f, e = .fault f) ∨ ∃ b, e = .error (.bundle b)) :
      WriteCount buffer now a (.error e a)
  | cut (parts done : List Fragment) (f : Fragment) (rest : List Fragment) (e : IoError)
      (b : Attached (Traced σ))
      (split : Bundle.split a.link.layout a.link.fragmentSize a.nextKey buffer = .ok parts)
      (room : a.link.nextMessage ≠ Link.lastMessage) (parts_eq : parts = done ++ f :: rest)
      (transmitted : Transmitted done a.numbered b)
      (failed : b.channel.calls.getLast? = some (.write (f.wire a.link.layout) (some e))) :
      WriteCount buffer now a (.error (.error (.io e)) b)
  | whole (parts : List Fragment) (b : Attached (Traced σ)) (r : Outcome (Traced σ) Unit)
      (split : Bundle.split a.link.layout a.link.fragmentSize a.nextKey buffer = .ok parts)
      (room : a.link.nextMessage ≠ Link.lastMessage) (transmitted : Transmitted parts a.numbered b)
      (link : r.after.link = (recordSent a.nextKey parts now b).link)
      (sent : r.after.channel.sent = b.channel.sent)
      (breaks : r.Meets (fun _ _ => True) fun e _ => ∃ io, e = .error (.io io)) :
      WriteCount buffer now a r

theorem writeBundle_count (buffer : Bytes) (flushNow : Bool) (now : Moment)
    (a : Attached (Traced σ)) : WriteCount buffer now a (writeBundle buffer flushNow now a) := by
  rw [writeBundle]
  dsimp only
  split
  · rename_i e hsplit
    cases e with
    | fault f => exact .refused _ (.inl ⟨f, rfl⟩)
    | error e => exact .refused _ (.inr ⟨e, rfl⟩)
  · rename_i parts hsplit
    split
    · exact .refused _ (.inl ⟨_, rfl⟩)
    · rename_i hroom
      rcases transmitAll_cases parts a.numbered with
        ⟨b, hb, hall⟩ | ⟨done, f, rest, e, b, hparts, hb, hdone, hfailed⟩
      · rw [numbered] at hb
        rw [hb]
        dsimp only
        split
        · obtain ⟨⟨hsent, hlink⟩, hbreaks⟩ := flush_cases (recordSent a.nextKey parts now b)
          exact .whole parts b _ hsplit hroom hall hlink hsent hbreaks
        · exact .whole parts b _ hsplit hroom hall rfl rfl trivial
      · rw [numbered] at hb
        rw [hb]
        exact .cut parts done f rest e b hsplit hroom hparts hdone hfailed

end Attached

end BundleLink
