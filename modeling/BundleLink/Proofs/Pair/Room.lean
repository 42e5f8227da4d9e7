import BundleLink.Proofs.Pair.Emissions
import BundleLink.Proofs.Pair.Order

/-!
# Room for every fragment

If no fragment that a side writes is longer than the raw bytes of its peer may get, then a receive
that succeeds never leaves so many raw bytes that the next one would not read, however time goes by
and whoever closes.

* `Fitting`          fragments for which there is room;
* `Attached.Admits`  a link that has room for all that is on its way to it;
* `Pair.Roomy`       both sides, as long as they are at work;
* `Roomy.settled`    one side writes fragments for which its peer has room;
* `Roomy.step`, `Roomy.run`  events and runs, as long as nobody changes the form of the fragments.
-/

namespace BundleLink

/-- fragments that are no longer than `limit` in their wire form -/
def Fitting (layout : Layout) (limit : Nat) (fs : List Fragment) : Prop :=
  ∀ f ∈ fs, f.Fits layout ∧ f.wireLength layout ≤ limit

theorem Fitting.nil (layout : Layout) (limit : Nat) : Fitting layout limit [] :=
  fun _ hf => nomatch hf

theorem Fitting.append {layout : Layout} {limit : Nat} {fs gs : List Fragment}
    (h : Fitting layout limit fs) (h' : Fitting layout limit gs) :
    Fitting layout limit (fs ++ gs) := by
  intro f hf
  rcases List.mem_append.mp hf with hf | hf
  · exact h f hf
  · exact h' f hf

theorem Fitting.answers {layout : Layout} {limit : Nat} {fs : List Fragment}
    (hlimit : layout.headerLength ≤ limit) (hfs : ∀ f ∈ fs, f.IsAnswer) :
    Fitting layout limit fs := by
  intro f hf
  refine ⟨(hfs f hf).fits layout, ?_⟩
  rw [Fragment.wireLength, (hfs f hf).bytes]
  exact hlimit

theorem Fitting.split {layout : Layout} {limit size : Nat} {k : Key} {buffer : Bytes}
    {fs : List Fragment} (hlimit : size + layout.headerLength ≤ limit)
    (h : Bundle.split layout size k buffer = .ok fs) : Fitting layout limit fs := by
  intro f hf
  exact ⟨Message.Intact.fits (m := .bundle k buffer fs) (.of_split h) f hf,
    Nat.le_trans (Bundle.wireLength_le_of_split h f hf) hlimit⟩

/-! ## one side -/

/-- The link uses the layout, writes fragments of the size at most, and has room for the fragments
on their way to it. -/
structure Attached.Admits (layout : Layout) (size : Nat) (settings : Settings) (a : Attached End) :
    Prop where
  sameLayout : a.link.layout = layout
  sameSize : a.link.fragmentSize = size
  sameSettings : a.link.settings = settings
  raw : a.link.raw.length < settings.rawLimit
  stream : ∃ fs, Fitting layout settings.rawLimit fs ∧ a.stream = Fragment.wires layout fs

theorem Attached.Admits.congr {layout : Layout} {size : Nat} {settings : Settings}
    {a b : Attached End} (h : a.Admits layout size settings)
    (hlayout : b.link.layout = a.link.layout) (hsize : b.link.fragmentSize = a.link.fragmentSize)
    (hsettings : b.link.settings = a.link.settings) (hraw : b.link.raw = a.link.raw)
    (hincoming : Medium.incoming b.channel = Medium.incoming a.channel) :
    b.Admits layout size settings := by
  refine ⟨hlayout.trans h.sameLayout, hsize.trans h.sameSize, hsettings.trans h.sameSettings,
    ?_, ?_⟩
  · rw [hraw]
    exact h.raw
  · rw [Attached.stream, hraw, hincoming]
    exact h.stream

namespace Pair

/-! ## both sides -/

/-- What holds between two operations. -/
def Roomy (layout : Layout) (size : Nat) (settings : Side → Settings) (p : Pair) : Prop :=
  ∀ s, (p.party s).Active → (p.attached s).Admits layout size (settings s)

/-- An event leaves room for everything, and what it makes the sides write finds room. -/
structure Passes (layout : Layout) (size : Nat) (settings : Side → Settings) (p : Pair)
    (e : Event) : Prop where
  roomy : Roomy layout size settings (p.step e)
  room : ∀ s, ∀ w ∈ p.emitted s e, w.length ≤ (settings s.opposite).rawLimit

/-- neither the layout nor a fragment size changes -/
def Event.keepsForm : Event → Bool
  | .switchLayout _ | .act _ (.setFragmentSize _) => false
  | _ => true

variable {layout : Layout} {size : Nat} {settings : Side → Settings} {p : Pair} {s : Side}
  {x : Party} {b : Attached End} {op : Operation} {sent : List Fragment}

/-- One side came to `b`, and on its way wrote fragments for which its peer has room. -/
theorem Roomy.put (h : Roomy layout size settings p)
    (hact : p.act s op = p.put s x b.channel.duplex) (hx : x.link = b.link)
    (hdesc : Medium.description b.channel = Medium.description (p.attached s).channel)
    (hout : Medium.outgoing b.channel =
      Medium.outgoing (p.attached s).channel ++ sent.map (Fragment.wire layout))
    (hsent : Fitting layout (settings s.opposite).rawLimit sent)
    (hb : x.Active → b.Admits layout size (settings s)) :
    Passes layout size settings p (.act s op) := by
  have hattached : (p.act s op).attached s = b := by
    rw [hact, attached_put hx hdesc]
  constructor
  · intro u hu
    show ((p.act s op).attached u).Admits layout size (settings u)
    replace hu : ((p.act s op).party u).Active := hu
    rcases Side.eq_or_opposite s u with rfl | rfl
    · rw [hattached]
      rw [hact, party_put] at hu
      exact hb hu
    · rw [hact, party_put_opposite] at hu
      obtain ⟨hlayout, hsize, hsettings, hraw, fs, hfs, hstream⟩ := h s.opposite hu
      have hlink : ((p.put s x b.channel.duplex).attached s.opposite).link =
          (p.attached s.opposite).link := congrArg Party.link (party_put_opposite p s x _)
      rw [hact]
      refine ⟨?_, ?_, ?_, ?_, fs ++ sent, hfs.append hsent, ?_⟩
      · rw [hlink, hlayout]
      · rw [hlink, hsize]
      · rw [hlink, hsettings]
      · rw [hlink]
        exact hraw
      · rw [stream_put_opposite hdesc hout, hstream, Fragment.wires_append]
  · intro u w hw
    rcases Side.eq_or_opposite s u with rfl | rfl
    · rw [emitted_put hact hx hdesc hout] at hw
      obtain ⟨f, hf, rfl⟩ := List.mem_map.mp hw
      rw [Fragment.length_wire]
      exact (hsent f hf).2
    · rw [emitted_opposite] at hw
      cases hw

/-- an operation on the channel that wrote fragments for which the peer has room -/
theorem Roomy.settled (h : Roomy layout size settings p) {buffers : List Bytes}
    {r : Outcome End Unit} (hact : p.act s op = p.settle s buffers r)
    (hdesc : Medium.description r.after.channel = Medium.description (p.attached s).channel)
    (hout : Medium.outgoing r.after.channel =
      Medium.outgoing (p.attached s).channel ++ sent.map (Fragment.wire layout))
    (hsent : Fitting layout (settings s.opposite).rawLimit sent)
    (hb : r.after.link.connected = true → (∀ f a, r ≠ .error (.fault f) a) →
      r.after.Admits layout size (settings s)) : Passes layout size settings p (.act s op) := by
  rcases r with ⟨_, b⟩ | ⟨_ | f, b⟩
  · exact h.put hact rfl hdesc hout hsent fun hx => hb hx.1 fun _ _ he => nomatch he
  · exact h.put hact rfl hdesc hout hsent fun hx => hb hx.1 fun _ _ he => nomatch he
  · exact h.put hact rfl hdesc hout hsent fun hx => nomatch hx.2

/-- an operation that leaves the channel alone -/
theorem Roomy.alone (h : Roomy layout size settings p) (hact : p.act s op = p.put s x p.duplex)
    (hx : x.Active → (p.party s).Active ∧ x.link.layout = (p.party s).link.layout ∧
      x.link.fragmentSize = (p.party s).link.fragmentSize ∧
      x.link.settings = (p.party s).link.settings ∧ x.link.raw = (p.party s).link.raw) :
    Passes layout size settings p (.act s op) := by
  refine h.put (b := ⟨x.link, (p.attached s).channel⟩) hact rfl rfl ?_ (.nil layout _)
    fun hactive => ?_
  · exact (List.append_nil _).symm
  · obtain ⟨hbefore, hlayout, hsize, hsettings, hraw⟩ := hx hactive
    exact (h s hbefore).congr hlayout hsize hsettings hraw rfl

theorem Roomy.idle (h : Roomy layout size settings p) (hact : p.act s op = p) :
    Passes layout size settings p (.act s op) :=
  h.alone (x := p.party s) (by rw [hact, put_self]) fun hx => ⟨hx, rfl, rfl, rfl, rfl⟩

/-- an operation that failed at once -/
theorem Roomy.refused (h : Roomy layout size settings p) {buffers : List Bytes}
    {e : Failure LinkError} (hact : p.act s op = p.settle s buffers (.error e (p.attached s)))
    (hhalted : (p.party s).halted = false) : Passes layout size settings p (.act s op) := by
  refine h.settled hact rfl ?_ (.nil layout _) fun hconnected _ => ?_
  · exact (List.append_nil _).symm
  · exact h s ⟨hconnected, hhalted⟩

/-- a read takes a bundle out of the queue -/
theorem Roomy.gets (h : Roomy layout size settings p)
    {r : Except LinkError (Option Bytes) × Link}
    (hact : p.act s op = p.put s ((p.party s).gets r) p.duplex)
    (hr : ∃ rest, r.2 = { (p.party s).link with ready := rest }) :
    Passes layout size settings p (.act s op) := by
  obtain ⟨rest, hrest⟩ := hr
  obtain ⟨hlink, hhalted⟩ := (p.party s).gets_eq r
  refine h.alone hact fun hx => ?_
  rw [Party.Active, hlink, hhalted, hrest] at hx
  rw [hlink, hrest]
  exact ⟨hx, rfl, rfl, rfl, rfl⟩

section
variable (hroom : ∀ s, size + layout.headerLength ≤ (settings s).rawLimit)
include hroom

theorem Roomy.receive (h : Roomy layout size settings p) (s : Side) :
    Passes layout size settings p (.act s .receive) := by
  cases hhalted : (p.party s).halted with
  | true => exact h.idle (act_of_halted hhalted)
  | false =>
    have hact := act_receive hhalted
    cases hopen : (p.party s).link.connected with
    | false =>
      rw [Attached.receive_of_closed (a := p.attached s) hopen] at hact
      exact h.refused hact hhalted
    | true =>
      have hadmits := h s ⟨hopen, hhalted⟩
      obtain ⟨fs, hfs, hstream⟩ := hadmits.stream
      have hheader (u : Side) : layout.headerLength ≤ (settings u).rawLimit :=
        Nat.le_of_add_left_le (hroom u)
      have hheeds := Attached.receive_heeds hopen hadmits.sameLayout (fun f hf => (hfs f hf).1)
        hstream p.now
      generalize (p.attached s).receive p.now = r at hact hheeds
      cases r with
      | ok _ b =>
        obtain ⟨hterms, done, todo, sent, rfl, hrest, hshort, hsent, -⟩ := hheeds
        have hout := hsent.outgoing
        rw [hadmits.sameLayout] at hout
        refine h.settled hact hsent.description hout (.answers (hheader _) hsent.answers)
          fun _ _ => ?_
        have hsize := congrArg Link.fragmentSize hterms
        have htodo : Fitting layout (settings s).rawLimit todo :=
          fun f hf => hfs f (List.mem_append_right done hf)
        refine ⟨(Link.layout_of_terms hterms).trans hadmits.sameLayout,
          Eq.trans hsize hadmits.sameSize,
          (Link.settings_of_terms hterms).trans hadmits.sameSettings, ?_, todo, htodo, hrest⟩
        show b.link.raw.length < (settings s).rawLimit
        cases todo with
        | nil =>
          obtain ⟨hnil, -⟩ := List.append_eq_nil_iff.mp hrest
          rw [hnil]
          exact Nat.lt_of_lt_of_le (Wire.headerLength_pos layout) (hheader s)
        | cons f todo =>
          exact Nat.lt_of_lt_of_le (hshort f rfl) (htodo f List.mem_cons_self).2
      | error e b =>
        obtain ⟨⟨sent, hsent, -⟩, hstopped⟩ := hheeds
        have hout := hsent.outgoing
        rw [hadmits.sameLayout] at hout
        refine h.settled hact hsent.description hout (.answers (hheader _) hsent.answers)
          fun hconnected hnofault => ?_
        rcases hstopped with ⟨f, rfl⟩ | hclosed
        · exact absurd rfl (hnofault f b)
        · exact absurd (hclosed.symm.trans hconnected) Bool.false_ne_true

theorem Roomy.write (h : Roomy layout size settings p) {buffer : Bytes} {flushNow : Bool}
    (hact : p.act s op = if (p.party s).halted then p
      else p.settle s [buffer] ((p.attached s).write buffer flushNow p.now)) :
    Passes layout size settings p (.act s op) := by
  cases hhalted : (p.party s).halted with
  | true => exact h.idle (by rw [hact, hhalted]; rfl)
  | false =>
    rw [hhalted, if_neg Bool.false_ne_true] at hact
    cases hopen : (p.party s).link.connected with
    | false =>
      rw [Attached.write_of_closed (a := p.attached s) hopen] at hact
      exact h.refused hact hhalted
    | true =>
      have hadmits := h s ⟨hopen, hhalted⟩
      generalize hr : (p.attached s).write buffer flushNow p.now = r at hact
      have hcases := Attached.write_result (a := p.attached s) hopen buffer flushNow p.now
      rw [hr] at hcases
      cases hcases with
      | sent b parts written =>
        have hsplit := written.split
        have hout := written.outgoing
        rw [hadmits.sameLayout] at hsplit hout
        rw [hadmits.sameSize] at hsplit
        refine h.settled hact written.description hout (.split (hroom _) hsplit) fun _ _ => ?_
        have hsize := congrArg Link.fragmentSize written.terms
        exact hadmits.congr written.layout hsize written.settings written.raw written.incoming
      | refused e => exact h.refused hact hhalted
      | faulted e full => exact h.refused hact hhalted
      | broken e b isOpen room shut =>
        refine h.settled hact shut.description ?_ (.nil layout _) fun hconnected _ => ?_
        · exact shut.outgoing.trans (List.append_nil _).symm
        · exact absurd (shut.closed.symm.trans hconnected) Bool.false_ne_true

omit hroom in
theorem Roomy.close (h : Roomy layout size settings p) (s : Side) :
    Passes layout size settings p (.act s .close) := by
  cases hhalted : (p.party s).halted with
  | true =>
    have hact : p.act s .close = p.put s
        { p.party s with link := { (p.party s).link with connected := false } } p.duplex :=
      if_pos hhalted
    exact h.alone hact fun hx => nomatch hx.1
  | false =>
    have hact : p.act s .close = p.work s .close :=
      if_neg (by rw [hhalted]; exact Bool.false_ne_true)
    have hshut := Attached.shut_close (p.attached s)
    refine h.put hact rfl hshut.description ?_ (.nil layout _) fun hx => ?_
    · exact hshut.outgoing.trans (List.append_nil _).symm
    · exact absurd (hshut.closed.symm.trans hx.1) Bool.false_ne_true

theorem Roomy.act (h : Roomy layout size settings p) {s : Side} {op : Operation}
    (hop : (Event.act s op).keepsForm = true) : Passes layout size settings p (.act s op) := by
  cases op with
  | write buffer flushNow => exact h.write hroom rfl
  | writeText text flushNow => exact h.write hroom rfl
  | receive => exact h.receive hroom s
  | read => exact h.gets rfl (Link.read_queue _)
  | readInto buffer =>
    exact h.gets
      (r := (((p.party s).link.readInto buffer).1.map (Option.map fun n =>
        ((p.party s).link.readInto buffer).2.1.take n),
        ((p.party s).link.readInto buffer).2.2)) rfl (Link.readInto_queue _ buffer)
  | readText =>
    exact h.gets
      (r := ((p.party s).link.readText.1.map (Option.map Utf8.encode),
        (p.party s).link.readText.2)) rfl (Link.readText_queue _)
  | setFragmentSize size => cases hop
  | advanceGeneration =>
    cases hhalted : (p.party s).halted with
    | true => exact h.idle (if_pos hhalted)
    | false =>
      have hact : p.act s .advanceGeneration = p.work s .advanceGeneration :=
        if_neg (by rw [hhalted]; exact Bool.false_ne_true)
      refine h.alone hact fun hx => ?_
      rcases (p.party s).advance_eq with hadvance | hadvance
      · rw [hadvance] at hx ⊢
        exact ⟨hx, rfl, rfl, rfl, rfl⟩
      · rw [hadvance] at hx
        exact absurd hx.2 (by simp)
  | close => exact h.close s

theorem Roomy.step (h : Roomy layout size settings p) {e : Event} (he : e.keepsForm = true) :
    Passes layout size settings p e := by
  cases e with
  | act s op => exact h.act hroom he
  | switchLayout layout => cases he
  | pass d =>
    refine ⟨?_, fun s w hw => nomatch hw⟩
    rw [Pair.step]
    split
    · exact h
    · exact h

/-- Wherever a run ends, there is room, and so there was for all that was written on the way. -/
theorem Roomy.run (es : List Event) (h : Roomy layout size settings p)
    (hes : ∀ e ∈ es, e.keepsForm = true) :
    Roomy layout size settings (p.run es) ∧
      ∀ s, ∀ w ∈ p.emissions s es, w.length ≤ (settings s.opposite).rawLimit := by
  induction es generalizing p with
  | nil => exact ⟨h, fun s w hw => nomatch hw⟩
  | cons e es ih =>
    have hpasses := h.step hroom (hes e List.mem_cons_self)
    obtain ⟨hend, hlater⟩ := ih hpasses.roomy fun e' he' => hes e' (List.mem_cons_of_mem e he')
    refine ⟨hend, fun s w hw => ?_⟩
    rcases List.mem_append.mp hw with hw | hw
    · exact hpasses.room s w hw
    · exact hlater s w hw

end

end Pair

end BundleLink
