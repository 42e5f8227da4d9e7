import BundleLink.Proofs.Severed
import BundleLink.Proofs.Session.Basic

/-!
# What a receive does to its bundles and its channel

On a channel that may do anything, a fragment that completes a bundle has the ack written, then
flushed, and then the bundle delivered; when one of these fails, so does the receive. All other
fragments complete nothing and deliver nothing, whatever they make the link write.

* `Attached.Recorded`      what happened to the queue and to the channel;
* `Attached.HandleResult`  how the handling of any fragment ends;
* `Attached.Honours`       whatever was assembled before a write that succeeded is delivered, but
  for one exception;
* `receive_accounted`      the deeds of a receive honour its writes;
* `ready_write`            writes make nothing ready.
-/

namespace BundleLink

/-- how an operation failed, if it did -/
def Outcome.failure {σ α : Type} : Outcome σ α → Option (Failure LinkError)
  | .ok _ _ => none
  | .error e _ => some e

namespace Attached

variable {σ : Type} [Channel σ] {a b c : Attached (Traced σ)} {layout : Layout} {now : Moment}

/-- From `a` to `b` the bundles `bundles` were made ready and the calls `cs` made. -/
structure Recorded (bundles : List Bytes) (cs : List ChannelCall) (a b : Attached (Traced σ)) :
    Prop where
  ready : b.link.ready = a.link.ready ++ bundles
  calls : b.channel.calls = a.channel.calls ++ cs
  layout : b.link.layout = a.link.layout

omit [Channel σ] in
theorem Recorded.silent (hready : b.link.ready = a.link.ready)
    (hcalls : b.channel.calls = a.channel.calls) (hlayout : b.link.layout = a.link.layout) :
    Recorded [] [] a b :=
  ⟨by rw [hready, List.append_nil], by rw [hcalls, List.append_nil], hlayout⟩

omit [Channel σ] in
theorem Recorded.trans {bs bs' : List Bytes} {cs cs' : List ChannelCall}
    (h : Recorded bs cs a b) (h' : Recorded bs' cs' b c) :
    Recorded (bs ++ bs') (cs ++ cs') a c :=
  ⟨by rw [h'.ready, h.ready, List.append_assoc], by rw [h'.calls, h.calls, List.append_assoc],
    h'.layout.trans h.layout⟩

/-! ## one answer -/

/-- How an answer with this wire form ends: written and flushed, written but not flushed, or not
written. -/
inductive AnswerResult (wire : Bytes) (a : Attached (Traced σ)) :
    Outcome (Traced σ) Unit → Prop
  | flushed (b : Attached (Traced σ))
      (recorded : Recorded [] [.write wire none, .flush none] a b) : AnswerResult wire a (.ok () b)
  | unflushed (b : Attached (Traced σ)) (e : IoError)
      (recorded : Recorded [] [.write wire none, .flush (some e)] a b) :
      AnswerResult wire a (.error (.error (.io e)) b)
  | refused (b : Attached (Traced σ)) (e : IoError)
      (recorded : Recorded [] [.write wire (some e)] a b) :
      AnswerResult wire a (.error (.error (.io e)) b)

theorem answer_result (f : Fragment) (a : Attached (Traced σ)) :
    AnswerResult (f.wire a.link.layout) a (answer f a) := by
  rw [answer, transmit]
  dsimp only
  cases hwrite : (Channel.write (f.wire a.link.layout) a.channel).1 with
  | error e =>
    have hpair : Channel.write (f.wire a.link.layout) a.channel =
        (.error e, (Channel.write (f.wire a.link.layout) a.channel).2) := Prod.ext hwrite rfl
    have hcalls : (Channel.write (f.wire a.link.layout) a.channel).2.calls =
        a.channel.calls ++ [.write (f.wire a.link.layout) (some e)] := by
      show a.channel.calls ++ [.write _ (ChannelCall.failure _)] = _
      rw [show (Channel.write (f.wire a.link.layout) a.channel.channel).1 = .error e from hwrite]
      rfl
    rw [hpair]
    exact .refused _ e ⟨(List.append_nil _).symm, hcalls, rfl⟩
  | ok _ =>
    have hpair : Channel.write (f.wire a.link.layout) a.channel =
        (.ok (), (Channel.write (f.wire a.link.layout) a.channel).2) := Prod.ext hwrite rfl
    have hcalls : (Channel.write (f.wire a.link.layout) a.channel).2.calls =
        a.channel.calls ++ [.write (f.wire a.link.layout) none] := by
      show a.channel.calls ++ [.write _ (ChannelCall.failure _)] = _
      rw [show (Channel.write (f.wire a.link.layout) a.channel.channel).1 = .ok () from hwrite]
      rfl
    rw [hpair]
    dsimp only
    generalize (Channel.write (f.wire a.link.layout) a.channel).2 = t at hcalls
    rw [flush]
    dsimp only
    cases hflush : (Channel.flush t).1 with
    | error e =>
      have hpair : Channel.flush t = (.error e, (Channel.flush t).2) := Prod.ext hflush rfl
      rw [hpair]
      refine .unflushed _ e ⟨(List.append_nil _).symm, ?_, rfl⟩
      show t.calls ++ [.flush (ChannelCall.failure _)] = _
      rw [show (Channel.flush t.channel).1 = .error e from hflush, hcalls, List.append_assoc]
      rfl
    | ok _ =>
      have hpair : Channel.flush t = (.ok (), (Channel.flush t).2) := Prod.ext hflush rfl
      rw [hpair]
      refine .flushed _ ⟨(List.append_nil _).symm, ?_, rfl⟩
      show t.calls ++ [.flush (ChannelCall.failure _)] = _
      rw [show (Channel.flush t.channel).1 = .ok () from hflush, hcalls, List.append_assoc]
      rfl

/-! ## one fragment -/

/-- How the handling of a fragment of the bundle `k` ends, if it completes the bundle `o`. -/
inductive HandleResult (k : Key) (a : Attached (Traced σ)) :
    Option Bytes → Outcome (Traced σ) Unit → Prop
  /-- nothing is completed -/
  | barren (r : Outcome (Traced σ) Unit) (cs : List ChannelCall)
      (recorded : Recorded [] cs a r.after) : HandleResult k a none r
  /-- the ack is on its way, and the bundle is ready -/
  | delivered (bundle : Bytes) (b : Attached (Traced σ))
      (recorded : Recorded [bundle]
        [.write ((Fragment.ack k).wire a.link.layout) none, .flush none] a b) :
      HandleResult k a (some bundle) (.ok () b)
  /-- the ack is on its way, but the flush failed -/
  | unflushed (bundle : Bytes) (b : Attached (Traced σ)) (e : IoError)
      (recorded : Recorded []
        [.write ((Fragment.ack k).wire a.link.layout) none, .flush (some e)] a b) :
      HandleResult k a (some bundle) (.error (.error (.io e)) b)
  /-- the ack could not be written -/
  | refused (bundle : Bytes) (b : Attached (Traced σ)) (e : IoError)
      (recorded : Recorded [] [.write ((Fragment.ack k).wire a.link.layout) (some e)] a b) :
      HandleResult k a (some bundle) (.error (.error (.io e)) b)

section
variable {k : Key} {o : Option Bytes} {r : Outcome (Traced σ) Unit}

omit [Channel σ] in
theorem HandleResult.silent (h : Recorded [] [] a r.after) : HandleResult k a none r :=
  .barren r [] h

omit [Channel σ] in
/-- what happened before and was not noticed on the channel does not matter -/
theorem HandleResult.after_silence (h : HandleResult k b o r) (hab : Recorded [] [] a b) :
    HandleResult k a o r := by
  cases h with
  | barren r cs recorded => exact .barren r cs (hab.trans recorded)
  | delivered bundle c recorded =>
    rw [hab.layout] at recorded
    exact .delivered bundle c (hab.trans recorded)
  | unflushed bundle c e recorded =>
    rw [hab.layout] at recorded
    exact .unflushed bundle c e (hab.trans recorded)
  | refused bundle c e recorded =>
    rw [hab.layout] at recorded
    exact .refused bundle c e (hab.trans recorded)

/-- an answer alone completes nothing -/
theorem handled_answer (f : Fragment) (a : Attached (Traced σ)) (k : Key) :
    HandleResult k a none (answer f a) := by
  have hresult := answer_result f a
  generalize answer f a = r at hresult
  cases hresult with
  | flushed b recorded => exact .barren _ _ recorded
  | unflushed b e recorded => exact .barren _ _ recorded
  | refused b e recorded => exact .barren _ _ recorded

theorem handled_reject (why : Rejection) (a : Attached (Traced σ)) (k : Key) :
    HandleResult k a none (reject k why a) := by
  rw [reject]
  split
  · exact (handled_answer (.nak k) _ k).after_silence (.silent rfl rfl rfl)
  · exact .silent (.silent rfl rfl rfl)

theorem handled_finish {assembly : Assembly} {bundle : Bytes} (a : Attached (Traced σ)) (k : Key)
    (hjoin : Bundle.join a.link.layout assembly.fragments = .ok bundle) :
    HandleResult k a (some bundle) (finish k assembly a) := by
  rw [finish, Assembly.release]
  dsimp only
  rw [hjoin]
  dsimp only
  generalize hb : a.putInbound k _ = b
  have hput : Recorded [] [] a b := by
    rw [← hb]
    exact .silent rfl rfl rfl
  apply HandleResult.after_silence _ hput
  have hresult := answer_result (.ack k) b
  generalize answer (.ack k) b = r at hresult
  cases hresult with
  | flushed c recorded =>
    refine .delivered bundle _ ⟨?_, recorded.calls, recorded.layout⟩
    show c.link.ready ++ [bundle] = _
    rw [recorded.ready, List.append_nil]
  | unflushed c e recorded => exact .unflushed bundle c e recorded
  | refused c e recorded => exact .refused bundle c e recorded

theorem handled_assemble (f : Fragment) (now : Moment) (assembly : Assembly)
    (a : Attached (Traced σ)) (k : Key) :
    HandleResult k a (a.link.collects f now assembly) (assemble k f now assembly a) := by
  rw [assemble, Link.collects]
  obtain ⟨insertion, grown⟩ := assembly.insert f
  cases insertion with
  | duplicate => exact .silent (.silent rfl rfl rfl)
  | invalid why => exact handled_reject _ a k
  | added =>
    dsimp only
    cases a.link.deadline now (grown.missing.getD 0) with
    | error e => exact .silent (.silent rfl rfl rfl)
    | ok deadline =>
      dsimp only
      -- neither the moment nor the deadline matters for what follows
      generalize hlate : ({ grown with lastArrival := now, deadline := deadline } : Assembly) = late
      have hcollected : late.isCollected = grown.isCollected := by rw [← hlate]; rfl
      have hfragments : late.fragments = grown.fragments := by rw [← hlate]; rfl
      rw [← hcollected, ← hfragments]
      cases late.isCollected with
      | false =>
        rw [if_neg Bool.false_ne_true]
        cases Bundle.join a.link.layout late.fragments <;> exact .silent (.silent rfl rfl rfl)
      | true =>
        rw [if_pos rfl]
        cases hjoin : Bundle.join a.link.layout late.fragments with
        | ok bundle => exact handled_finish a k hjoin
        | error e =>
          rw [finish, Assembly.release]
          dsimp only
          rw [hjoin]
          cases e with
          | fault e => exact .silent (.silent rfl rfl rfl)
          | error e => exact handled_reject _ a k

omit [Channel σ] in
/-- without a lag there is no deadline, and without a deadline nothing is completed -/
theorem completes_eq_none {l : Link} {e : Fault} (hlag : l.lag = .error e) (f : Fragment)
    (now : Moment) : l.completes f now = none := by
  have hcollects (assembly : Assembly) : l.collects f now assembly = none := by
    rw [Link.collects]
    split
    · rw [lag_eq_error hlag]
    · rfl
  rw [Link.completes]
  split
  · rfl
  · split
    · split
      · rfl
      · exact hcollects _
    · rw [lag_eq_error hlag]

theorem handled_handle (f : Fragment) (now : Moment) (a : Attached (Traced σ)) :
    HandleResult f.key a (a.link.completes f now) (handle f now a) := by
  by_cases hcontrol : f.isControl = true
  · rw [handle, Link.completes, if_pos hcontrol, if_pos (.inl hcontrol), handleControl]
    dsimp only
    split
    · exact .silent (.silent rfl rfl rfl)
    · split
      · exact (handled_answer (.ack f.key) _ f.key).after_silence (.silent rfl rfl rfl)
      · exact .silent (.silent rfl rfl rfl)
  · rw [handle, if_neg hcontrol, handleBundle]
    by_cases hstray : f.number = 0 ∧ f.length ≤ 0
    · rw [Link.completes, if_pos hstray, if_pos (.inr hstray)]
      exact .silent (.silent rfl rfl rfl)
    · rw [if_neg hstray]
      cases hlag : a.link.lag with
      | error e =>
        rw [completes_eq_none hlag]
        exact .silent (.silent rfl rfl rfl)
      | ok lag =>
        rw [Link.completes, if_neg (not_or.mpr ⟨hcontrol, hstray⟩)]
        dsimp only
        cases a.link.inbound.get? f.key with
        | some assembly =>
          dsimp only
          cases assembly.complete with
          | true =>
            rw [if_pos rfl, if_pos rfl]
            split
            · exact handled_answer (.ack f.key) a f.key
            · exact .silent (.silent rfl rfl rfl)
          | false =>
            rw [if_neg Bool.false_ne_true, if_neg Bool.false_ne_true]
            exact (handled_assemble f now assembly (a.eraseInbound f.key) f.key).after_silence
              (.silent rfl rfl rfl)
        | none =>
          dsimp only
          cases a.link.deadline now 0 with
          | error e => exact .silent (.silent rfl rfl rfl)
          | ok deadline => exact handled_assemble f now (.empty now deadline) a f.key

/-! ## deeds -/

theorem Recorded.deeds_eq {f : Fragment} {bundles : List Bytes}
    {cs : List ChannelCall} (h : Recorded bundles cs a (handle f now a).after) :
    deeds now f a = (a.link.completes f now).toList.map (Deed.assembled f.key) ++
      cs.map Deed.called ++ bundles.map (Deed.delivered f.key) := by
  rw [deeds, h.calls, h.ready, List.drop_left, List.drop_left]

end

/-- Deeds `ds` that follow on `past`: whatever was assembled before a write that succeeded was
delivered in the end, unless the write was the ack for the last bundle assembled, and the flush of
this ack failed and ended it all. -/
def Honours (layout : Layout) (past ds : List Deed) (failure : Option (Failure LinkError)) : Prop :=
  ∀ pre wire post, ds = pre ++ .called (.write wire none) :: post →
    Deed.assemblies (past ++ pre) <+: Deed.deliveries (past ++ ds) ∨
      ∃ k bundle e, wire = (Fragment.ack k).wire layout ∧ post = [.called (.flush (some e))] ∧
        failure = some (.error (.io e)) ∧
        Deed.assemblies (past ++ pre) = Deed.deliveries (past ++ ds) ++ [(k, bundle)]

/-- … and whatever was assembled at all was delivered, unless the channel failed -/
structure Accounted (layout : Layout) (past ds : List Deed) (failure : Option (Failure LinkError)) :
    Prop where
  honours : Honours layout past ds failure
  balanced : (∀ e, failure ≠ some (.error (.io e))) →
    Deed.assemblies (past ++ ds) = Deed.deliveries (past ++ ds)

section
variable {past ds es : List Deed} {failure : Option (Failure LinkError)}

theorem Accounted.nil (h : Deed.assemblies past = Deed.deliveries past) :
    Accounted layout past [] failure := by
  constructor
  · intro pre wire post hsplit
    exact absurd hsplit (by simp)
  · intro _
    rw [List.append_nil]
    exact h

theorem Honours.append (h : Honours layout past ds none)
    (h' : Honours layout (past ++ ds) es failure) : Honours layout past (ds ++ es) failure := by
  -- a write among the first deeds is no exception, since these did not fail
  have hearlier {pre later : List Deed} {wire : Bytes}
      (hsplit : ds = pre ++ .called (.write wire none) :: later) :
      Deed.assemblies (past ++ pre) <+: Deed.deliveries (past ++ (ds ++ es)) := by
    rcases h pre wire later hsplit with hprefix | ⟨k, bundle, e, -, -, hfailure, -⟩
    · rw [← List.append_assoc, Deed.deliveries_append (past ++ ds)]
      exact hprefix.trans (List.prefix_append _ _)
    · cases hfailure
  have hlater {pre : List Deed} {wire : Bytes} {post : List Deed}
      (hsplit : es = pre ++ .called (.write wire none) :: post) :=
    h' pre wire post hsplit
  intro pre wire post hsplit
  rcases List.append_eq_append_iff.mp hsplit with ⟨as, rfl, has⟩ | ⟨bs, rfl, hbs⟩
  · have hfound := hlater has
    rw [List.append_assoc, List.append_assoc] at hfound
    exact hfound
  · cases bs with
    | nil =>
      have hhead : es = [] ++ .called (.write wire none) :: post := hbs.symm
      have hfound := hlater hhead
      rw [List.append_nil] at hfound ⊢
      rw [List.append_nil, List.append_assoc] at hfound
      exact hfound
    | cons d bs =>
      obtain ⟨rfl, -⟩ := List.cons.inj hbs
      exact .inl (hearlier rfl)

theorem Honours.of_none (h : Honours layout past ds none) : Honours layout past ds failure := by
  intro pre wire post hsplit
  rcases h pre wire post hsplit with hprefix | ⟨k, bundle, e, -, -, hfailure, -⟩
  · exact .inl hprefix
  · cases hfailure

/-- calls alone assemble nothing and deliver nothing -/
theorem Accounted.called (h : Deed.assemblies past = Deed.deliveries past)
    (cs : List ChannelCall) : Accounted layout past (cs.map Deed.called) failure := by
  have hdelivered : Deed.deliveries (past ++ cs.map Deed.called) = Deed.deliveries past := by
    rw [Deed.deliveries_append, Deed.deliveries_called, List.append_nil]
  have hassembled : Deed.assemblies (past ++ cs.map Deed.called) = Deed.assemblies past := by
    rw [Deed.assemblies_append, Deed.assemblies_called, List.append_nil]
  constructor
  · intro pre wire post hsplit
    left
    rw [hdelivered, ← h, ← hassembled, hsplit, ← List.append_assoc,
      Deed.assemblies_append (past ++ pre)]
    exact List.prefix_append _ _
  · intro _
    rw [hassembled, hdelivered, h]

end

/-- where only the first call may be a write that succeeded -/
theorem eq_of_write {k : Key} {bundle wire : Bytes} {c : ChannelCall} {pre post rest : List Deed}
    (hrest : ∀ w, Deed.called (.write w none) ∉ rest)
    (h : .assembled k bundle :: .called c :: rest = pre ++ .called (.write wire none) :: post) :
    pre = [.assembled k bundle] ∧ c = .write wire none ∧ post = rest := by
  cases pre with
  | nil => cases h
  | cons d pre =>
    obtain ⟨rfl, htail⟩ := List.cons.inj h
    cases pre with
    | nil =>
      obtain ⟨hc, hpost⟩ := List.cons.inj htail
      exact ⟨rfl, Deed.called.inj hc, hpost.symm⟩
    | cons d pre =>
      have hmem : Deed.called (.write wire none) ∈ rest := by
        rw [(List.cons.inj htail).2]
        exact List.mem_append_right pre List.mem_cons_self
      exact absurd hmem (hrest wire)

/-- The deeds of one fragment are what happened, and they are accounted for. -/
theorem deeds_accounted {past : List Deed} (h : Deed.assemblies past = Deed.deliveries past)
    (f : Fragment) (now : Moment) (a : Attached (Traced σ)) :
    Recorded ((Deed.deliveries (deeds now f a)).map Prod.snd) (Deed.calls (deeds now f a)) a
        (handle f now a).after ∧
      Accounted a.link.layout past (deeds now f a) (handle f now a).failure := by
  have hdeeds {bundles : List Bytes} {cs : List ChannelCall}
      (hr : Recorded bundles cs a (handle f now a).after) := hr.deeds_eq
  have hresult := handled_handle f now a
  generalize a.link.completes f now = o at hresult hdeeds
  generalize handle f now a = r at hresult hdeeds ⊢
  have hassembled (bundle : Bytes) : Deed.assemblies (past ++ [.assembled f.key bundle]) =
      Deed.deliveries past ++ [(f.key, bundle)] := by
    rw [Deed.assemblies_append, h]
    rfl
  cases hresult with
  | barren r cs recorded =>
    have heq : deeds now f a = cs.map Deed.called := by
      rw [hdeeds recorded]
      exact List.append_nil _
    rw [heq, Deed.deliveries_called, Deed.calls_called]
    exact ⟨recorded, .called h cs⟩
  | delivered bundle b recorded =>
    rw [hdeeds recorded]
    refine ⟨recorded, ?_, ?_⟩
    · intro pre wire post hsplit
      obtain ⟨rfl, -, -⟩ := eq_of_write (by simp) hsplit
      left
      rw [hassembled, Deed.deliveries_append]
      exact List.prefix_refl _
    · intro _
      rw [Deed.assemblies_append, Deed.deliveries_append, h]
      rfl
  | unflushed bundle b e recorded =>
    rw [hdeeds recorded]
    refine ⟨recorded, ?_, fun hnot => absurd rfl (hnot e)⟩
    intro pre wire post hsplit
    obtain ⟨rfl, hwrite, rfl⟩ := eq_of_write (by simp) hsplit
    right
    refine ⟨f.key, bundle, e, (ChannelCall.write.inj hwrite).1.symm, rfl, rfl, ?_⟩
    rw [hassembled, Deed.deliveries_append]
    exact congrArg (· ++ _) (List.append_nil _).symm
  | refused bundle b e recorded =>
    rw [hdeeds recorded]
    refine ⟨recorded, ?_, fun hnot => absurd rfl (hnot e)⟩
    intro pre wire post hsplit
    obtain ⟨-, hwrite, -⟩ := eq_of_write (by simp) hsplit
    cases hwrite

/-! ## one receive -/

/-- While fragments are handled one after the other, their deeds are accounted for. -/
theorem along_accounted (ps : List Wire.Piece) (count : Nat) {past : List Deed}
    (h : Deed.assemblies past = Deed.deliveries past) (a : Attached (Traced σ)) :
    Recorded ((Deed.deliveries (along (deeds now) now ps a)).map Prod.snd)
        (Deed.calls (along (deeds now) now ps a)) a (handleAll now count ps a).after ∧
      Accounted a.link.layout past (along (deeds now) now ps a)
        (handleAll now count ps a).failure := by
  induction ps generalizing past count a with
  | nil => exact ⟨.silent rfl rfl rfl, .nil h⟩
  | cons p ps ih =>
    cases p with
    | skipped size flaw =>
      obtain ⟨hrecorded, haccounted⟩ := ih count h (a.warn (.dropped size a.link.description flaw))
      have hwarned : Recorded [] [] a (a.warn (.dropped size a.link.description flaw)) :=
        .silent rfl rfl rfl
      exact ⟨hwarned.trans hrecorded, haccounted⟩
    | fragment f size =>
      have harrived : Recorded [] [] a (a.arrived now) := .silent rfl rfl rfl
      obtain ⟨hrecorded, haccounted⟩ := deeds_accounted h f now (a.arrived now)
      rw [along, handleAll]
      generalize deeds now f (a.arrived now) = ds at hrecorded haccounted
      cases hr : handle f now (a.arrived now) with
      | error e b =>
        rw [hr] at hrecorded haccounted
        rw [List.append_nil]
        exact ⟨harrived.trans hrecorded, haccounted⟩
      | ok _ b =>
        rw [hr] at hrecorded haccounted
        have hlayout : b.link.layout = a.link.layout := hrecorded.layout
        obtain ⟨hlater, haccounted'⟩ := ih (count + 1)
          (haccounted.balanced fun e hfailed => by cases hfailed) b
        dsimp only
        rw [Deed.deliveries_append, Deed.calls_append, List.map_append]
        rw [hlayout] at haccounted'
        refine ⟨harrived.trans (hrecorded.trans hlater),
          haccounted.honours.append haccounted'.honours, ?_⟩
        intro hnot
        rw [← List.append_assoc]
        exact haccounted'.balanced hnot

theorem calls_fill (chunk room : Nat) (acc : List Bytes) (t : Traced σ) :
    (fill chunk room acc t).channel.calls = t.calls := by
  have hread {r : Except IoError Arrival} {t t' : Traced σ}
      (hr : Channel.read chunk t = (r, t')) : t'.calls = t.calls :=
    (congrArg (fun q : Except IoError Arrival × Traced σ => q.2.calls) hr).symm
  fun_induction fill chunk room acc t with
  | case1 room acc t hroom e t' hr => exact hread hr
  | case2 room acc t hroom t' hr => exact hread hr
  | case3 room acc t hroom t' hr => exact hread hr
  | case4 room acc t hroom bs t' hr ih => exact ih.trans (hread hr)
  | case5 room acc t hroom => rfl

theorem recorded_filled (a : Attached (Traced σ)) : Recorded [] [] a a.filled :=
  .silent rfl (calls_fill _ _ _ _) rfl

theorem receiveBundles_accounted (now : Moment) {past : List Deed}
    (h : Deed.assemblies past = Deed.deliveries past) {a : Attached (Traced σ)}
    (hopen : a.link.connected = true) :
    Recorded ((Deed.deliveries (a.during (deeds now) now)).map Prod.snd)
        (Deed.calls (a.during (deeds now) now)) a (receiveBundles now a).after ∧
      Accounted a.link.layout past (a.during (deeds now) now) (receiveBundles now a).failure := by
  rw [during, if_pos hopen]
  cases hended : a.intake.ended with
  | error e =>
    rw [receiveBundles_failed hended, fillRaw_error hended]
    exact ⟨recorded_filled a, .nil h⟩
  | ok ended =>
    obtain ⟨hrecorded, haccounted⟩ := @along_accounted σ _ now a.pieces 0 past h a.loaded
    have hloaded : Recorded [] [] a a.loaded := .silent rfl (calls_fill _ _ _ _) rfl
    rw [fillRaw_ok hended]
    show Recorded ((Deed.deliveries (along (deeds now) now a.pieces a.loaded)).map Prod.snd)
        (Deed.calls (along (deeds now) now a.pieces a.loaded)) a _ ∧
      Accounted a.link.layout past (along (deeds now) now a.pieces a.loaded) _
    generalize along (deeds now) now a.pieces a.loaded = ds at hrecorded haccounted
    cases hr : handleAll now 0 a.pieces a.loaded with
    | error e b =>
      rw [hr] at hrecorded haccounted
      rw [receiveBundles_broken hended hr]
      exact ⟨hloaded.trans hrecorded, haccounted⟩
    | ok count b =>
      rw [hr] at hrecorded haccounted
      rw [receiveBundles_handled hended hr]
      have hpurged := conclude_purged now ended count b
      have hlast : Recorded [] [] b (conclude now ended count b).after :=
        .silent hpurged.ready (by rw [hpurged.channel]) (Link.layout_of_terms hpurged.terms)
      have hall := hloaded.trans (hrecorded.trans hlast)
      rw [List.append_nil, List.append_nil] at hall
      exact ⟨hall, haccounted.honours.of_none,
        fun _ => haccounted.balanced fun e hfailed => by cases hfailed⟩

theorem recorded_close (a : Attached (Traced σ)) : Recorded [] [] a a.close := by
  rw [close]
  split <;> exact .silent rfl rfl rfl

/-- a failure that closes the link is still the same failure -/
theorem recorded_settle {bundles : List Bytes} {cs : List ChannelCall}
    {r : Outcome (Traced σ) Unit} (h : Recorded bundles cs a r.after) :
    Recorded bundles cs a (settle r).after ∧ (settle r).failure = r.failure := by
  rcases r with ⟨_, b⟩ | ⟨e | e, b⟩
  · exact ⟨h, rfl⟩
  · rw [settle]
    split
    · have hwarned : Recorded [] [] b (b.warn (.closing b.link.id b.link.description e)) :=
        .silent rfl rfl rfl
      have hshut : Recorded [] [] b (b.warn (.closing b.link.id b.link.description e)).close :=
        hwarned.trans (recorded_close _)
      have hclosed := Recorded.trans h hshut
      rw [List.append_nil, List.append_nil] at hclosed
      exact ⟨hclosed, rfl⟩
    · exact ⟨h, rfl⟩
  · exact ⟨h, rfl⟩

theorem closed_of_io {r : Outcome (Traced σ) Unit} {e : IoError}
    (h : r.failure = some (.error (.io e))) : (settle r).after.link.connected = false := by
  rcases r with ⟨_, b⟩ | ⟨e' | e', b⟩
  · cases h
  · obtain rfl := Failure.error.inj (Option.some.inj h)
    exact close_connected _
  · cases h

theorem receive_accounted (now : Moment) {past : List Deed}
    (h : Deed.assemblies past = Deed.deliveries past) {a : Attached (Traced σ)}
    (hopen : a.link.connected = true) :
    Recorded ((Deed.deliveries (a.during (deeds now) now)).map Prod.snd)
        (Deed.calls (a.during (deeds now) now)) a (receive now a).after ∧
      Accounted a.link.layout past (a.during (deeds now) now) (receive now a).failure ∧
      ∀ e, (receive now a).failure = some (.error (.io e)) →
        (receive now a).after.link.connected = false := by
  obtain ⟨hrecorded, haccounted⟩ := receiveBundles_accounted now h hopen
  obtain ⟨hsettled, hfailure⟩ := recorded_settle hrecorded
  rw [receive, if_pos hopen, hfailure]
  exact ⟨hsettled, haccounted, fun e he => closed_of_io he⟩

/-! ## one write -/

section
variable {ρ : Type} [Channel ρ]

theorem ready_transmitAll (fs : List Fragment) (a : Attached ρ) :
    (transmitAll fs a).after.link.ready = a.link.ready := by
  induction fs generalizing a with
  | nil => rfl
  | cons f fs ih =>
    have hone : (transmit f a).after.link.ready = a.link.ready := by
      rw [transmit]
      dsimp only
      split <;> rfl
    rw [transmitAll]
    generalize transmit f a = r at hone
    cases r with
    | ok _ b => exact (ih b).trans hone
    | error e b => exact hone

theorem ready_flush (a : Attached ρ) : (flush a).after.link.ready = a.link.ready := by
  rw [flush]
  split <;> rfl

theorem ready_settle {r : Outcome ρ Unit} : (settle r).after.link.ready = r.after.link.ready := by
  rcases r with ⟨_, b⟩ | ⟨e | e, b⟩
  · rfl
  · rw [settle]
    split
    · exact close_ready _
    · rfl
  · rfl

/-- a write makes nothing ready and opens nothing -/
theorem ready_write (buffer : Bytes) (flushNow : Bool) (now : Moment) (a : Attached ρ) :
    (write buffer flushNow now a).after.link.ready = a.link.ready ∧
      ((write buffer flushNow now a).after.link.connected = true → a.link.connected = true) := by
  cases hopen : a.link.connected with
  | false =>
    rw [write_of_closed hopen]
    exact ⟨rfl, fun h => hopen ▸ h⟩
  | true =>
    refine ⟨?_, fun _ => rfl⟩
    rw [write, if_pos hopen, ready_settle, writeBundle]
    dsimp only
    split
    · rfl
    · split
      · rfl
      · rename_i parts hsplit hroom
        generalize hb : ({ a with link := { a.link with nextMessage := a.link.nextMessage + 1 } } :
          Attached ρ) = b
        have hready : b.link.ready = a.link.ready := by rw [← hb]
        have hall := ready_transmitAll parts b
        generalize transmitAll parts b = r at hall
        cases r with
        | error e c => exact Eq.trans hall hready
        | ok _ c =>
          dsimp only
          split
          · exact (ready_flush _).trans (Eq.trans hall hready)
          · exact Eq.trans hall hready

end

end Attached

end BundleLink
