import BundleLink.Channel.Script
import BundleLink.Proofs.Calling
import BundleLink.Proofs.Reassembly.Reaction
import BundleLink.Proofs.Session.Deeds

/-!
# What a link replies

On a channel that accepts all that is written, a link that has nothing outbound makes of a fragment
what the entry for its key makes of it: the new entry is the one that `Assembly.react` says, and the
reactions are written, flushed and delivered in this order.

* `Channel.Accepts`          writes and flushes will succeed;
* `Reaction.calls`, `Reaction.bundle?`  what becomes of a reaction on the channel and in the queue;
* `Attached.Responds`        a handling that succeeds, with its entry and its reactions;
* `Attached.handle_responds` any fragment is handled so.
-/

namespace BundleLink

open Assembly (react gather refuse)

/-! ## channels that accept everything -/

/-- Writes and flushes succeed, whatever else the channel is called for in between. -/
def Channel.Accepts {σ : Type} [Channel σ] (ch : σ) : Prop :=
  ∀ ch', Channel.Leads ch ch' →
    (∀ bs, (Channel.write bs ch').1 = .ok ()) ∧ (Channel.flush ch').1 = .ok ()

namespace Channel.Accepts

variable {σ : Type} [Channel σ] {ch ch' : σ}

theorem leads (h : Channel.Accepts ch) (hleads : Channel.Leads ch ch') : Channel.Accepts ch' :=
  fun ch'' hlater => h ch'' (hleads.trans hlater)

/-- recording the calls changes nothing about the channel -/
theorem traced (h : Channel.Accepts ch) (calls : List ChannelCall) :
    Channel.Accepts (⟨ch, calls⟩ : Traced σ) := by
  have hsame {t t' : Traced σ} (hleads : Channel.Leads t t') :
      Channel.Leads t.channel t'.channel := by
    induction hleads with
    | refl => exact .refl
    | read n _ ih => exact .read n ih
    | write bs _ ih => exact .write bs ih
    | flush _ ih => exact .flush ih
  exact fun t hleads => h t.channel (hsame hleads)

end Channel.Accepts

/-- a script in which no call fails -/
theorem Script.accepts {ch : Script} (hwrite : ch.failingWrite = none)
    (hflush : ch.failingFlush = none) : Channel.Accepts ch := by
  have hnone {ch' : Script} (hleads : Channel.Leads ch ch') :
      ch'.failingWrite = none ∧ ch'.failingFlush = none := by
    induction hleads with
    | refl => exact ⟨hwrite, hflush⟩
    | read n _ ih =>
      have hread (t : Script) : (t.read n).2.failingWrite = t.failingWrite ∧
          (t.read n).2.failingFlush = t.failingFlush := by
        rw [Script.read]
        split
        · exact ⟨rfl, rfl⟩
        · split <;> exact ⟨rfl, rfl⟩
      exact ⟨(hread _).1.trans ih.1, (hread _).2.trans ih.2⟩
    | @write t bs _ ih =>
      show (t.write bs).2.failingWrite = none ∧ (t.write bs).2.failingFlush = none
      rw [Script.write]
      split <;> exact ih
    | @flush t _ ih =>
      show t.flush.2.failingWrite = none ∧ t.flush.2.failingFlush = none
      rw [Script.flush]
      split <;> exact ih
  intro ch' hleads
  obtain ⟨hw, hf⟩ := hnone hleads
  refine ⟨fun bs => ?_, ?_⟩
  · show (ch'.write bs).1 = .ok ()
    rw [Script.write, hw]
    rfl
  · show ch'.flush.1 = .ok ()
    rw [Script.flush, hf]
    rfl

/-! ## reactions on their way -/

namespace Reaction

/-- the calls for a reaction about the bundle `k` -/
def calls (layout : Layout) (k : Key) : Reaction → List ChannelCall
  | .ack => [.write ((Fragment.ack k).wire layout) none, .flush none]
  | .nak => [.write ((Fragment.nak k).wire layout) none, .flush none]
  | .bundle _ => []

def bundle? : Reaction → Option Bytes
  | .bundle bytes => some bytes
  | .ack | .nak => none

end Reaction

namespace Attached

variable {σ : Type} [Channel σ] {a b : Attached (Traced σ)} {layout : Layout} {k : Key}
  {p : Option Assembly × List Reaction} {r : Outcome (Traced σ) Unit} {f : Fragment} {now : Moment}

/-- From `a` the handling went well. The entry for `k` is the one of `p` then, but for its moments,
the reactions of `p` were sent, and nothing outbound was touched. -/
structure Responded (layout : Layout) (k : Key) (p : Option Assembly × List Reaction)
    (a b : Attached (Traced σ)) : Prop where
  recorded : Recorded (p.2.filterMap Reaction.bundle?) (p.2.flatMap (Reaction.calls layout k)) a b
  entry : (b.link.inbound.get? k).map Assembly.timeless = p.1
  outbound : b.link.outbound = a.link.outbound

def Responds (layout : Layout) (k : Key) (p : Option Assembly × List Reaction)
    (a : Attached (Traced σ)) (r : Outcome (Traced σ) Unit) : Prop :=
  ∃ b, r = .ok () b ∧ Responded layout k p a b

omit [Channel σ] in
theorem Responds.after_silence (h : Responds layout k p b r) (hab : Recorded [] [] a b)
    (hout : b.link.outbound = a.link.outbound) : Responds layout k p a r := by
  obtain ⟨c, hr, hc⟩ := h
  exact ⟨c, hr, hab.trans hc.recorded, hc.entry, hc.outbound.trans hout⟩

omit [Channel σ] in
/-- nothing is sent -/
theorem responds_quiet {o : Option Assembly} (hab : Recorded [] [] a b)
    (hentry : (b.link.inbound.get? k).map Assembly.timeless = o)
    (hout : b.link.outbound = a.link.outbound) : Responds layout k (o, []) a (.ok () b) :=
  ⟨b, rfl, hab, hentry, hout⟩

theorem answer_accepted (haccepts : Channel.Accepts a.channel) (f : Fragment) :
    ∃ b, answer f a = .ok () b ∧
      Recorded [] [.write (f.wire a.link.layout) none, .flush none] a b ∧ Counted a b := by
  have hresult := answer_result f a
  have hcounted := answer_counted f a
  obtain ⟨b, hb⟩ : ∃ b, answer f a = .ok () b := by
    have hwrite := (haccepts _ .refl).1 (f.wire a.link.layout)
    have hpair : Channel.write (f.wire a.link.layout) a.channel =
        (.ok (), (Channel.write (f.wire a.link.layout) a.channel).2) := Prod.ext hwrite rfl
    have hflush := (haccepts _ (.write (f.wire a.link.layout) .refl)).2
    rw [answer, transmit]
    dsimp only
    rw [hpair]
    dsimp only
    generalize (Channel.write (f.wire a.link.layout) a.channel).2 = t at hflush
    have hpair : Channel.flush t = (.ok (), (Channel.flush t).2) := Prod.ext hflush rfl
    rw [flush]
    dsimp only
    rw [hpair]
    exact ⟨_, rfl⟩
  rw [hb] at hresult hcounted
  cases hresult with
  | flushed _ recorded => exact ⟨b, hb, recorded, hcounted⟩

/-- an answer is sent, and the entry is as it was -/
theorem responds_answer (haccepts : Channel.Accepts a.channel) (hlayout : a.link.layout = layout)
    (reaction : Reaction)
    (hcalls : reaction.calls layout k = [.write (f.wire layout) none, .flush none])
    (hbundle : reaction.bundle? = none) :
    Responds layout k ((a.link.inbound.get? k).map Assembly.timeless, [reaction]) a
      (answer f a) := by
  obtain ⟨b, hb, hrecorded, hcounted⟩ := answer_accepted haccepts f
  rw [hlayout, ← hcalls] at hrecorded
  refine ⟨b, hb, ?_, by rw [hcounted.inbound], ?_⟩
  · rw [List.filterMap_cons_none hbundle, List.flatMap_singleton]
    exact hrecorded
  · obtain ⟨traffic, hlink⟩ := hcounted
    rw [hlink]

theorem responds_reject (haccepts : Channel.Accepts a.channel) (hlayout : a.link.layout = layout)
    (why : Rejection) : Responds layout k (refuse k) a (reject k why a) := by
  have hgone := get?_eraseInbound_self k (a.warn (.rejected k why))
  have hquiet : Recorded [] [] a ((a.warn (.rejected k why)).eraseInbound k) :=
    .silent rfl rfl rfl
  rw [reject, refuse]
  split
  · have hsent := responds_answer (k := k) (f := .nak k)
      (a := (a.warn (.rejected k why)).eraseInbound k) haccepts hlayout .nak rfl rfl
    rw [hgone] at hsent
    exact hsent.after_silence hquiet rfl
  · exact responds_quiet hquiet (by rw [hgone]; rfl) rfl

/-- all fragments are there -/
theorem responds_finish (haccepts : Channel.Accepts a.channel) (hlayout : a.link.layout = layout)
    (asm : Assembly) :
    Responds layout k
      (match Bundle.join layout asm.fragments with
        | .ok bundle =>
          (some
            { asm.timeless with slots := #[], present := 0, complete := true, acked := true },
            [.ack, .bundle bundle])
        | .error _ => refuse k)
      a (finish k asm a) := by
  rw [finish, Assembly.release]
  dsimp only
  rw [hlayout]
  cases hjoin : Bundle.join layout asm.fragments with
  | error e =>
    cases e with
    | fault e => exact absurd hjoin (Bundle.join_ne_fault layout asm.fragments)
    | error e => exact responds_reject haccepts hlayout (.bundle e)
  | ok bundle =>
    dsimp only
    generalize hput : a.putInbound k _ = b
    have hquiet : Recorded [] [] a b := by
      rw [← hput]
      exact .silent rfl rfl rfl
    have hout : b.link.outbound = a.link.outbound := by rw [← hput]; rfl
    have hb : Channel.Accepts b.channel := by
      rw [← hput]
      exact haccepts
    obtain ⟨c, hc, hrecorded, hcounted⟩ := answer_accepted hb (.ack k)
    rw [hquiet.layout, hlayout] at hrecorded
    rw [hc]
    refine Responds.after_silence ⟨_, rfl, ?_, ?_, ?_⟩ hquiet hout
    · refine ⟨?_, hrecorded.calls, hrecorded.layout⟩
      show c.link.ready ++ [bundle] = _
      rw [hrecorded.ready, List.append_nil]
      rfl
    · show ((c.putInbound k _).link.inbound.get? k).map Assembly.timeless = _
      rw [get?_putInbound_self]
      rfl
    · obtain ⟨traffic, hlink⟩ := hcounted
      show c.link.outbound = _
      rw [hlink]

/-- The deadline of any bundle can be computed, whatever is missing of it. -/
def Ample (l : Link) (now : Moment) : Prop :=
  ∀ missing, missing ≤ Fragment.maxCount + 1 → ∃ d, l.deadline now missing = .ok d

/-- a fragment for a bundle under assembly -/
theorem responds_assemble (haccepts : Channel.Accepts a.channel) (hlayout : a.link.layout = layout)
    (hample : Ample a.link now) {asm : Assembly} (hfilled : asm.Filled f.key) :
    Responds layout f.key (gather layout f asm.timeless) a (assemble f.key f now asm a) := by
  rw [assemble, gather]
  cases hinsert : asm.insert f with
  | mk insertion grown =>
    rw [Assembly.insert_timeless_of hinsert]
    cases insertion with
    | duplicate =>
      refine responds_quiet (.silent rfl rfl rfl) ?_ rfl
      rw [get?_putInbound_self]
      rfl
    | invalid why => exact responds_reject haccepts hlayout (.misfit why)
    | added =>
      obtain ⟨hgrown, -⟩ := hfilled.insert_added rfl hinsert
      obtain ⟨deadline, hdue⟩ := hample _ hgrown.missing_le
      dsimp only
      rw [hdue]
      dsimp only
      have hcollected : ({ grown with lastArrival := now, deadline := deadline } :
        Assembly).isCollected = grown.timeless.isCollected := rfl
      rw [hcollected]
      cases grown.timeless.isCollected with
      | true => exact responds_finish haccepts hlayout _
      | false =>
        refine responds_quiet (.silent rfl rfl rfl) ?_ rfl
        rw [get?_putInbound_self]
        rfl

/-- A link with nothing outbound makes of a fragment what the entry for its key makes of it. -/
theorem handle_responds (haccepts : Channel.Accepts a.channel) (hlayout : a.link.layout = layout)
    (hample : Ample a.link now) (hout : a.link.outbound.get? f.key = none)
    (hregular : ∀ asm, a.link.inbound.get? f.key = some asm → asm.Regular f.key) :
    Responds layout f.key (react layout f ((a.link.inbound.get? f.key).map Assembly.timeless)) a
      (handle f now a) := by
  rw [handle, Assembly.react.eq_def]
  split
  · rw [handleControl]
    dsimp only
    split
    · exact responds_quiet (.silent rfl rfl rfl) rfl rfl
    · rw [hout]
      refine responds_quiet (.silent rfl rfl rfl) ?_ rfl
      show ((a.eraseInbound f.key).link.inbound.get? f.key).map Assembly.timeless = none
      rw [get?_eraseInbound_self]
      rfl
  · rw [handleBundle]
    split
    · exact responds_quiet (.silent rfl rfl rfl) rfl rfl
    · obtain ⟨d, hd⟩ := hample 0 (Nat.zero_le _)
      obtain ⟨lag, hlag, -⟩ := exists_lag hd
      rw [hlag]
      cases hget : a.link.inbound.get? f.key with
      | none =>
        dsimp only
        rw [hd]
        exact responds_assemble haccepts hlayout hample (.empty f.key now d)
      | some asm =>
        dsimp only [Option.map_some]
        have hcomplete : asm.timeless.complete = asm.complete := rfl
        have hacked : asm.timeless.acked = asm.acked := rfl
        rw [hcomplete, hacked]
        cases hopen : asm.complete with
        | true =>
          rw [if_pos rfl, if_pos rfl]
          split
          · have hsent := responds_answer (k := f.key) (f := .ack f.key) haccepts hlayout .ack rfl
              rfl
            rw [hget] at hsent
            exact hsent
          · exact responds_quiet (.silent rfl rfl rfl) (by rw [hget]; rfl) rfl
        | false =>
          rw [if_neg Bool.false_ne_true, if_neg Bool.false_ne_true]
          exact (responds_assemble (a := a.eraseInbound f.key) haccepts hlayout hample
            ((hregular asm hget).filled hopen)).after_silence (.silent rfl rfl rfl) rfl

end Attached

end BundleLink
