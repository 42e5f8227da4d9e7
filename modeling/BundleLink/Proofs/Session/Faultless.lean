import BundleLink.Proofs.Loops
import BundleLink.Proofs.Reassembly.Still
import BundleLink.Proofs.Session.Entries

/-!
# No fragment causes a fault

Some operations are possible only for some operands: a slot that is looked at has to be there, and
the fragments present must not be more than all of them. Others fault: a lag, a deadline or a count
may be beyond its limit. Whatever fragments arrive, in whatever order, nothing impossible is asked
of regular entries, and no operation faults as long as the lags leave room.

* `Demand`             an operation with its operands, and `Demand.Met` whether it is possible;
* `Attached.demands`   those of one receive;
* `Link.Regular`       all inbound entries are regular;
* `Attached.Sustains`  the lags during one receive leave room;
* `handle_met`, `handle_faultless`  one fragment;
* `handleAll_along`    an invariant of one fragment, for all of them;
* `Underway`           what is known after some fragments;
* `receiveBundles_faultless`, `demands_met`  one receive.
-/

namespace BundleLink

/-! ## operations that not all operands allow -/

inductive Demand where
  /-- slot `i` of `size` slots is looked at -/
  | slot (i size : Nat)
  /-- the fragments present are taken off all of them -/
  | rest (present all : Nat)
  deriving DecidableEq, Repr

def Demand.Met : Demand → Prop
  | .slot i size => i < size
  | .rest present all => present ≤ all

namespace Assembly

/-- to count what is missing -/
def countDemands (a : Assembly) : List Demand :=
  a.declared.toList.map fun n => .rest a.present (n + 1)

/-- to insert a fragment, and to count what is missing if it was added -/
def insertDemands (a : Assembly) (f : Fragment) : List Demand :=
  match a.insert f with
  | (.invalid _, _) => []
  | (.duplicate, _) => [.slot f.slot (extend a.slots f.slot).size]
  | (.added, b) => .slot f.slot (extend a.slots f.slot).size :: b.countDemands

variable {k : Key} {a : Assembly} {f : Fragment}

/-- no more fragments are present than there are slots -/
theorem Filled.countDemands_met (h : Filled k a) : ∀ d ∈ a.countDemands, d.Met := by
  intro d hd
  obtain ⟨n, hn, rfl⟩ := List.mem_map.mp hd
  have hsize := (h.declared n (Option.mem_toList.mp hn)).2
  have hcount : a.slots.countP Option.isSome ≤ a.slots.size := Array.countP_le_size
  rw [← h.present] at hcount
  exact Nat.le_trans hcount hsize

theorem Filled.insertDemands_met (h : Filled k a) (hkey : f.key = k) :
    ∀ d ∈ a.insertDemands f, d.Met := by
  have hslot : (Demand.slot f.slot (extend a.slots f.slot).size).Met :=
    lt_size_extend a.slots f.slot
  rw [insertDemands]
  split
  · exact List.forall_mem_nil _
  · exact List.forall_mem_singleton.mpr hslot
  · rename_i b hinsert
    exact List.forall_mem_cons.mpr ⟨hslot, (h.insert_added hkey hinsert).1.countDemands_met⟩

end Assembly

namespace Link

/-- All entries of the inbound table are regular. -/
def Regular (l : Link) : Prop := ∀ k asm, l.inbound.get? k = some asm → asm.Regular k

/-- The lag is known, and no deadline and no patience is beyond the limits. -/
def Bears (now : Moment) (l : Link) : Prop := ∃ lag, l.lag = .ok lag ∧ l.Bearable now lag

instance (now : Moment) (l : Link) : Decidable (l.Bears now) :=
  match hl : l.lag with
  | .ok lag =>
    if hb : l.Bearable now lag then isTrue ⟨lag, hl, hb⟩
    else isFalse fun ⟨_, hlag, hb'⟩ => hb (Except.ok.inj (hl.symm.trans hlag) ▸ hb')
  | .error _ => isFalse fun ⟨_, hlag, _⟩ => nomatch hl.symm.trans hlag

variable {l l' : Link} {now : Moment}

theorem Bears.congr (h : l.Bears now) (hframe : l'.frame = l.frame) : l'.Bears now := by
  obtain ⟨lag, hlag, hbearable⟩ := h
  have hsettings : l'.settings = l.settings := by
    have hsame := congrArg Link.settings hframe
    exact hsame
  have hsame := congrArg Link.lag hframe
  replace hsame : l'.lag = l.lag := hsame
  refine ⟨lag, hsame.trans hlag, ?_⟩
  rw [Bearable, hsettings]
  exact hbearable

theorem Bears.lag (h : l.Bears now) : ∃ lag, l.lag = .ok lag := by
  obtain ⟨lag, hlag, -⟩ := h
  exact ⟨lag, hlag⟩

theorem Bears.deadline (h : l.Bears now) {missing : Nat}
    (hmissing : missing ≤ Fragment.maxCount + 1) : ∃ d, l.deadline now missing = .ok d := by
  obtain ⟨lag, hlag, hspan, -, hmoment⟩ := h
  exact exists_deadline hlag hspan hmoment hmissing

theorem Bears.patience (h : l.Bears now) : ∃ d, l.patience = .ok d := by
  obtain ⟨lag, hlag, -, hspan, -⟩ := h
  rw [Link.patience, hlag]
  exact ⟨_, Span.times_of_lt hspan⟩

theorem frame_of_core (h : l'.core = l.core) : l'.frame = l.frame := by
  rw [frame, frame, h]

end Link

namespace Attached

section

variable {σ : Type}

/-- to handle a fragment -/
def handleDemands (now : Moment) (f : Fragment) (a : Attached σ) : List Demand :=
  if f.isControl ∨ (f.number = 0 ∧ f.length ≤ 0) then []
  else
    match a.link.inbound.get? f.key with
    | some assembly => if assembly.complete then [] else assembly.insertDemands f
    | none => (Assembly.empty now now).insertDemands f

/-- to drop bundles that are overdue: what they miss is counted for the warning -/
def purgeDemands (now : Moment) (a : Attached σ) : List Demand :=
  a.link.inbound.entries.flatMap fun e =>
    if isOverdue a.link.settings now e.2 && !e.2.complete then e.2.countDemands else []

/-- all that one receive asks for -/
def demands [Channel σ] (now : Moment) (a : Attached σ) : List Demand :=
  a.during (handleDemands now) now ++
    if a.link.connected then
      match fillRaw a with
      | .error _ _ => []
      | .ok _ b =>
        match takeApart now b with
        | .error _ _ => []
        | .ok _ c => c.purgeDemands now
    else []

variable {a : Attached σ} {f : Fragment} {now : Moment}

/-- Every fragment can be handled, whatever it claims to be. -/
theorem handle_met (h : a.link.Regular) (f : Fragment) (now : Moment) :
    ∀ d ∈ a.handleDemands now f, d.Met := by
  rw [handleDemands]
  split
  · exact List.forall_mem_nil _
  · split
    · rename_i asm hget
      cases hopen : asm.complete with
      | true => exact List.forall_mem_nil _
      | false => exact ((h f.key asm hget).filled hopen).insertDemands_met rfl
    · exact (Assembly.Filled.empty f.key now now).insertDemands_met rfl

theorem purge_met (h : a.link.Regular) (now : Moment) : ∀ d ∈ a.purgeDemands now, d.Met := by
  intro d hd
  obtain ⟨⟨k, asm⟩, hmem, hd⟩ := List.mem_flatMap.mp hd
  split at hd
  · rename_i hoverdue
    have hopen : asm.complete = false := by simpa using (Bool.and_eq_true_iff.mp hoverdue).2
    exact ((h k asm (Table.get?_of_mem hmem)).filled hopen).countDemands_met d hd
  · cases hd

end

/-! ## arrivals -/

section

variable {σ : Type} {a b : Attached σ} {now : Moment}

/-- the arrival of `n` fragments, and nothing else -/
def arrivals (now : Moment) : Nat → Attached σ → Attached σ
  | 0, a => a
  | n + 1, a => (arrivals now n a).arrived now

/-- While up to `count` fragments arrive, the lag leaves room. -/
def Sustains (now : Moment) (count : Nat) (a : Attached σ) : Prop :=
  ∀ n, n ≤ count → (arrivals now n a).link.Bears now

instance (now : Moment) (count : Nat) (a : Attached σ) : Decidable (a.Sustains now count) :=
  inferInstanceAs (Decidable (∀ n, n ≤ count → _))

/-- What is left after `n` fragments were handled, whatever they were. -/
structure Underway (now : Moment) (start : Attached σ) (n : Nat) (a : Attached σ) : Prop where
  core : a.link.core = (arrivals now n start).link.core
  regular : a.link.Regular

/-- the arrival of a fragment concerns nothing but gaps, moments and traffic -/
theorem core_arrived (h : a.link.core = b.link.core) :
    (a.arrived now).link.core = (b.arrived now).link.core := by
  have hcore := congrArg (fun l => (({ a with link := l } : Attached σ).arrived now).link.core) h
  exact hcore

theorem frame_arrived (h : a.link.frame = b.link.frame) :
    (a.arrived now).link.frame = (b.arrived now).link.frame := by
  have hframe :=
    congrArg (fun l => (({ a with link := l } : Attached σ).arrived now).link.frame) h
  exact hframe

theorem frame_arrivals (h : a.link.frame = b.link.frame) (n : Nat) :
    (arrivals now n a).link.frame = (arrivals now n b).link.frame := by
  induction n with
  | zero => exact h
  | succ n ih => exact frame_arrived ih

/-- What is the same however many fragments have arrived. -/
theorem kept_of_arrivals {n : Nat} (h : b.link.core = (arrivals now n a).link.core) :
    b.link.raw = a.link.raw ∧ b.link.layout = a.link.layout ∧
      b.link.settings = a.link.settings ∧ b.link.connected = a.link.connected := by
  have hkept : (arrivals now n a).link.raw = a.link.raw ∧
      (arrivals now n a).link.layout = a.link.layout ∧
      (arrivals now n a).link.settings = a.link.settings ∧
      (arrivals now n a).link.connected = a.link.connected := by
    clear h
    induction n with
    | zero => exact ⟨rfl, rfl, rfl, rfl⟩
    | succ n ih => exact ih
  obtain ⟨hraw, hlayout, hsettings, hconnected⟩ := hkept
  refine ⟨?_, (layout_of_core h).trans hlayout, ?_, (connected_of_core h).trans hconnected⟩
  · have hcore := congrArg Link.raw h
    exact Eq.trans hcore hraw
  · have hcore := congrArg Link.settings h
    exact Eq.trans hcore hsettings

end

/-! ## faults -/

variable {σ : Type} [Channel σ] {a b start : Attached σ} {f : Fragment} {now : Moment}

/-- a failure that is no fault -/
def Mild (e : Failure LinkError) : Prop := ∃ x, e = .error x

/-- The operation does not fault. -/
abbrev Faultless {α : Type} (r : Outcome σ α) : Prop := r.Meets (fun _ _ => True) fun e _ => Mild e

theorem transmit_faultless (f : Fragment) (a : Attached σ) : Faultless (transmit f a) := by
  rw [transmit]
  dsimp only
  split
  · exact ⟨_, rfl⟩
  · trivial

theorem flush_faultless (a : Attached σ) : Faultless (flush a) := by
  rw [flush]
  split
  · exact ⟨_, rfl⟩
  · trivial

theorem answer_faultless (f : Fragment) (a : Attached σ) : Faultless (answer f a) := by
  have hsent := transmit_faultless f a
  rw [answer]
  generalize transmit f a = r at hsent
  cases r with
  | ok _ b => exact flush_faultless b
  | error e b => exact hsent

theorem reject_faultless (k : Key) (why : Rejection) (a : Attached σ) :
    Faultless (reject k why a) := by
  rw [reject]
  split
  · exact answer_faultless _ _
  · trivial

theorem finish_faultless (k : Key) (asm : Assembly) (a : Attached σ) :
    Faultless (finish k asm a) := by
  rw [finish, Assembly.release]
  dsimp only
  split
  · rename_i hjoin
    exact absurd hjoin (Bundle.join_ne_fault _ _)
  · exact reject_faultless _ _ _
  · have hanswered := answer_faultless (.ack k) (a.putInbound k
      { asm with slots := #[], present := 0, complete := true })
    split
    · rename_i hr
      rw [hr] at hanswered
      exact hanswered
    · trivial

/-- what is missing after a fragment was added is no more than there can be -/
theorem missing_le {k : Key} {asm : Assembly} (h : asm.Filled k) :
    asm.missing.getD 0 ≤ Fragment.maxCount + 1 := by
  have hle := h.declared_le
  rw [Assembly.missing]
  cases hn : asm.declared with
  | none => exact Nat.zero_le _
  | some n =>
    rw [hn] at hle
    replace hle : n ≤ Fragment.maxCount := hle
    show n + 1 - asm.present ≤ _
    omega

theorem assemble_faultless {asm : Assembly} (h : asm.Filled f.key) (hlags : a.link.Bears now) :
    Faultless (assemble f.key f now asm a) := by
  rw [assemble]
  split
  · trivial
  · exact reject_faultless _ _ _
  · rename_i grown hinserted
    obtain ⟨d, hd⟩ := hlags.deadline (missing_le (h.insert_added rfl hinserted).1)
    rw [hd]
    dsimp only
    split
    · exact finish_faultless _ _ _
    · trivial

theorem handleControl_faultless (f : Fragment) (a : Attached σ) :
    Faultless (handleControl f a) := by
  rw [handleControl]
  dsimp only
  split
  · trivial
  · split
    · exact answer_faultless _ _
    · trivial

/-- No fragment causes a fault, as long as the lag leaves room. -/
theorem handle_faultless (h : a.link.Regular) (hlags : a.link.Bears now) (f : Fragment) :
    Faultless (handle f now a) := by
  rw [handle]
  split
  · exact handleControl_faultless f a
  · rw [handleBundle]
    split
    · trivial
    · obtain ⟨lag, hlag⟩ := hlags.lag
      rw [hlag]
      dsimp only
      cases hget : a.link.inbound.get? f.key with
      | some asm =>
        dsimp only
        cases hopen : asm.complete with
        | true =>
          rw [if_pos rfl]
          split
          · exact answer_faultless _ _
          · trivial
        | false =>
          rw [if_neg Bool.false_ne_true]
          exact assemble_faultless (a := a.eraseInbound f.key)
            ((h f.key asm hget).filled hopen) (hlags.congr rfl)
      | none =>
        obtain ⟨d, hd⟩ := hlags.deadline (Nat.zero_le _)
        rw [hd]
        exact assemble_faultless (.empty f.key now d) hlags

/-! ## all fragments of a receive -/

/-- A fragment leaves the entries regular, and the rest of the link as it was. -/
theorem handle_regular (h : a.link.Regular) (f : Fragment) (now : Moment) :
    (handle f now a).Meets (fun _ b => b.link.core = a.link.core ∧ b.link.Regular)
      fun e b => b.link.core = a.link.core ∧ e.Breaks := by
  refine (handle_changes f now a).imp ?_ fun e b hb => ⟨hb.core, hb.breaks⟩
  rintro _ b ⟨bundle, hb⟩
  refine ⟨hb.core, fun k asm hk => ?_⟩
  by_cases hkey : k = f.key
  · subst hkey
    rcases hb.change.entry (fun asm hasm => h f.key asm hasm) hk with hold | ⟨hnew, -⟩
    · exact h f.key asm hold
    · exact hnew
  · exact h k asm ((hb.others k hkey).symm.trans hk)

/-- What one fragment preserves, and what is told of it, for all fragments among pieces: the
invariant counts those that have arrived. -/
theorem handleAll_along {α : Type} (tell : Fragment → Attached σ → List α) (P : α → Prop)
    (I : Nat → Attached σ → Prop) (E : Failure LinkError → Attached σ → Prop) {limit : Nat}
    (warned : ∀ n a w, I n a → I n (a.warn w))
    (told : ∀ n a f, n < limit → I n a → ∀ x ∈ tell f (a.arrived now), P x)
    (handled : ∀ n a f, n < limit → I n a →
      (handle f now (a.arrived now)).Meets (fun _ b => I (n + 1) b) E)
    (ps : List Wire.Piece) {n : Nat} (count : Nat) (h : I n a)
    (hlimit : n + (Wire.fragments ps).length ≤ limit) :
    (∀ x ∈ along tell now ps a, P x) ∧
      (handleAll now count ps a).Meets
        (fun m b => m = count + (Wire.fragments ps).length ∧ I (n + (Wire.fragments ps).length) b)
        E := by
  induction ps generalizing a n count with
  | nil => exact ⟨List.forall_mem_nil _, rfl, h⟩
  | cons p ps ih =>
    cases p with
    | skipped size flaw => exact ih count (warned n a _ h) hlimit
    | fragment f size =>
      have hcount : (Wire.fragments (.fragment f size :: ps)).length =
          (Wire.fragments ps).length + 1 := rfl
      rw [hcount] at hlimit ⊢
      have htold := told n a f (by omega) h
      have hone := handled n a f (by omega) h
      rw [along, handleAll]
      generalize handle f now (a.arrived now) = r at hone
      cases r with
      | error e b =>
        exact ⟨List.forall_mem_append.mpr ⟨htold, List.forall_mem_nil _⟩, hone⟩
      | ok _ b =>
        obtain ⟨hlater, hall⟩ := ih (count + 1) hone (by omega)
        refine ⟨List.forall_mem_append.mpr ⟨htold, hlater⟩,
          hall.imp (fun m c hc => ⟨?_, ?_⟩) fun _ _ hc => hc⟩
        · rw [hc.1]
          omega
        · rw [show n + ((Wire.fragments ps).length + 1) = n + 1 + (Wire.fragments ps).length by
            omega]
          exact hc.2

theorem Underway.handle {n : Nat} (h : Underway now start n a) (f : Fragment) :
    (handle f now (a.arrived now)).Meets (fun _ b => Underway now start (n + 1) b)
      fun e b => b.link.core = (a.arrived now).link.core ∧ e.Breaks := by
  refine (handle_regular (a := a.arrived now) h.regular f now).imp (fun _ b hb => ⟨?_, hb.2⟩)
    fun e b hb => hb
  exact hb.1.trans (core_arrived h.core)

theorem frame_loaded (a : Attached σ) : a.loaded.link.frame = a.link.frame := rfl

/-- what is known of the link when the handling starts -/
theorem underway_loaded (h : a.link.Regular) (now : Moment) : Underway now a.loaded 0 a.loaded :=
  ⟨rfl, h⟩

theorem handleAll_underway (h : a.link.Regular) (now : Moment) :
    (∀ d ∈ along (handleDemands now) now a.pieces a.loaded, d.Met) ∧
      (handleAll now 0 a.pieces a.loaded).Meets
        (fun m b => m = (Wire.fragments a.pieces).length ∧ Underway now a.loaded m b)
        fun e b => e.Breaks ∧ ∃ n, b.link.core = (arrivals now n a.loaded).link.core := by
  obtain ⟨htold, hall⟩ := handleAll_along (handleDemands now) Demand.Met (Underway now a.loaded)
    (fun e b => e.Breaks ∧ ∃ n, b.link.core = (arrivals now n a.loaded).link.core)
    (fun n b w hb => ⟨hb.core, hb.regular⟩)
    (fun n b f _ hb => handle_met (a := b.arrived now) hb.regular f now)
    (fun n b f _ hb => (hb.handle f).imp (fun _ _ hc => hc) fun e c hc =>
      ⟨hc.2, n + 1, hc.1.trans (core_arrived hb.core)⟩)
    a.pieces 0 (underway_loaded h now) (Nat.le_refl _)
  refine ⟨htold, hall.imp (fun m b hb => ?_) fun _ _ hb => hb⟩
  obtain ⟨hm, hb⟩ := hb
  rw [Nat.zero_add] at hm hb
  exact ⟨hm, hm ▸ hb⟩

theorem handleAll_faultless (h : a.link.Regular)
    (hsustains : a.Sustains now (Wire.fragments a.pieces).length) :
    Faultless (handleAll now 0 a.pieces a.loaded) := by
  rw [← Nat.zero_add (Wire.fragments a.pieces).length] at hsustains
  refine (handleAll_along (fun _ _ => ([] : List Unit)) (fun _ => True) (Underway now a.loaded)
    (fun e _ => Mild e) (fun n b w hb => ⟨hb.core, hb.regular⟩) (fun _ _ _ _ _ => List.forall_mem_nil _)
    (fun n b f hn hb => ?_) a.pieces 0 (underway_loaded h now) (Nat.le_refl _)).2.imp
    (fun _ _ _ => trivial) fun _ _ hb => hb
  -- the lag is that after one fragment more
  have hframe : (b.arrived now).link.frame = (arrivals now (n + 1) a.loaded).link.frame :=
    Link.frame_of_core (core_arrived hb.core)
  rw [frame_arrivals (frame_loaded a)] at hframe
  have hlags := (hsustains (n + 1) hn).congr hframe
  have hfaultless := handle_faultless (a := b.arrived now) hb.regular hlags f
  have hone := hb.handle f
  generalize BundleLink.Attached.handle f now (b.arrived now) = r at hfaultless hone
  cases r with
  | ok _ c => exact hone
  | error e c => exact hfaultless

omit [Channel σ] in
/-- Without a fragment, the patience has to be within its limits, and so has the count. -/
theorem conclude_faultless (ended : Bool) {count : Nat}
    (h : 0 < count ∨ (a.link.Bears now ∧ a.link.timeouts < Link.maxTimeoutCount)) :
    Faultless (conclude now ended count a) := by
  rw [conclude]
  dsimp only
  split
  · exact ⟨_, rfl⟩
  · split
    · trivial
    · rename_i hcount
      obtain ⟨hbears, htimeouts⟩ := h.resolve_left hcount
      split
      · have hpurged : (a.purge now).link.Bears now := hbears.congr rfl
        obtain ⟨d, hd⟩ := hpurged.patience
        have hpatience : ((a.purge now).link.lag >>= fun lag =>
            lag.times (a.purge now).link.settings.timeoutMultiplier) = .ok d := hd
        have hroom : ¬ Link.maxTimeoutCount ≤ (a.purge now).link.timeouts :=
          Nat.not_le.mpr htimeouts
        rw [checkTimeout, hpatience]
        dsimp only
        split
        · trivial
        · split
          · exact ⟨_, rfl⟩
          · trivial
      · trivial

/-- A receive does not fault as long as the lags leave room and the timeouts can be counted. -/
theorem receiveBundles_faultless (h : a.link.Regular) (hsustains : a.Sustains now a.hears.length)
    (htimeouts : a.link.timeouts < Link.maxTimeoutCount) : Faultless (receiveBundles now a) := by
  cases hended : a.intake.ended with
  | error e =>
    rw [receiveBundles_failed hended]
    exact ⟨_, rfl⟩
  | ok ended =>
    have hhears : a.hears = Wire.fragments a.pieces := by rw [hears, hended]
    rw [hhears] at hsustains
    have hfaultless := handleAll_faultless h hsustains
    have hunderway := (handleAll_underway h now).2
    cases hall : handleAll now 0 a.pieces a.loaded with
    | error e b =>
      rw [receiveBundles_broken hended hall]
      rw [hall] at hfaultless
      exact hfaultless
    | ok count b =>
      rw [receiveBundles_handled hended hall]
      rw [hall] at hunderway
      obtain ⟨rfl, hb⟩ := hunderway
      refine conclude_faultless ended ?_
      rcases Nat.eq_zero_or_pos (Wire.fragments a.pieces).length with hzero | hpos
      · rw [hzero] at hb
        have htimes := congrArg Link.timeouts hb.core
        replace htimes : b.link.timeouts = a.link.timeouts := htimes
        have hframe := (Link.frame_of_core hb.core).trans (frame_loaded a)
        refine .inr ⟨(hsustains 0 (Nat.zero_le _)).congr hframe, ?_⟩
        rw [htimes]
        exact htimeouts
      · exact .inl hpos

/-- Nothing impossible is asked for in a receive. -/
theorem demands_met (h : a.link.Regular) (now : Moment) : ∀ d ∈ a.demands now, d.Met := by
  obtain ⟨htold, hall⟩ := handleAll_underway h now
  rw [demands, during]
  by_cases hopen : a.link.connected = true
  · rw [if_pos hopen, if_pos hopen]
    cases hended : a.intake.ended with
    | error e =>
      rw [fillRaw_error hended]
      exact List.forall_mem_nil _
    | ok ended =>
      rw [fillRaw_ok hended]
      refine List.forall_mem_append.mpr ⟨htold, ?_⟩
      have htake : takeApart now a.filled = handleAll now 0 a.pieces a.loaded := rfl
      dsimp only
      rw [htake]
      cases hr : handleAll now 0 a.pieces a.loaded with
      | error e b => exact List.forall_mem_nil _
      | ok count b =>
        rw [hr] at hall
        exact purge_met hall.2.regular now
  · rw [if_neg hopen, if_neg hopen]
    exact List.forall_mem_nil _

end Attached

end BundleLink
