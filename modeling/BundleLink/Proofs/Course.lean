import BundleLink.Proofs.Receiving

/-!
# The course of messages from one end to the other

In one direction of a memory channel travels a sequence of messages, each of them a bundle or an
ack. The receiving end has handled all fragments of some of them and a part of the next one.

* `Message`     a bundle with its fragments, or an ack;
* `Cursor`      how far the first one of the pending messages was handled;
* `Course`      which messages are pending, and what is known of their keys;
* `Assembled`   what the receiving end holds of them;
* `Course.next` the next fragment belongs to the first pending message;
* `Assembled.purge`  the bundle that was worked on last survives the look at the clock.

Keys tell bundles apart: those of one sender get ever greater message numbers, and an ack in front
of a bundle is for another key.
-/

namespace BundleLink

/-! ## messages -/

inductive Message where
  | bundle (k : Key) (buffer : Bytes) (parts : List Fragment)
  | ack (k : Key)

namespace Message

def key : Message → Key
  | .bundle k _ _ => k
  | .ack k => k

def fragments : Message → List Fragment
  | .bundle _ _ parts => parts
  | .ack k => [.ack k]

/-- what the message delivers -/
def buffers : Message → List Bytes
  | .bundle _ buffer _ => [buffer]
  | .ack _ => []

def Proper (layout : Layout) : Message → Prop
  | .bundle k buffer parts => k.isProper = true ∧ Bundle.Parts layout k buffer parts
  | .ack k => k.isProper = true

theorem fits_ack (layout : Layout) (k : Key) : (Fragment.ack k).Fits layout :=
  ⟨Fragment.wellFormed_header _ _ _ _, fun _ => rfl⟩

/-- the fragments of the message are those of a bundle, or it is an ack for any key -/
def Intact (layout : Layout) : Message → Prop
  | .bundle k buffer parts => Bundle.Parts layout k buffer parts
  | .ack _ => True

theorem Intact.fits {layout : Layout} {m : Message} (h : m.Intact layout) :
    ∀ f ∈ m.fragments, f.Fits layout := by
  cases m with
  | bundle k buffer parts => exact Bundle.Parts.fits h
  | ack k =>
    intro f hf
    rw [List.mem_singleton.mp hf]
    exact fits_ack layout k

theorem Intact.fragments_ne {layout : Layout} {m : Message} (h : m.Intact layout) :
    m.fragments ≠ [] := by
  cases m with
  | bundle k buffer parts =>
    intro h0
    have h2 := Bundle.Parts.two_le h
    have hnil : parts = [] := h0
    rw [hnil] at h2
    exact absurd h2 (by decide)
  | ack k => exact List.cons_ne_nil _ _

theorem Intact.key {layout : Layout} {m : Message} (h : m.Intact layout) :
    ∀ f ∈ m.fragments, f.key = m.key := by
  cases m with
  | bundle k buffer parts => exact Bundle.Parts.key h
  | ack k =>
    intro f hf
    rw [List.mem_singleton.mp hf]
    rfl

theorem Proper.intact {layout : Layout} {m : Message} (h : m.Proper layout) :
    m.Intact layout := by
  cases m with
  | bundle k buffer parts => exact h.2
  | ack k => trivial

end Message

/-! ## one fragment after the other -/

/-- Of the first one of the messages `pending` the fragments `seen` were handled already, and `todo`
are all fragments still to be handled. -/
structure Cursor (pending : List Message) (seen todo : List Fragment) : Prop where
  split : seen ++ todo = pending.flatMap Message.fragments
  begun : ∀ m, pending.head? = some m → seen.length < m.fragments.length

namespace Cursor

variable {pending ms sent : List Message} {m : Message} {seen todo rest more : List Fragment}
  {f : Fragment}

theorem empty : Cursor [] [] [] := ⟨rfl, fun _ hm => (nomatch hm)⟩

theorem seen_nil (h : Cursor [] seen todo) : seen = [] := (List.append_eq_nil_iff.mp h.split).1

theorem pending_nil (h : Cursor pending seen []) : pending = [] ∧ seen = [] := by
  cases pending with
  | nil => exact ⟨rfl, h.seen_nil⟩
  | cons m ms =>
    have hlt := h.begun m rfl
    have hlen := congrArg List.length h.split
    rw [List.append_nil, List.flatMap_cons, List.length_append] at hlen
    omega

/-- the next fragment is one of the first pending message -/
theorem next (h : Cursor pending seen (f :: rest)) :
    ∃ m ms more, pending = m :: ms ∧ m.fragments = seen ++ f :: more ∧
      rest = more ++ ms.flatMap Message.fragments := by
  cases pending with
  | nil => exact absurd h.split (by simp)
  | cons m ms =>
    have hlt := h.begun m rfl
    have hsplit : seen ++ f :: rest = m.fragments ++ ms.flatMap Message.fragments := h.split
    rcases List.append_eq_append_iff.mp hsplit with ⟨as, h1, h2⟩ | ⟨bs, h1, h2⟩
    · cases as with
      | nil =>
        rw [h1, List.append_nil] at hlt
        exact absurd hlt (Nat.lt_irrefl _)
      | cons g more =>
        obtain ⟨rfl, hrest⟩ := List.cons.inj h2
        exact ⟨m, ms, more, rfl, h1, hrest⟩
    · have hlen := congrArg List.length h1
      rw [List.length_append] at hlen
      omega

/-- one more fragment of the first pending message, but not its last one -/
theorem further (h : Cursor (m :: ms) seen (f :: rest)) (hm : m.fragments = seen ++ f :: more)
    (hmore : more ≠ []) : Cursor (m :: ms) (seen ++ [f]) rest := by
  constructor
  · rw [← h.split]
    simp
  · intro m' hm'
    rw [← Option.some.inj hm', hm]
    have hpos := List.length_pos_iff.mpr hmore
    simp only [List.length_append, List.length_cons, List.length_nil]
    omega

/-- the last fragment of the first pending message -/
theorem done (h : Cursor (m :: ms) seen (f :: rest)) (hm : m.fragments = seen ++ [f])
    (hne : ∀ m' ∈ ms, m'.fragments ≠ []) : Cursor ms [] rest := by
  constructor
  · have hsplit := h.split
    rw [List.flatMap_cons, hm, List.append_assoc] at hsplit
    exact (List.cons.inj (List.append_cancel_left hsplit)).2
  · intro m' hm'
    exact List.length_pos_iff.mpr (hne m' (List.mem_of_head? hm'))

theorem append (h : Cursor pending seen todo) (hne : ∀ m ∈ sent, m.fragments ≠ []) :
    Cursor (pending ++ sent) seen (todo ++ sent.flatMap Message.fragments) := by
  constructor
  · rw [List.flatMap_append, ← h.split, List.append_assoc]
  · intro m hm
    cases pending with
    | nil =>
      rw [h.seen_nil]
      exact List.length_pos_iff.mpr (hne m (List.mem_of_head? hm))
    | cons m' ms => exact h.begun m hm

end Cursor

/-! ## courses -/

/-- The messages `pending` are still to be handled, of the first one the fragments `seen` were
handled already, and `todo` are all fragments still to be handled. The sender has the generations
`own` and has given its bundles the message numbers below `n`; it accepted the buffers `accepted`,
and `delivered` are those that the receiver put into its queue. -/
structure Course (own : UInt64 → Prop) (layout : Layout) (n : UInt64)
    (accepted delivered : List Bytes) (pending : List Message) (seen todo : List Fragment) :
    Prop where
  split : seen ++ todo = pending.flatMap Message.fragments
  begun : ∀ m, pending.head? = some m → seen.length < m.fragments.length
  proper : ∀ m ∈ pending, m.Proper layout
  numbered : ∀ m ∈ pending, own m.key.generation → m.key.message < n
  owned : ∀ k buffer parts, .bundle k buffer parts ∈ pending → own k.generation
  distinct : pending.Pairwise fun m m' =>
    ∀ k buffer parts, m' = .bundle k buffer parts → m.key ≠ k
  accounts : accepted = delivered ++ pending.flatMap Message.buffers

/-- What the receiver's table holds of the pending bundles are the fragments that were handled, and
all its entries are for bundles that were given a number. -/
structure Assembled (n : UInt64) (inbound : Table Key Assembly) (pending : List Message)
    (seen : List Fragment) : Prop where
  numbered : ∀ k asm, inbound.get? k = some asm → k.message < n
  partly : ∀ k buffer parts, .bundle k buffer parts ∈ pending →
    Attached.Partial parts seen (inbound.get? k)

/-- the bundle that was worked on last was worked on just now -/
def Recent (now : Moment) (inbound : Table Key Assembly) (pending : List Message)
    (seen : List Fragment) : Prop :=
  ∀ k buffer parts asm, pending.head? = some (.bundle k buffer parts) → seen ≠ [] →
    inbound.get? k = some asm → asm.lastArrival = now

namespace Course

variable {own : UInt64 → Prop} {layout : Layout} {n : UInt64} {accepted delivered : List Bytes}
  {pending ms : List Message} {m : Message} {seen todo rest more : List Fragment} {f : Fragment}

theorem empty (own : UInt64 → Prop) (layout : Layout) (n : UInt64) (accepted : List Bytes) :
    Course own layout n accepted accepted [] [] [] :=
  ⟨rfl, fun _ hm => (nomatch hm), fun _ hm => (nomatch hm), fun _ hm => (nomatch hm),
    fun _ _ _ hm => (nomatch hm), List.Pairwise.nil, (List.append_nil _).symm⟩

theorem fits (h : Course own layout n accepted delivered pending seen todo) :
    ∀ f ∈ todo, f.Fits layout := by
  intro f hf
  have hmem : f ∈ pending.flatMap Message.fragments := by
    rw [← h.split]
    exact List.mem_append_right seen hf
  obtain ⟨m, hm, hfm⟩ := List.mem_flatMap.mp hmem
  exact (h.proper m hm).intact.fits f hfm

theorem isPrefix (h : Course own layout n accepted delivered pending seen todo) :
    delivered <+: accepted := ⟨_, h.accounts.symm⟩

theorem cursor (h : Course own layout n accepted delivered pending seen todo) :
    Cursor pending seen todo := ⟨h.split, h.begun⟩

theorem pending_nil (h : Course own layout n accepted delivered pending seen []) :
    pending = [] ∧ seen = [] := h.cursor.pending_nil

theorem next (h : Course own layout n accepted delivered pending seen (f :: rest)) :
    ∃ m ms more, pending = m :: ms ∧ m.fragments = seen ++ f :: more ∧
      rest = more ++ ms.flatMap Message.fragments := h.cursor.next

/-- one more fragment of the first pending message, but not its last one -/
theorem further (h : Course own layout n accepted delivered (m :: ms) seen (f :: rest))
    (hm : m.fragments = seen ++ f :: more) (hmore : more ≠ []) :
    Course own layout n accepted delivered (m :: ms) (seen ++ [f]) rest := by
  obtain ⟨hsplit, hbegun⟩ := h.cursor.further hm hmore
  exact ⟨hsplit, hbegun, h.proper, h.numbered, h.owned, h.distinct, h.accounts⟩

/-- the last fragment of the first pending message -/
theorem done (h : Course own layout n accepted delivered (m :: ms) seen (f :: rest))
    (hm : m.fragments = seen ++ [f]) :
    Course own layout n accepted (delivered ++ m.buffers) ms [] rest := by
  obtain ⟨hsplit, hbegun⟩ := h.cursor.done hm fun m' hm' =>
    (h.proper m' (List.mem_cons_of_mem m hm')).intact.fragments_ne
  refine ⟨hsplit, hbegun, fun m' hm' => h.proper m' (List.mem_cons_of_mem m hm'),
    fun m' hm' => h.numbered m' (List.mem_cons_of_mem m hm'),
    fun k b p hk => h.owned k b p (List.mem_cons_of_mem m hk),
    (List.pairwise_cons.mp h.distinct).2, ?_⟩
  rw [h.accounts, List.flatMap_cons, List.append_assoc]

/-- more is pending: what a peer sends behind everything else -/
theorem append (h : Course own layout n accepted delivered pending seen todo)
    {sent : List Message} {n' : UInt64} {accepted' : List Bytes} (hn : n ≤ n')
    (hproper : ∀ m ∈ sent, m.Proper layout)
    (hnumbered : ∀ m ∈ sent, own m.key.generation → m.key.message < n')
    (howned : ∀ k buffer parts, .bundle k buffer parts ∈ sent → own k.generation ∧ n ≤ k.message)
    (hdistinct : sent.Pairwise fun m m' =>
      ∀ k buffer parts, m' = .bundle k buffer parts → m.key ≠ k)
    (haccepted : accepted' = accepted ++ sent.flatMap Message.buffers) :
    Course own layout n' accepted' delivered (pending ++ sent) seen
      (todo ++ sent.flatMap Message.fragments) := by
  obtain ⟨hsplit, hbegun⟩ := h.cursor.append fun m hm => (hproper m hm).intact.fragments_ne
  refine ⟨hsplit, hbegun, ?_, ?_, ?_, ?_, ?_⟩
  · intro m hm
    rcases List.mem_append.mp hm with hm | hm
    · exact h.proper m hm
    · exact hproper m hm
  · intro m hm hown
    rcases List.mem_append.mp hm with hm | hm
    · exact UInt64.lt_of_lt_of_le (h.numbered m hm hown) hn
    · exact hnumbered m hm hown
  · intro k b p hk
    rcases List.mem_append.mp hk with hk | hk
    · exact h.owned k b p hk
    · exact (howned k b p hk).1
  · refine List.pairwise_append.mpr ⟨h.distinct, hdistinct, ?_⟩
    intro m hm m' hm' k b p heq hkey
    -- the number of the later bundle is too great for the earlier message
    subst heq
    obtain ⟨hk, hle⟩ := howned k b p hm'
    have hlt := h.numbered m hm (by rw [hkey]; exact hk)
    rw [hkey] at hlt
    exact UInt64.lt_irrefl _ (UInt64.lt_of_lt_of_le hlt hle)
  · rw [haccepted, h.accounts, List.flatMap_append, List.append_assoc]

theorem mem_of_seen (h : Course own layout n accepted delivered (m :: ms) seen todo)
    (hf : f ∈ seen) : f ∈ m.fragments := by
  have hlt := h.begun m rfl
  have hsplit : seen ++ todo = m.fragments ++ ms.flatMap Message.fragments := h.split
  have htake := congrArg (List.take seen.length) hsplit
  rw [List.take_left, List.take_append_of_le_length (Nat.le_of_lt hlt)] at htake
  rw [htake] at hf
  exact List.mem_of_mem_take hf

theorem unseen (h : Course own layout n accepted delivered (m :: ms) seen todo) {k : Key}
    {buffer : Bytes} {parts : List Fragment} (hk : .bundle k buffer parts ∈ ms)
    (hf : f ∈ parts) : f ∉ seen := by
  intro hseen
  have hproper := h.proper _ (List.mem_cons_of_mem m hk)
  have hkey : f.key = k := hproper.2.key f hf
  have hkey' : f.key = m.key := (h.proper m List.mem_cons_self).intact.key f (h.mem_of_seen hseen)
  exact (List.pairwise_cons.mp h.distinct).1 _ hk k buffer parts rfl (hkey'.symm.trans hkey)

theorem later_ne (h : Course own layout n accepted delivered (m :: ms) seen todo) {k : Key}
    {buffer : Bytes} {parts : List Fragment} (hk : .bundle k buffer parts ∈ ms) : k ≠ m.key :=
  fun heq => (List.pairwise_cons.mp h.distinct).1 _ hk k buffer parts rfl heq.symm

end Course

namespace Assembled

open Attached (Partial)

variable {own : UInt64 → Prop} {layout : Layout} {n : UInt64} {accepted delivered : List Bytes}
  {pending ms : List Message} {m : Message} {seen todo rest : List Fragment} {f : Fragment}
  {inbound inbound' : Table Key Assembly}

theorem empty (n : UInt64) : Assembled n .empty [] [] :=
  ⟨fun _ _ h => (nomatch h), fun _ _ _ hm => (nomatch hm)⟩

/-- of the bundles that a peer sends behind everything else nothing is there yet -/
theorem append (h : Assembled n inbound pending seen)
    (hc : Course own layout n accepted delivered pending seen todo)
    {sent : List Message} {n' : UInt64} {accepted' : List Bytes} {todo' : List Fragment}
    (hc' : Course own layout n' accepted' delivered (pending ++ sent) seen todo') (hn : n ≤ n')
    (hsent : ∀ k buffer parts, .bundle k buffer parts ∈ sent → n ≤ k.message) :
    Assembled n' inbound (pending ++ sent) seen := by
  refine ⟨fun k asm hk => UInt64.lt_of_lt_of_le (h.numbered k asm hk) hn, ?_⟩
  intro k b parts hk
  rcases List.mem_append.mp hk with hold | hnew
  · exact h.partly k b parts hold
  · have hnone : inbound.get? k = none := by
      cases hget : inbound.get? k with
      | none => rfl
      | some asm =>
        have hlt := h.numbered k asm hget
        exact absurd (UInt64.lt_of_lt_of_le hlt (hsent k b parts hnew)) (UInt64.lt_irrefl _)
    rw [hnone]
    intro f hf
    cases pending with
    | nil =>
      rw [(List.append_eq_nil_iff.mp hc.split).1]
      exact List.not_mem_nil
    | cons m ms => exact hc'.unseen (List.mem_append_right ms hnew) hf

/-- the first pending bundle got one more fragment -/
theorem further {k : Key} {buffer : Bytes} {parts : List Fragment} {asm : Assembly}
    (h : Assembled n inbound (.bundle k buffer parts :: ms) seen)
    (hc : Course own layout n accepted delivered (.bundle k buffer parts :: ms) seen (f :: rest))
    (hf : f ∈ parts) (hothers : ∀ j, j ≠ k → inbound'.get? j = inbound.get? j)
    (hentry : inbound'.get? k = some asm) (hholds : asm.Holds parts (f :: seen)) :
    Assembled n inbound' (.bundle k buffer parts :: ms) (seen ++ [f]) := by
  have hmem := List.mem_cons_self (a := Message.bundle k buffer parts) (l := ms)
  have hkey : f.key = k := (hc.proper _ hmem).2.key f hf
  constructor
  · intro j asm' hj
    by_cases hjk : j = k
    · rw [hjk]
      exact hc.numbered _ hmem (hc.owned k buffer parts hmem)
    · rw [hothers j hjk] at hj
      exact h.numbered j asm' hj
  · intro j b ps hj
    rcases List.mem_cons.mp hj with heq | hlater
    · cases heq
      rw [hentry]
      exact Partial.congr (o := some asm) hholds fun g _ => by simp [or_comm]
    · have hjk := hc.later_ne hlater
      rw [hothers j hjk]
      apply (h.partly j b ps hj).congr
      intro g hg
      have hne : g ≠ f := by
        rintro rfl
        exact hjk (((hc.proper _ hj).2.key g hg).symm.trans hkey)
      simp [hne]

/-- the first pending message is done, and only what is there under its key changed -/
theorem done (h : Assembled n inbound (m :: ms) seen)
    (hc : Course own layout n accepted delivered (m :: ms) seen todo)
    (hothers : ∀ j, j ≠ m.key → inbound'.get? j = inbound.get? j)
    (hentry : ∀ asm, inbound'.get? m.key = some asm → m.key.message < n) :
    Assembled n inbound' ms [] := by
  constructor
  · intro j asm hj
    by_cases hjk : j = m.key
    · rw [hjk] at hj ⊢
      exact hentry asm hj
    · rw [hothers j hjk] at hj
      exact h.numbered j asm hj
  · intro j b ps hj
    rw [hothers j (hc.later_ne hj)]
    apply (h.partly j b ps (List.mem_cons_of_mem m hj)).congr
    intro g hg
    simp [hc.unseen hj hg]

/-- The look at the clock may drop bundles of which nothing was handled, but not the one that was
worked on just now. -/
theorem purge {now : Moment} {settings : Settings}
    (h : Assembled n inbound pending seen)
    (hc : Course own layout n accepted delivered pending seen todo)
    (hrecent : Recent now inbound pending seen)
    (hpurged : ∀ k, inbound'.get? k =
      (inbound.get? k).filter fun asm => !Attached.isOverdue settings now asm) :
    Assembled n inbound' pending seen := by
  have hsub (k : Key) (asm : Assembly) (hk : inbound'.get? k = some asm) :
      inbound.get? k = some asm := by
    rw [hpurged, Option.filter_eq_some_iff] at hk
    exact hk.1
  refine ⟨fun k asm hk => h.numbered k asm (hsub k asm hk), ?_⟩
  intro k b parts hk
  have hpartly := h.partly k b parts hk
  cases hget : inbound'.get? k with
  | some asm =>
    rw [hsub k asm hget] at hpartly
    exact hpartly
  | none =>
    -- either the entry was not there, or it was dropped, and then nothing had been handled
    intro f hf hseen
    cases hold : inbound.get? k with
    | none =>
      rw [hold] at hpartly
      exact hpartly f hf hseen
    | some asm =>
      rw [hold] at hpartly
      have hholds : asm.Holds parts seen := hpartly
      cases pending with
      | nil => cases hk
      | cons m ms =>
        rcases List.mem_cons.mp hk with heq | hlater
        · have hlast : asm.lastArrival = now :=
            hrecent k b parts asm (by rw [heq]; rfl) (List.ne_nil_of_mem hseen) hold
          have hkeep : Attached.isOverdue settings now asm = false := by
            rw [Attached.isOverdue, hholds.unfinished, hlast, Moment.since_self]
            simp [Span.zero]
          rw [hpurged, hold] at hget
          simp [Option.filter, hkeep] at hget
        · exact hc.unseen hlater hf hseen

end Assembled

end BundleLink
