import BundleLink.Proofs.Network.Diary

/-!
# From opening to closing

Whatever happens to a network, its roster lists those links that have not closed their channels, in
the order in which they were opened. As long as a link meets no fault, these are the times at which
it is connected: a link that is closed stays so, has closed its channel once, and does not call it
again; all that can be done with it is to read the bundles that were ready.

A fault breaks this bond. The link makes no more calls, and so it keeps its channel and its place on
the roster for good, even after it was declared closed.

* `Network.reads`      the results of reads in a row, `reads_closed` on a closed link;
* `Network.Closings`   what closing does to links, `closeEach_ok` and `closeEach_jams` to many;
* `Diary.Kept`         the invariant of roster and record, which every effect keeps;
* `Diary.Onward`       what is never taken back as things go on, and what is final for links that
  are closed or met a fault;
* `Diary.Lifecycle`    all of this together, `Diary.lifecycle_of_run` for every series of events;
* `Diary.listed_for_good`  a link that is closed after a fault, but not struck off.
-/

namespace BundleLink

open Pair (Operation)

/-- On a closed link each kind of read says so when nothing is left, and not before. -/
theorem Link.serve_notConnected {l : Link} (hclosed : l.connected = false) {op : Operation}
    (hop : op.isReading = true) :
    (l.serve op).1.result = .error (.error .notConnected) ↔ l.ready = [] := by
  have hnothing {α : Type} :
      (l.nothingReady : Except LinkError (Option α)) = .error .notConnected := by
    rw [nothingReady, hclosed]
    rfl
  cases hready : l.ready with
  | nil =>
    refine ⟨fun _ => rfl, fun _ => ?_⟩
    cases op with
    | read => rw [serve, read_nil hready, hnothing]; rfl
    | readInto buffer => rw [serve, readInto_nil hready, hnothing]; rfl
    | readText => rw [serve, readText_nil hready, hnothing]; rfl
    | _ => cases hop
  | cons bundle rest =>
    refine ⟨fun h => ?_, fun hnil => absurd hnil (List.cons_ne_nil bundle rest)⟩
    cases op with
    | read =>
      rw [serve, read_cons hready] at h
      cases h
    | readInto buffer =>
      rw [serve, readInto, hready] at h
      dsimp only at h
      split at h <;> cases h
    | readText =>
      rw [serve, readText, hready] at h
      dsimp only at h
      split at h <;> cases h
    | _ => cases hop

namespace Network

variable {τ : Type} {n n' : Network τ} {id : Nat} {l : Link}

theorem isConnected_of_link? (h : n.link? id = some l) : n.isConnected id = l.connected := by
  rw [isConnected, h]
  rfl

theorem isConnected_of_links {n n' : Network τ} {i : Nat}
    (h : ∀ j, n'.link? j = if j = i then some l else n.link? j) (j : Nat) :
    n'.isConnected j = if j = i then l.connected else n.isConnected j := by
  rw [isConnected, h]
  split <;> rfl

theorem queue_of_link? (h : n.link? id = some l) : n.queue id = l.ready := by
  rw [queue, h]
  rfl

/-! ## reading from a closed link -/

section
variable [Channel τ]

/-- the results of this many reads in a row -/
def reads (id : Nat) : Nat → Network τ → List (Except (Failure LinkError) Yield)
  | 0, _ => []
  | k + 1, n =>
    match n.perform id .read with
    | some (response, n) => response.result :: reads id k n
    | none => []

theorem perform_read {s : Station τ} (hs : n.stations.get? id = some s) :
    n.perform id .read = some (.ofLink .bundle s.link.read.1 [],
      { n with stations := n.stations.put id { s with link := s.link.read.2 } }) :=
  perform_reading hs rfl

theorem reads_empty {s : Station τ} (hs : n.stations.get? id = some s)
    (hclosed : s.link.connected = false) (hready : s.link.ready = []) (k : Nat) :
    n.reads id k = List.replicate k (.error (.error .notConnected)) := by
  induction k generalizing n with
  | zero => rfl
  | succ k ih =>
    have hread : s.link.read = (.error .notConnected, s.link) := by
      rw [Link.read_nil hready, Link.nothingReady, hclosed]
      rfl
    have hput : (n.stations.put id s).get? id = some s := by rw [Table.get?_put, if_pos rfl]
    rw [reads, perform_read hs, hread, List.replicate_succ]
    exact congrArg (.error (.error .notConnected) :: ·)
      (ih (n := { n with stations := n.stations.put id s }) hput)

theorem reads_closed {s : Station τ} (hs : n.stations.get? id = some s)
    (hclosed : s.link.connected = false) (k : Nat) :
    n.reads id (s.link.ready.length + k) =
      s.link.ready.map (fun bundle => .ok (.bundle (some bundle))) ++
        List.replicate k (.error (.error .notConnected)) := by
  generalize hready : s.link.ready = q
  induction q generalizing n s with
  | nil =>
    rw [List.length_nil, Nat.zero_add]
    exact reads_empty hs hclosed hready k
  | cons bundle rest ih =>
    have hread := Link.read_cons hready
    have hput : (n.stations.put id { s with link := { s.link with ready := rest } }).get? id =
        some { s with link := { s.link with ready := rest } } := by rw [Table.get?_put, if_pos rfl]
    rw [List.length_cons, Nat.add_right_comm, reads, perform_read hs, hread, List.map_cons,
      List.cons_append]
    exact congrArg (.ok (.bundle (some bundle)) :: ·)
      (ih (n := { n with stations := n.stations.put id _ }) hput hclosed rfl)

/-- Each kind of read of a closed link yields a response, and this is "not connected" as soon as the
queue is empty and not earlier. -/
theorem reading_closed {s : Station τ} (hs : n.stations.get? id = some s)
    (hclosed : s.link.connected = false) {op : Operation} (hop : op.isReading = true) :
    ∃ response n', n.perform id op = some (response, n') ∧
      (response.result = .error (.error .notConnected) ↔ s.link.ready = []) :=
  ⟨_, _, perform_reading hs hop, Link.serve_notConnected hclosed hop⟩

/-- a link halts with its first fault -/
theorem hasHalted_perform {op : Operation} {response : Response}
    (h : n.perform id op = some (response, n')) :
    n'.hasHalted id = (n.hasHalted id || response.isFault) := by
  obtain ⟨s, hs, hperformed⟩ := performed_of_perform h
  rw [Diary.hasHalted_of_get? hs]
  cases hperformed with
  | halted before =>
    rw [before, Bool.true_or, Diary.hasHalted_put, if_pos rfl]
  | aside running isLocal =>
    rw [running, Bool.false_or, Diary.hasHalted_put, if_pos rfl, Station.served]
  | channel running isCall r called =>
    rw [running, Bool.false_or, Diary.hasHalted_of_put (get?_leave n id s.plug _ r.after),
      if_pos rfl, Response.isFault_ofCall]

/-! ## closing links -/

/-- The link can not be closed any more, and an attempt ends in a fault. -/
def jams (n : Network τ) (id : Nat) : Bool := n.isConnected id && n.hasHalted id

/-- From `n` to `n'` all links with these numbers were declared closed. Those that met no fault have
left the roster. -/
structure Closings (n n' : Network τ) (ids : List Nat) : Prop where
  there : ∀ j, n'.link? j = none ↔ n.link? j = none
  connected : ∀ j, n'.isConnected j = (n.isConnected j && decide (j ∉ ids))
  halts : ∀ j, n'.hasHalted j = n.hasHalted j
  roster : n'.roster.ids = n.roster.ids.filter fun j => decide (j ∉ ids) || n.hasHalted j

omit [Channel τ] in
theorem Closings.nil (n : Network τ) : Closings n n [] where
  there _ := Iff.rfl
  connected j := by simp
  halts _ := rfl
  roster := (List.filter_eq_self.mpr fun j _ => by simp).symm

omit [Channel τ] in
theorem Closings.of_station (hl : n.link? id ≠ none)
    (links : ∀ j, n'.link? j = if j = id then some l else n.link? j) (hclosed : l.connected = false)
    (halts : ∀ j, n'.hasHalted j = n.hasHalted j)
    (roster : n'.roster.ids = n.roster.ids.filter fun j => decide (j ≠ id) || n.hasHalted j) :
    Closings n n' [id] where
  there j := by
    rw [links]
    split
    · rename_i heq
      rw [heq]
      exact ⟨nofun, fun hnone => absurd hnone hl⟩
    · exact Iff.rfl
  connected j := by
    rw [isConnected_of_links links]
    by_cases hj : j = id <;> simp [hj, hclosed]
  halts := halts
  roster := by simpa only [List.mem_singleton] using roster

omit [Channel τ] in
theorem Closings.append {n'' : Network τ} {is js : List Nat} (h : Closings n n' is)
    (h' : Closings n' n'' js) : Closings n n'' (is ++ js) where
  there j := (h'.there j).trans (h.there j)
  connected j := by
    rw [h'.connected, h.connected, Bool.and_assoc]
    simp
  halts j := (h'.halts j).trans (h.halts j)
  roster := by
    rw [h'.roster, h.roster, List.filter_filter]
    refine List.filter_congr fun j _ => ?_
    rw [h.halts]
    cases n.hasHalted j with
    | true => simp only [Bool.or_true, Bool.and_true]
    | false => simp [Bool.and_comm]

omit [Channel τ] in
theorem Closings.jams (h : Closings n n' ids) {j : Nat} (hj : j ∉ ids) : n'.jams j = n.jams j := by
  rw [Network.jams, Network.jams, h.connected, h.halts, decide_eq_true hj, Bool.and_true]

omit [Channel τ] in
/-- a link that met a fault is declared closed, and keeps its place on the roster -/
theorem closings_disconnect {s : Station τ} (hs : n.stations.get? id = some s)
    (hhalted : s.halted = true) :
    Closings n { n with stations := n.stations.put id { s with link := s.link.disconnect.2 } }
      [id] := by
  have hl := Diary.link?_of_get? hs
  have hhalts := (Diary.hasHalted_of_get? hs).trans hhalted
  refine .of_station (by rw [hl]; nofun) (Diary.link?_put n id _) rfl
    (Diary.hasHalted_put_same (t := { s with link := s.link.disconnect.2 }) hs rfl) ?_
  refine (List.filter_eq_self.mpr fun j _ => ?_).symm
  by_cases hj : j = id
  · rw [hj, hhalts, Bool.or_true]
  · rw [decide_eq_true hj, Bool.true_or]

/-- other links close their channels, and leave the roster -/
theorem closings_leave {s : Station τ} (hs : n.stations.get? id = some s)
    (hrunning : s.halted = false) :
    Closings n (n.leave id s.plug false (Attached.mk s.link (n.channelOf s.plug)).close) [id] := by
  have hl := Diary.link?_of_get? hs
  have hhalts := (Diary.hasHalted_of_get? hs).trans hrunning
  have hclosed := Attached.close_connected (Attached.mk s.link (n.channelOf s.plug))
  have hget := get?_leave n id s.plug false (Attached.mk s.link (n.channelOf s.plug)).close
  refine .of_station (by rw [hl]; nofun) (Diary.link?_of_put hget) hclosed (fun j => ?_) ?_
  · rw [Diary.hasHalted_of_put hget]
    split
    · rename_i heq
      rw [heq, hhalts]
    · rfl
  · rw [leave_eq, hclosed]
    refine List.filter_congr fun j _ => ?_
    by_cases hj : j = id
    · rw [hj, hhalts, Bool.or_false]
    · rw [decide_eq_true hj, Bool.true_or]

/-- a link is closed in one way or the other -/
theorem exists_close (hl : n.link? id ≠ none) : ∃ n',
    n.close id = some (if n.jams id then .error (.fault .halted) else .ok (), n') ∧
      Closings n n' [id] := by
  cases hs : n.stations.get? id with
  | none => exact absurd (by rw [link?, hs]; rfl) hl
  | some s =>
    rw [close, hs, jams, isConnected_of_link? (Diary.link?_of_get? hs), Diary.hasHalted_of_get? hs]
    dsimp only
    cases hhalted : s.halted with
    | true =>
      rw [if_pos rfl, alter_eq hs, Bool.and_true]
      exact ⟨_, rfl, closings_disconnect hs hhalted⟩
    | false =>
      rw [if_neg Bool.false_ne_true, operate_eq hs hhalted rfl, Bool.and_false]
      exact ⟨_, rfl, closings_leave hs hhalted⟩

/-- links of which none jams are all closed -/
theorem closeEach_ok {ids : List Nat} (hthere : ∀ i ∈ ids, n.link? i ≠ none)
    (hfree : ∀ i ∈ ids, n.jams i = false) (hids : ids.Nodup) :
    (n.closeEach ids).1 = .ok () ∧ Closings n (n.closeEach ids).2 ids := by
  induction ids generalizing n with
  | nil => exact ⟨rfl, .nil n⟩
  | cons i ids ih =>
    obtain ⟨hi, hids⟩ := List.nodup_cons.mp hids
    obtain ⟨n', hclose, hclosing⟩ := exists_close (hthere i List.mem_cons_self)
    rw [hfree i List.mem_cons_self, if_neg Bool.false_ne_true] at hclose
    have hthere' (j : Nat) (hj : j ∈ ids) : n'.link? j ≠ none := fun hnone =>
      hthere j (List.mem_cons_of_mem i hj) ((hclosing.there j).mp hnone)
    have hfree' (j : Nat) (hj : j ∈ ids) : n'.jams j = false := by
      rw [hclosing.jams fun hmem => hi (List.mem_singleton.mp hmem ▸ hj)]
      exact hfree j (List.mem_cons_of_mem i hj)
    obtain ⟨hok, hrest⟩ := ih hthere' hfree' hids
    rw [closeEach, hclose]
    exact ⟨hok, hclosing.append hrest⟩

/-- the first link that jams is the last one of which closing takes notice -/
theorem closeEach_jams {before : List Nat} {i : Nat}
    (hthere : ∀ j ∈ before ++ [i], n.link? j ≠ none) (hfree : ∀ j ∈ before, n.jams j = false)
    (hjams : n.jams i = true) (hids : (before ++ [i]).Nodup) (after : List Nat) :
    (n.closeEach (before ++ i :: after)).1 = .error (.fault .halted) ∧
      Closings n (n.closeEach (before ++ i :: after)).2 (before ++ [i]) := by
  induction before generalizing n with
  | nil =>
    obtain ⟨n', hclose, hclosing⟩ := exists_close (hthere i List.mem_cons_self)
    rw [hjams, if_pos rfl] at hclose
    rw [List.nil_append, closeEach, hclose]
    exact ⟨rfl, hclosing⟩
  | cons k before ih =>
    obtain ⟨hk, hids⟩ := List.nodup_cons.mp hids
    obtain ⟨n', hclose, hclosing⟩ := exists_close (hthere k List.mem_cons_self)
    rw [hfree k List.mem_cons_self, if_neg Bool.false_ne_true] at hclose
    have hother {j : Nat} (hj : j ∈ before ++ [i]) : j ∉ [k] :=
      fun hmem => hk (List.mem_singleton.mp hmem ▸ hj)
    have hthere' (j : Nat) (hj : j ∈ before ++ [i]) : n'.link? j ≠ none := fun hnone =>
      hthere j (List.mem_cons_of_mem k hj) ((hclosing.there j).mp hnone)
    have hfree' (j : Nat) (hj : j ∈ before) : n'.jams j = false := by
      rw [hclosing.jams (hother (List.mem_append_left _ hj))]
      exact hfree j (List.mem_cons_of_mem k hj)
    have hjams' : n'.jams i = true := by
      rw [hclosing.jams (hother (List.mem_append_right _ List.mem_cons_self))]
      exact hjams
    obtain ⟨hfault, hrest⟩ := ih hthere' hfree' hjams' hids
    rw [List.cons_append, closeEach, hclose]
    exact ⟨hfault, hclosing.append hrest⟩

end

/-- The link has not closed its channel so far. -/
def Record.isUnclosed (r : Record) (id : Nat) : Bool := decide (.close ∉ r.uses id)

namespace Diary

variable {d d' : Diary τ}

/-! ## the roster and the record -/

/-- The calls that a link can have made by now: none of them closes the channel if the link is open,
and the last one does if it is closed, unless there was a fault before. -/
structure Befits (l : Link) (halted : Bool) (us : List ChannelUse) : Prop where
  connected : l.connected = true → .close ∉ us
  closed : l.connected = false → halted = false → .close ∈ us
  last : .close ∈ us → ∃ before, us = before ++ [.close] ∧ .close ∉ before

theorem Befits.turn {l l' : Link} {past us : List ChannelUse} {bs : List Bytes}
    (h : Befits l false past) (hturn : l.Turn l' us bs) : Befits l' false (past ++ us) := by
  have hopen (hbefore : l.connected = true) : .close ∉ past := h.connected hbefore
  constructor
  · intro hconnected
    obtain ⟨hbefore, hus⟩ := hturn.stays hconnected
    exact fun hmem => (List.mem_append.mp hmem).elim (hopen hbefore) hus
  · intro hclosed _
    cases hbefore : l.connected with
    | true =>
      obtain ⟨before, rfl, -⟩ := hturn.ends hbefore hclosed
      simp
    | false => exact List.mem_append_left _ (h.closed hbefore rfl)
  · intro hmem
    cases hbefore : l.connected with
    | true =>
      have hclosed : l'.connected = false := by
        refine Bool.eq_false_iff.mpr fun hconnected => ?_
        exact (List.mem_append.mp hmem).elim (hopen hbefore) (hturn.stays hconnected).2
      obtain ⟨before, rfl, hnone⟩ := hturn.ends hbefore hclosed
      refine ⟨past ++ before, (List.append_assoc ..).symm, fun hmem => ?_⟩
      exact (List.mem_append.mp hmem).elim (hopen hbefore) hnone
    | false =>
      obtain ⟨rfl, -⟩ := hturn.gone hbefore
      rw [List.append_nil] at hmem ⊢
      exact h.last hmem

theorem Befits.halt {l : Link} {us : List ChannelUse} (h : Befits l false us) (halted : Bool) :
    Befits l halted us :=
  ⟨h.connected, fun hclosed _ => h.closed hclosed rfl, h.last⟩

theorem Befits.rest {l l' : Link} {us : List ChannelUse} {bs : List Bytes} (h : Befits l true us)
    (hrest : l.Rest l' bs) : Befits l' true us :=
  ⟨fun hopen => h.connected (hrest.connected hopen), fun _ => nofun, h.last⟩

structure Kept (d : Diary τ) : Prop where
  opened : d.record.opened = List.range d.network.roster.nextId
  there : ∀ i, i < d.network.roster.nextId ↔ d.network.link? i ≠ none
  listed : d.network.roster.ids = d.record.opened.filter d.record.isUnclosed
  uses : ∀ i l, d.network.link? i = some l → Befits l (d.network.hasHalted i) (d.record.uses i)
  untouched : ∀ i, d.network.link? i = none → d.record.uses i = []

theorem kept_start : Kept (start : Diary τ) where
  opened := rfl
  there _ := ⟨nofun, fun h => absurd rfl h⟩
  listed := rfl
  uses _ _ := nofun
  untouched _ _ := rfl

theorem hasHalted_of_none {n : Network τ} {i : Nat} (h : n.link? i = none) :
    n.hasHalted i = false := by
  rw [link?, Option.map_eq_none_iff] at h
  rw [hasHalted, h]
  rfl

theorem Kept.mem_ids (h : Kept d) {i : Nat} :
    i ∈ d.network.roster.ids ↔ d.network.link? i ≠ none ∧ .close ∉ d.record.uses i := by
  rw [h.listed, List.mem_filter, h.opened, List.mem_range, h.there, Record.isUnclosed,
    decide_eq_true_eq]

theorem Kept.mem_of_connected (h : Kept d) {i : Nat} (hconnected : d.network.isConnected i = true) :
    i ∈ d.network.roster.ids := by
  cases hl : d.network.link? i with
  | none =>
    rw [isConnected, hl] at hconnected
    cases hconnected
  | some l =>
    refine h.mem_ids.mpr ⟨by rw [hl]; nofun, (h.uses i l hl).connected ?_⟩
    exact (isConnected_of_link? hl).symm.trans hconnected

/-- as long as there was no fault, being on the roster is being connected -/
theorem Kept.mem_iff (h : Kept d) {i : Nat} (hrunning : d.network.hasHalted i = false) :
    i ∈ d.network.roster.ids ↔ d.network.isConnected i = true := by
  refine ⟨fun hmem => ?_, h.mem_of_connected⟩
  obtain ⟨hthere, hunclosed⟩ := h.mem_ids.mp hmem
  obtain ⟨l, hl⟩ := Option.ne_none_iff_exists'.mp hthere
  rw [isConnected_of_link? hl]
  by_contra hclosed
  exact hunclosed ((h.uses i l hl).closed (Bool.eq_false_iff.mpr hclosed) hrunning)

theorem Kept.fresh (h : Kept d) : d.network.link? d.network.roster.nextId = none := by
  by_contra hsome
  exact Nat.lt_irrefl _ ((h.there _).mpr hsome)

theorem Kept.still (h : Kept d) (links : ∀ j, d'.network.link? j = d.network.link? j)
    (halts : ∀ j, d'.network.hasHalted j = d.network.hasHalted j)
    (roster : d'.network.roster = d.network.roster) (record : d'.record = d.record) : Kept d' := by
  constructor
  · rw [record, roster]
    exact h.opened
  · simpa only [roster, links] using h.there
  · rw [roster, record]
    exact h.listed
  · simpa only [record, links, halts] using h.uses
  · simpa only [record, links] using h.untouched

/-- only one link and its calls change -/
theorem Kept.of_link (h : Kept d) {i : Nat} {l l' : Link} {us : List ChannelUse} {bs : List Bytes}
    (found : d.network.link? i = some l)
    (links : ∀ j, d'.network.link? j = if j = i then some l' else d.network.link? j)
    (halts : ∀ j, j ≠ i → d'.network.hasHalted j = d.network.hasHalted j)
    (next : d'.network.roster.nextId = d.network.roster.nextId)
    (record : d'.record = d.record.add i us bs)
    (fits : Befits l' (d'.network.hasHalted i) (d.record.uses i ++ us))
    (listed : d'.network.roster.ids = d.record.opened.filter d'.record.isUnclosed) : Kept d' := by
  have hopened : d'.record.opened = d.record.opened := by rw [record]; rfl
  have huses := d.record.uses_add i us bs
  rw [← record] at huses
  constructor
  · rw [hopened, next]
    exact h.opened
  · intro j
    rw [next, links, h.there]
    split
    · rename_i heq
      rw [heq, found]
      exact ⟨fun _ => nofun, fun _ => nofun⟩
    · exact Iff.rfl
  · rw [hopened]
    exact listed
  · intro j k hk
    rw [links] at hk
    rw [huses]
    split
    · rename_i heq
      rw [if_pos heq] at hk
      obtain rfl := Option.some.inj hk
      rw [heq]
      exact fits
    · rename_i hne
      rw [if_neg hne] at hk
      rw [halts j hne]
      exact h.uses j k hk
  · intro j hj
    rw [links] at hj
    rw [huses]
    split
    · rename_i heq
      rw [if_pos heq] at hj
      cases hj
    · rename_i hne
      rw [if_neg hne] at hj
      exact h.untouched j hj

theorem Kept.turn (h : Kept d) {i : Nat} {l l' : Link} {halted : Bool} {us : List ChannelUse}
    {bs : List Bytes} (found : d.network.link? i = some l)
    (running : d.network.hasHalted i = false) (turn : l.Turn l' us bs)
    (links : ∀ j, d'.network.link? j = if j = i then some l' else d.network.link? j)
    (halts : ∀ j, d'.network.hasHalted j = if j = i then halted else d.network.hasHalted j)
    (roster : d'.network.roster = d.network.roster ∧ l'.connected = l.connected ∨
      d'.network.roster = d.network.roster.strike i ∧ l'.connected = false)
    (record : d'.record = d.record.add i us bs) : Kept d' := by
  have hbefore := h.uses i l found
  rw [running] at hbefore
  have hafter := hbefore.turn turn
  have huses := d.record.uses_add i us bs
  rw [← record] at huses
  refine h.of_link found links (fun j hj => by rw [halts, if_neg hj]) ?_ record (hafter.halt _) ?_
  · rcases roster with ⟨hroster, -⟩ | ⟨hroster, -⟩ <;> rw [hroster]
    rfl
  · rcases roster with ⟨hroster, hsame⟩ | ⟨hroster, hclosed⟩
    · rw [hroster, h.listed]
      refine List.filter_congr fun j _ => ?_
      rw [Record.isUnclosed, Record.isUnclosed, huses]
      split
      · rename_i heq
        rw [heq]
        cases hopen : l.connected with
        | true =>
          rw [decide_eq_true (hbefore.connected hopen),
            decide_eq_true (hafter.connected (hsame.trans hopen))]
        | false =>
          rw [decide_eq_false (not_not.mpr (hbefore.closed hopen rfl)),
            decide_eq_false (not_not.mpr (hafter.closed (hsame.trans hopen) rfl))]
      · rfl
    · rw [hroster, Roster.strike, h.listed, List.filter_filter]
      refine List.filter_congr fun j _ => ?_
      rw [Record.isUnclosed, Record.isUnclosed, huses]
      split
      · rename_i heq
        rw [decide_eq_false (not_not.mpr (hafter.closed hclosed rfl)),
          decide_eq_false (not_not.mpr heq), Bool.false_and]
      · rename_i hne
        rw [decide_eq_true hne, Bool.true_and]

theorem Kept.rest (h : Kept d) {i : Nat} {l l' : Link} {bs : List Bytes}
    (found : d.network.link? i = some l) (halted : d.network.hasHalted i = true)
    (rest : l.Rest l' bs)
    (links : ∀ j, d'.network.link? j = if j = i then some l' else d.network.link? j)
    (halts : ∀ j, d'.network.hasHalted j = d.network.hasHalted j)
    (roster : d'.network.roster = d.network.roster) (record : d'.record = d.record.add i [] bs) :
    Kept d' := by
  have hbefore := h.uses i l found
  rw [halted] at hbefore
  have huses (j : Nat) : d'.record.uses j = d.record.uses j := by
    rw [record, Record.uses_add, List.append_nil]
    split
    · rename_i heq
      rw [heq]
    · rfl
  refine h.of_link found links (fun j _ => halts j) (by rw [roster]) record ?_ ?_
  · rw [halts, halted, List.append_nil]
    exact hbefore.rest rest
  · rw [roster, h.listed]
    refine List.filter_congr fun j _ => ?_
    rw [Record.isUnclosed, Record.isUnclosed, huses]

theorem Kept.enter (h : Kept d) {l : Link} (connected : l.connected = true)
    (links : ∀ j, d'.network.link? j =
      if j = d.network.roster.nextId then some l else d.network.link? j)
    (halts : ∀ j, d'.network.hasHalted j =
      if j = d.network.roster.nextId then false else d.network.hasHalted j)
    (roster : d'.network.roster = d.network.roster.enrol.2)
    (record : d'.record = d.record.enter d.network.roster.nextId) : Kept d' := by
  have hnext : d'.network.roster.nextId = d.network.roster.nextId + 1 := by rw [roster]; rfl
  have hopened : d'.record.opened = d.record.opened ++ [d.network.roster.nextId] := by
    rw [record]
    rfl
  have huses : d'.record.uses = d.record.uses := by rw [record]; rfl
  constructor
  · rw [hopened, hnext, h.opened, List.range_succ]
  · intro j
    rw [hnext, links, Nat.lt_succ_iff_lt_or_eq, h.there]
    split
    · rename_i heq
      exact ⟨fun _ => nofun, fun _ => .inr heq⟩
    · rename_i hne
      exact ⟨fun hj => hj.resolve_right hne, .inl⟩
  · have hsame : d'.record.isUnclosed = d.record.isUnclosed := by
      funext j
      rw [Record.isUnclosed, huses, Record.isUnclosed]
    have hnew : [d.network.roster.nextId].filter d.record.isUnclosed =
        [d.network.roster.nextId] := by
      simp [Record.isUnclosed, h.untouched _ h.fresh]
    rw [roster, Roster.ids_enrol, hopened, List.filter_append, hsame, hnew, h.listed]
  · intro j k hk
    rw [links] at hk
    rw [huses, halts]
    split
    · rename_i heq
      rw [if_pos heq] at hk
      obtain rfl := Option.some.inj hk
      rw [heq, h.untouched _ h.fresh]
      exact ⟨fun _ => List.not_mem_nil, fun hclosed => (nomatch connected.symm.trans hclosed),
        nofun⟩
    · rename_i hne
      rw [if_neg hne] at hk
      exact h.uses j k hk
  · intro j hj
    rw [links] at hj
    rw [huses]
    split at hj
    · cases hj
    · exact h.untouched j hj

theorem Kept.effect (h : Kept d) (heffect : Effect d d') : Kept d' := by
  cases heffect with
  | still links halts roster record => exact h.still links halts roster record
  | turn i l l' halted us bs found running turn links halts roster record =>
    exact h.turn found running turn links halts roster record
  | rest i l l' bs found halted rest links halts roster record =>
    exact h.rest found halted rest links halts roster record
  | opened l connected ready links halts roster record =>
    exact h.enter connected links halts roster record

/-! ## as things go on -/

/-- all bundles that the link handed out or could hand out -/
def bundles (d : Diary τ) (i : Nat) : List Bytes := d.record.taken i ++ d.network.queue i

/-- What was opened, called and made ready by the time of `d` is never taken back. A link that is
closed by then stays so, calls its channel no more, and gets no more bundles. Nor does a link that
met a fault by then, which also stays on the roster, or off it. -/
structure Onward (d d' : Diary τ) : Prop where
  opened : d.record.opened <+: d'.record.opened
  uses : ∀ i, d.record.uses i <+: d'.record.uses i
  keeps : ∀ i, d.bundles i <+: d'.bundles i
  gone : ∀ i l, d.network.link? i = some l → l.connected = false →
    (∃ l', d'.network.link? i = some l' ∧ l'.connected = false) ∧
      d'.record.uses i = d.record.uses i ∧ d'.bundles i = d.bundles i
  halted : ∀ i, d.network.hasHalted i = true →
    d'.network.hasHalted i = true ∧ d'.record.uses i = d.record.uses i ∧
      d'.bundles i = d.bundles i ∧ (i ∈ d'.network.roster.ids ↔ i ∈ d.network.roster.ids)

theorem Onward.refl (d : Diary τ) : Onward d d where
  opened := List.prefix_refl _
  uses _ := List.prefix_refl _
  keeps _ := List.prefix_refl _
  gone _ l hl hclosed := ⟨⟨l, hl, hclosed⟩, rfl, rfl⟩
  halted _ hhalted := ⟨hhalted, rfl, rfl, Iff.rfl⟩

theorem Onward.trans {d'' : Diary τ} (h : Onward d d') (h' : Onward d' d'') : Onward d d'' where
  opened := h.opened.trans h'.opened
  uses i := (h.uses i).trans (h'.uses i)
  keeps i := (h.keeps i).trans (h'.keeps i)
  gone i l hl hclosed := by
    obtain ⟨⟨l', hl', hclosed'⟩, huses, hbundles⟩ := h.gone i l hl hclosed
    obtain ⟨hstill, huses', hbundles'⟩ := h'.gone i l' hl' hclosed'
    exact ⟨hstill, huses'.trans huses, hbundles'.trans hbundles⟩
  halted i hhalted := by
    obtain ⟨hstill, huses, hbundles, hlisted⟩ := h.halted i hhalted
    obtain ⟨hstill', huses', hbundles', hlisted'⟩ := h'.halted i hstill
    exact ⟨hstill', huses'.trans huses, hbundles'.trans hbundles, hlisted'.trans hlisted⟩

/-- only one link changes, which gets no bundles if it is closed or met a fault -/
theorem Onward.of_link {i : Nat} {l l' : Link} {us : List ChannelUse} {bs : List Bytes}
    (found : d.network.link? i = some l)
    (links : ∀ j, d'.network.link? j = if j = i then some l' else d.network.link? j)
    (record : d'.record = d.record.add i us bs) (ready : l.ready <+: bs ++ l'.ready)
    (gone : l.connected = false → l'.connected = false ∧ us = [] ∧ bs ++ l'.ready = l.ready)
    (halted : d.network.hasHalted i = true → us = [] ∧ bs ++ l'.ready = l.ready)
    (halts : ∀ j, d.network.hasHalted j = true →
      d'.network.hasHalted j = true ∧ (j ∈ d'.network.roster.ids ↔ j ∈ d.network.roster.ids)) :
    Onward d d' := by
  have hbefore : d.bundles i = d.record.taken i ++ l.ready := by
    rw [bundles, queue_of_link? found]
  have hbundles (j : Nat) : d'.bundles j =
      if j = i then d.record.taken i ++ (bs ++ l'.ready) else d.bundles j := by
    rw [bundles, record, Record.taken_add, queue, links]
    split
    · exact List.append_assoc ..
    · rfl
  have huses := d.record.uses_add i us bs
  rw [← record] at huses
  have hsame (hus : us = []) (hready : bs ++ l'.ready = l.ready) :
      d'.record.uses i = d.record.uses i ∧ d'.bundles i = d.bundles i := by
    rw [huses, hbundles, if_pos rfl, if_pos rfl, hus, hready, hbefore, List.append_nil]
    exact ⟨rfl, rfl⟩
  have hother {j : Nat} (hne : j ≠ i) :
      d'.record.uses j = d.record.uses j ∧ d'.bundles j = d.bundles j := by
    rw [huses, hbundles, if_neg hne, if_neg hne]
    exact ⟨rfl, rfl⟩
  constructor
  · rw [record]
    exact List.prefix_refl _
  · intro j
    rw [huses]
    split
    · rename_i heq
      rw [heq]
      exact List.prefix_append _ _
    · exact List.prefix_refl _
  · intro j
    rw [hbundles]
    split
    · rename_i heq
      rw [heq, hbefore]
      exact (List.prefix_append_right_inj _).mpr ready
    · exact List.prefix_refl _
  · intro j k hk hclosed
    rw [links]
    by_cases heq : j = i
    · subst heq
      rw [found] at hk
      obtain rfl := Option.some.inj hk
      obtain ⟨hstill, hus, hready⟩ := gone hclosed
      rw [if_pos rfl]
      exact ⟨⟨l', rfl, hstill⟩, hsame hus hready⟩
    · rw [if_neg heq]
      exact ⟨⟨k, hk, hclosed⟩, hother heq⟩
  · intro j hj
    obtain ⟨hstill, hlisted⟩ := halts j hj
    by_cases heq : j = i
    · subst heq
      obtain ⟨hus, hready⟩ := halted hj
      obtain ⟨huses, hbundles⟩ := hsame hus hready
      exact ⟨hstill, huses, hbundles, hlisted⟩
    · obtain ⟨huses, hbundles⟩ := hother heq
      exact ⟨hstill, huses, hbundles, hlisted⟩

theorem Onward.turn {i : Nat} {l l' : Link} {halted : Bool} {us : List ChannelUse}
    {bs : List Bytes} (found : d.network.link? i = some l)
    (running : d.network.hasHalted i = false) (turn : l.Turn l' us bs)
    (links : ∀ j, d'.network.link? j = if j = i then some l' else d.network.link? j)
    (halts : ∀ j, d'.network.hasHalted j = if j = i then halted else d.network.hasHalted j)
    (roster : d'.network.roster = d.network.roster ∧ l'.connected = l.connected ∨
      d'.network.roster = d.network.roster.strike i ∧ l'.connected = false)
    (record : d'.record = d.record.add i us bs) : Onward d d' := by
  refine .of_link found links record turn.ready (fun hclosed => ⟨?_, turn.gone hclosed⟩)
    (fun hhalted => nomatch running.symm.trans hhalted) fun j hj => ?_
  · refine Bool.eq_false_iff.mpr fun hopen => ?_
    rw [(turn.stays hopen).1] at hclosed
    cases hclosed
  · have hne : j ≠ i := by
      rintro rfl
      exact nomatch running.symm.trans hj
    refine ⟨by rw [halts, if_neg hne]; exact hj, ?_⟩
    rcases roster with ⟨hroster, -⟩ | ⟨hroster, -⟩
    · rw [hroster]
    · rw [hroster, Roster.mem_ids_strike]
      exact and_iff_left hne

theorem Onward.rest {i : Nat} {l l' : Link} {bs : List Bytes}
    (found : d.network.link? i = some l) (rest : l.Rest l' bs)
    (links : ∀ j, d'.network.link? j = if j = i then some l' else d.network.link? j)
    (halts : ∀ j, d'.network.hasHalted j = d.network.hasHalted j)
    (roster : d'.network.roster = d.network.roster) (record : d'.record = d.record.add i [] bs) :
    Onward d d' := by
  refine .of_link found links record (rest.ready ▸ List.prefix_refl _)
    (fun hclosed => ⟨?_, rfl, rest.ready⟩) (fun _ => ⟨rfl, rest.ready⟩) fun j hj => ?_
  · exact Bool.eq_false_iff.mpr fun hopen => nomatch hclosed.symm.trans (rest.connected hopen)
  · rw [halts, roster]
    exact ⟨hj, Iff.rfl⟩

theorem Onward.enter (h : Kept d) {l : Link} (ready : l.ready = [])
    (links : ∀ j, d'.network.link? j =
      if j = d.network.roster.nextId then some l else d.network.link? j)
    (halts : ∀ j, d'.network.hasHalted j =
      if j = d.network.roster.nextId then false else d.network.hasHalted j)
    (roster : d'.network.roster = d.network.roster.enrol.2)
    (record : d'.record = d.record.enter d.network.roster.nextId) : Onward d d' := by
  have hbundles (j : Nat) : d'.bundles j = d.bundles j := by
    have hqueue : d'.network.queue j = d.network.queue j := by
      rw [queue, queue, links]
      split
      · rename_i heq
        rw [heq, h.fresh]
        exact ready
      · rfl
    rw [bundles, bundles, hqueue, record]
    rfl
  have huses : d'.record.uses = d.record.uses := by rw [record]; rfl
  constructor
  · rw [record]
    exact List.prefix_append _ _
  · exact fun j => huses ▸ List.prefix_refl _
  · exact fun j => hbundles j ▸ List.prefix_refl _
  · intro j k hk hclosed
    rw [huses, hbundles, links]
    split
    · rename_i heq
      rw [heq, h.fresh] at hk
      cases hk
    · exact ⟨⟨k, hk, hclosed⟩, rfl, rfl⟩
  · intro j hj
    have hne : j ≠ d.network.roster.nextId := by
      rintro rfl
      exact nomatch (hasHalted_of_none h.fresh).symm.trans hj
    rw [halts, if_neg hne, roster, Roster.ids_enrol]
    exact ⟨hj, by rw [huses], hbundles j, by simp [hne]⟩

theorem Onward.effect (h : Kept d) (heffect : Effect d d') : Onward d d' := by
  cases heffect with
  | still links halts roster record =>
    have hbundles (j : Nat) : d'.bundles j = d.bundles j := by
      rw [bundles, bundles, queue, links, record]
      rfl
    constructor
    · exact record ▸ List.prefix_refl _
    · exact fun j => record ▸ List.prefix_refl _
    · exact fun j => hbundles j ▸ List.prefix_refl _
    · intro j k hk hclosed
      rw [links, record, hbundles]
      exact ⟨⟨k, hk, hclosed⟩, rfl, rfl⟩
    · intro j hj
      rw [halts, record, hbundles, roster]
      exact ⟨hj, rfl, rfl, Iff.rfl⟩
  | turn i l l' halted us bs found running turn links halts roster record =>
    exact .turn found running turn links halts roster record
  | rest i l l' bs found halted rest links halts roster record =>
    exact .rest found rest links halts roster record
  | opened l connected ready links halts roster record =>
    exact .enter h ready links halts roster record

theorem Kept.effects (h : Kept d) (heffects : Effects d d') : Kept d' ∧ Onward d d' := by
  induction heffects with
  | refl => exact ⟨h, .refl d⟩
  | tail _ heffect ih => exact ⟨ih.1.effect heffect, ih.2.trans (.effect ih.1 heffect)⟩

/-! ## the whole life -/

variable [Channel τ]

/-- What is true of a diary at the time of `d`, and of what becomes of it by the time of `d'`. -/
structure Lifecycle (d d' : Diary τ) : Prop where
  /-- numbers are given out one after the other, and none is left out -/
  opened : d.record.opened = List.range d.network.roster.nextId
  /-- the roster lists the links that have not closed their channels -/
  listed : d.network.roster.ids = d.record.opened.filter d.record.isUnclosed
  increasing : d.network.roster.ids.Pairwise (· < ·)
  /-- every link that is connected is one of them, and there are no others without a fault -/
  connected : ∀ i, d.network.isConnected i = true → i ∈ d.network.roster.ids
  running : ∀ i, d.network.hasHalted i = false →
    (i ∈ d.network.roster.ids ↔ d.network.isConnected i = true)
  at? : ∀ k, d.network.roster.at? k = (d.record.opened.filter d.record.isUnclosed)[k]?
  size : d.network.roster.size = d.record.opened.countP d.record.isUnclosed
  isEmpty : d.network.roster.isEmpty = true ↔
    ∀ i ∈ d.record.opened, d.record.isUnclosed i = false
  refused : ∀ settings e, settings.check = .error e → ∀ generation description plug,
    d.network.openLink settings generation description plug = (.error e, d.network) ∧
      d.step (.openLink settings generation description plug) = d
  accepted : ∀ settings, settings.Valid → ∀ generation description plug,
    ∃ n, d.network.openLink settings generation description plug =
        (.ok d.network.roster.nextId, n) ∧
      n.roster.ids = d.network.roster.ids ++ [d.network.roster.nextId] ∧
      n.roster.nextId = d.network.roster.nextId + 1 ∧
      n.isConnected d.network.roster.nextId = true
  /-- Closing all links leaves none connected and only those on the roster that met a fault, if none
  of them jams. -/
  cleared : (∀ i ∈ d.network.roster.ids, d.network.jams i = false) →
    d.network.closeAll.1 = .ok () ∧ (∀ j, d.network.closeAll.2.isConnected j = false) ∧
      d.network.closeAll.2.roster.ids = d.network.roster.ids.filter d.network.hasHalted
  /-- The first link that jams is declared closed, and those behind it stay as they are. -/
  jammed : ∀ before i after, d.network.roster.ids = before ++ i :: after →
    (∀ j ∈ before, d.network.jams j = false) → d.network.jams i = true →
    d.network.closeAll.1 = .error (.fault .halted) ∧
      (∀ j, d.network.closeAll.2.isConnected j = (d.network.isConnected j && decide (j ∈ after))) ∧
      d.network.closeAll.2.roster.ids = before.filter d.network.hasHalted ++ i :: after
  /-- an open link has not closed its channel -/
  unclosed : ∀ i, d.network.isConnected i = true → .close ∉ d.record.uses i
  /-- a closed link has closed its channel once, and this was its last call -/
  closed : ∀ i ∈ d.record.opened, d.network.isConnected i = false →
    d.network.hasHalted i = false ∨ i ∉ d.network.roster.ids →
    ∃ before, d.record.uses i = before ++ [.close] ∧ .close ∉ before
  /-- a link halts with its first fault -/
  halts : ∀ i op response n, d.network.perform i op = some (response, n) →
    n.hasHalted i = (d.network.hasHalted i || response.isFault)
  /-- reads of a closed link hand out the queue and then say that it is not connected -/
  reads : ∀ i ∈ d.record.opened, d.network.isConnected i = false → ∀ k,
    d.network.reads i ((d.network.queue i).length + k) =
      (d.network.queue i).map (fun bundle => .ok (.bundle (some bundle))) ++
        List.replicate k (.error (.error .notConnected))
  /-- and so do reads of all kinds -/
  readings : ∀ i ∈ d.record.opened, d.network.isConnected i = false → ∀ op, op.isReading = true →
    ∃ response n, d.network.perform i op = some (response, n) ∧
      (response.result = .error (.error .notConnected) ↔ d.network.queue i = [])
  onward : Onward d d'

omit [Channel τ] in
theorem Kept.exists_station (h : Kept d) {i : Nat} (hi : i ∈ d.record.opened) :
    ∃ s, d.network.stations.get? i = some s := by
  rw [h.opened, List.mem_range, h.there] at hi
  cases hs : d.network.stations.get? i with
  | some s => exact ⟨s, rfl⟩
  | none => exact absurd (by rw [link?, hs]; rfl) hi

omit [Channel τ] in
theorem Kept.pairwise (h : Kept d) : d.network.roster.ids.Pairwise (· < ·) := by
  rw [h.listed, h.opened]
  exact List.pairwise_lt_range.filter _

omit [Channel τ] in
theorem Kept.nodup (h : Kept d) : d.network.roster.ids.Nodup := h.pairwise.imp Nat.ne_of_lt

theorem Kept.cleared (h : Kept d) (hfree : ∀ i ∈ d.network.roster.ids, d.network.jams i = false) :
    d.network.closeAll.1 = .ok () ∧ (∀ j, d.network.closeAll.2.isConnected j = false) ∧
      d.network.closeAll.2.roster.ids = d.network.roster.ids.filter d.network.hasHalted := by
  obtain ⟨hok, hclosings⟩ := closeEach_ok (fun i hi => (h.mem_ids.mp hi).1) hfree h.nodup
  refine ⟨hok, fun j => ?_, ?_⟩
  · rw [Network.closeAll, hclosings.connected]
    cases hj : d.network.isConnected j with
    | false => rfl
    | true => simp [h.mem_of_connected hj]
  · rw [Network.closeAll, hclosings.roster]
    exact List.filter_congr fun j hj => by simp [hj]

theorem Kept.jammed (h : Kept d) {before after : List Nat} {i : Nat}
    (hids : d.network.roster.ids = before ++ i :: after)
    (hfree : ∀ j ∈ before, d.network.jams j = false) (hjams : d.network.jams i = true) :
    d.network.closeAll.1 = .error (.fault .halted) ∧
      (∀ j, d.network.closeAll.2.isConnected j = (d.network.isConnected j && decide (j ∈ after))) ∧
      d.network.closeAll.2.roster.ids = before.filter d.network.hasHalted ++ i :: after := by
  have hsplit : d.network.roster.ids = (before ++ [i]) ++ after := by simp [hids]
  have hnodup := h.nodup
  rw [hsplit, List.nodup_append] at hnodup
  obtain ⟨hfirst, -, hdisjoint⟩ := hnodup
  have hthere (j : Nat) (hj : j ∈ before ++ [i]) : d.network.link? j ≠ none :=
    (h.mem_ids.mp (hsplit ▸ List.mem_append_left after hj)).1
  obtain ⟨hfault, hclosings⟩ := closeEach_jams hthere hfree hjams hfirst after
  have hhalted : d.network.hasHalted i = true := by
    rw [jams, Bool.and_eq_true] at hjams
    exact hjams.2
  rw [← hids] at hfault hclosings
  refine ⟨hfault, fun j => ?_, ?_⟩
  · rw [Network.closeAll, hclosings.connected]
    cases hj : d.network.isConnected j with
    | false => rfl
    | true =>
      have hmem := h.mem_of_connected hj
      rw [hsplit, List.mem_append] at hmem
      rw [Bool.true_and, Bool.true_and, decide_eq_decide]
      exact ⟨hmem.resolve_left, fun hafter hbefore => hdisjoint j hbefore j hafter rfl⟩
  · have hbehind : after.filter (fun j => decide (j ∉ before ++ [i]) || d.network.hasHalted j) =
        after := by
      refine List.filter_eq_self.mpr fun j hj => ?_
      have hother : j ∉ before ++ [i] := fun hbefore => hdisjoint j hbefore j hj rfl
      rw [decide_eq_true hother, Bool.true_or]
    have hahead : before.filter (fun j => decide (j ∉ before ++ [i]) || d.network.hasHalted j) =
        before.filter d.network.hasHalted := by
      refine List.filter_congr fun j hj => ?_
      rw [decide_eq_false (not_not.mpr (List.mem_append_left _ hj)), Bool.false_or]
    rw [Network.closeAll, hclosings.roster, hids, List.filter_append, List.filter_cons_of_pos,
      hahead, hbehind]
    rw [hhalted, Bool.or_true]

theorem openLink_refused (d : Diary τ) {settings : Settings} {e : SettingsError}
    (h : settings.check = .error e) (generation : UInt64) (description : String) (plug : Plug τ) :
    d.network.openLink settings generation description plug = (.error e, d.network) ∧
      d.step (.openLink settings generation description plug) = d := by
  have hopen : d.network.openLink settings generation description plug = (.error e, d.network) := by
    rw [Network.openLink, h]
  refine ⟨hopen, ?_⟩
  rw [step, openLink, hopen]

omit [Channel τ] in
theorem openLink_accepted (n : Network τ) {settings : Settings} (h : settings.Valid)
    (generation : UInt64) (description : String) (plug : Plug τ) :
    ∃ n', n.openLink settings generation description plug = (.ok n.roster.nextId, n') ∧
      n'.roster.ids = n.roster.ids ++ [n.roster.nextId] ∧
      n'.roster.nextId = n.roster.nextId + 1 ∧ n'.isConnected n.roster.nextId = true := by
  have hcheck : settings.check = .ok () := h
  refine ⟨(n.openLink settings generation description plug).2, ?_⟩
  rw [Network.openLink, hcheck]
  refine ⟨rfl, rfl, rfl, ?_⟩
  have hlink := link?_put n n.roster.nextId
    ⟨.opened n.roster.nextId description settings generation n.now, plug, false⟩ n.roster.nextId
  rw [if_pos rfl] at hlink
  exact isConnected_of_link? hlink

theorem Kept.lifecycle (h : Kept d) (honward : Onward d d') : Lifecycle d d' where
  opened := h.opened
  listed := h.listed
  increasing := h.pairwise
  connected _ := h.mem_of_connected
  running _ := h.mem_iff
  at? k := by rw [Roster.at?, h.listed]
  size := by rw [Roster.size, h.listed, List.countP_eq_length_filter]
  isEmpty := by
    rw [Roster.isEmpty, h.listed, List.isEmpty_iff, List.filter_eq_nil_iff]
    exact forall₂_congr fun i _ => Bool.eq_false_iff.symm
  refused _ _ he generation description plug := openLink_refused d he generation description plug
  accepted _ hvalid generation description plug :=
    openLink_accepted d.network hvalid generation description plug
  cleared := h.cleared
  jammed _ _ _ := h.jammed
  unclosed i hconnected := (h.mem_ids.mp (h.mem_of_connected hconnected)).2
  closed i hi hclosed hends := by
    obtain ⟨s, hs⟩ := h.exists_station hi
    have hl := link?_of_get? hs
    have hfits := h.uses i s.link hl
    refine hfits.last (hends.elim ?_ fun hunlisted => ?_)
    · exact hfits.closed ((isConnected_of_link? hl).symm.trans hclosed)
    · by_contra hunclosed
      exact hunlisted (h.mem_ids.mpr ⟨by rw [hl]; nofun, hunclosed⟩)
  halts _ _ _ _ := hasHalted_perform
  reads i hi hclosed k := by
    obtain ⟨s, hs⟩ := h.exists_station hi
    have hl := link?_of_get? hs
    rw [queue_of_link? hl]
    exact reads_closed hs ((isConnected_of_link? hl).symm.trans hclosed) k
  readings i hi hclosed op hop := by
    obtain ⟨s, hs⟩ := h.exists_station hi
    have hl := link?_of_get? hs
    rw [queue_of_link? hl]
    exact reading_closed hs ((isConnected_of_link? hl).symm.trans hclosed) hop
  onward := honward

/-- Take any events, with any channels, and any more events after these. At either time the roster
lists the links that have not closed their channels, by increasing numbers. All links that are
connected are among them, and the others have met a fault. Refused settings change nothing.

From the first time to the second, a link that is closed stays closed. Unless a fault kept it from
doing so, it has closed its channel with its last call, whatever the channel said to that, and never
calls it again. What is read from it are the bundles that were ready, in order, before it says that
it is not connected. -/
theorem lifecycle_of_run (es later : List (Event τ)) :
    Lifecycle (start.run es) (start.run (es ++ later)) := by
  have hkept : Kept (start.run es) := (kept_start.effects (run_effects start es)).1
  rw [run_append]
  exact hkept.lifecycle (hkept.effects (run_effects _ later)).2

/-- a link of a channel that also fails to close, next to one on a memory channel -/
def closings : List (Event Script) :=
  [.openLink { fragmentSize := 0 } 1 "refused" (.own parting),
    .openLink {} 1 "scripted" (.own { parting with failingClose := true }),
    .newWire, .openLink {} 5 "memory" (.wire 0 .first), .call 0 .receive, .call 0 .close, .closeAll,
    .call 0 .receive, .call 0 .read, .call 0 .read]

example : ((start.run closings).network.roster.ids, (start.run closings).record.opened,
      (start.run closings).record.uses 0, (start.run closings).record.uses 1,
      (start.run closings).record.taken 0) =
    ([], [0, 1],
      [.read 65536, .read 65536, .write (Fragment.wire .plain (.ack ⟨9, 1⟩)), .flush, .close],
      [.close], [[104, 105]]) := by decide +kernel

/-- a link whose lag is too long to be multiplied, next to one on a memory channel -/
def overdue : List (Event Script) :=
  [.openLink { initialLag := .ofSeconds 4000000000000000000 } 1 "scripted" (.own parting),
    .newWire, .openLink {} 5 "memory" (.wire 0 .first), .call 0 .receive]

/-- Two fragments arrive for the first link, which is a fault. When the link is closed then, this is
all that becomes of it: whatever happens later, it stays on the roster, and its channel is never
closed. -/
theorem listed_for_good (later : List (Event Script)) :
    let d := start.run (overdue ++ .call 0 .close :: later)
    0 ∈ d.network.roster.ids ∧ d.network.isConnected 0 = false ∧ .close ∉ d.record.uses 0 := by
  intro d
  let closed : Diary Script := start.run (overdue ++ [.call 0 .close])
  have hrun : d = closed.run later := by
    rw [← run_append, List.append_assoc]
    rfl
  have honward : Onward closed d := by
    have hkept : Kept closed := (kept_start.effects (run_effects start _)).1
    exact hrun ▸ (hkept.effects (run_effects closed later)).2
  have hhalted : closed.network.hasHalted 0 = true := by decide +kernel
  have hlisted : 0 ∈ closed.network.roster.ids := by decide +kernel
  have huses : .close ∉ closed.record.uses 0 := by decide +kernel
  have hclosed : closed.network.isConnected 0 = false := by decide +kernel
  obtain ⟨-, hsame, -, hroster⟩ := honward.halted 0 hhalted
  obtain ⟨l, hl, hgone⟩ : ∃ l, closed.network.link? 0 = some l ∧ l.connected = false := by
    cases hl : closed.network.link? 0 with
    | none => exact absurd hl (by decide +kernel)
    | some l => exact ⟨l, rfl, (isConnected_of_link? hl).symm.trans hclosed⟩
  obtain ⟨⟨l', hl', hstill⟩, -⟩ := honward.gone 0 l hl hgone
  exact ⟨hroster.mpr hlisted, (isConnected_of_link? hl').trans hstill, hsame ▸ huses⟩

/-- and closing all links leaves those behind it open, the first time -/
example : let closed := (start.run (overdue ++ [.closeAll])).network
    (closed.roster.ids, closed.isConnected 0, closed.isConnected 1) = ([0, 1], false, true) := by
  decide +kernel

end Diary

end Network

end BundleLink
