import BundleLink.Proofs.Session.Provenance
import BundleLink.Proofs.Session.Slips

/-!
# One byte changed on the way

A link reads the wire forms of one bundle, one byte of which was changed. What it delivers, if
anything, is put together from fragments that it found, and these are found where the wire forms
start, or else where there is a marker by chance. So the bundle is the one that was sent, or a slip.

* `Chronicle.Altered`          the chronicle of a session that read such bytes;
* `Note.reads`                 what a note is about that is where a fragment starts;
* `Origin.restarted`           the entry was begun again if the header is not the true one;
* `Origin.straight`, `Origin.strayed`  the bundle with or without the fragments found by chance;
* `Session.delivered_tampered` the result;
* `Session.delivered_otherwise`  none of the exceptions can be left out.
-/

namespace BundleLink

open Fragment (Spot Garbled Starts)

/-! ## what a session makes of the changed bytes -/

/-- The fragments noted are the first ones that are found in the wire forms with one byte
changed. -/
def Chronicle.Altered (c : Chronicle) (parts : List Fragment) (i : Nat) (byte : UInt8) : Prop :=
  c.notes.map Note.toFind <+:
    Wire.finds 0 (Wire.scan .checksummed ((Fragment.wires .checksummed parts).set i byte)).1

variable {c : Chronicle} {parts before after : List Fragment} {f : Fragment} {i r : Nat}
  {byte : UInt8} {o : Origin}

namespace Chronicle.Altered

theorem of_noted (h : c.Noted .checksummed)
    (hheard : c.heard <+: (Fragment.wires .checksummed parts).set i byte) :
    c.Altered parts i byte := by
  obtain ⟨more, hmore⟩ := hheard
  rw [Altered, ← hmore, (Wire.finds_append .checksummed 0 c.heard more).1]
  exact h.trans (List.prefix_append _ _)

theorem stands (h : c.Altered parts i byte) {n : Note} (hn : n ∈ c.notes) :
    n.toFind.Stands .checksummed ((Fragment.wires .checksummed parts).set i byte) :=
  (Wire.finds_scan .checksummed [] _).stands _ (h.subset (List.mem_map_of_mem hn))

theorem apart (h : c.Altered parts i byte) :
    c.notes.Pairwise fun m n => m.toFind.Before .checksummed n.toFind :=
  List.pairwise_map.mp ((Wire.finds_scan .checksummed [] _).apart.sublist h.sublist)

end Chronicle.Altered

/-- what a note is about that is where a fragment starts -/
theorem Note.reads (haltered : c.Altered parts i byte)
    (hspot : Spot .checksummed parts i before f after r)
    (hparts : ∀ f ∈ parts, f.Fits .checksummed) {n : Note} (hn : n ∈ c.notes)
    (hstarts : Starts .checksummed parts n.offset) :
    (∃ done todo, parts = done ++ n.fragment :: todo ∧
      n.offset = (Fragment.wires .checksummed done).length ∧ n.fragment ∈ before ++ after) ∨
      n.offset = (Fragment.wires .checksummed before).length ∧
        Garbled f r byte (Fragment.wires .checksummed after) n.fragment := by
  obtain ⟨done, g, todo, hsplit, hoffset⟩ := hstarts
  rcases hspot.reads hparts (haltered.stands hn) hsplit hoffset with ⟨rfl, hmem⟩ | ⟨rfl, hgarbled⟩
  · exact .inl ⟨done, todo, hsplit, hoffset, hmem⟩
  · exact .inr ⟨hoffset, hgarbled⟩

/-- If the header that was read is not the true one, the entry was begun again, with the fragment
behind the true header. -/
theorem Origin.From.again {header : Fragment} (h : o.From c.notes)
    (haltered : c.Altered parts i byte)
    (hspot : Spot .checksummed parts i (header :: before) f after r)
    (hheader : header.Fits .checksummed ∧ header.number = 0 ∧ header.isPart = true)
    (hoffset : o.header.offset = (Fragment.wires .checksummed (header :: before)).length)
    {d : Note} (hd : o.data[0]? = some d)
    (hnext : d.offset = (Fragment.wires .checksummed [header]).length) :
    ∃ n ∈ c.notes, n.created = true ∧
      n.offset = (Fragment.wires .checksummed [header]).length := by
  obtain ⟨past, w, later, hns, ⟨first, rest, hkey, hcreated, -⟩, -, hfound, hdata⟩ := h
  have hone : (Fragment.wires .checksummed [header]).length = header.wireLength .checksummed := by
    rw [Fragment.wires_cons, Fragment.wires_nil, List.append_nil, Fragment.length_wire]
  have hapart := haltered.apart
  rw [hns, List.pairwise_append, List.pairwise_append, List.pairwise_cons] at hapart
  obtain ⟨⟨-, ⟨hbehind, -⟩, hpast⟩, -, -⟩ := hapart
  refine ⟨first, by rw [hns]; simp, hcreated, Nat.le_antisymm ?_ ?_⟩
  · -- it is not behind the data fragment
    rw [← hnext]
    rcases List.mem_cons.mp (List.mem_of_find?_eq_some (hdata 0 d hd)) with rfl | hmem
    · exact Nat.le_refl _
    · exact Nat.le_trans (Nat.le_of_lt (Wire.Find.lt_stop .checksummed _)) (hbehind d hmem)
  · -- the true header is the first fragment that is found, and it is not this one
    have hnotes := haltered
    rw [Chronicle.Altered, hspot.set, Fragment.wires_cons, List.append_assoc,
      Wire.scan_wire hheader.1, hns] at hnotes
    cases past with
    | nil =>
      have hsame := (List.cons_prefix_cons.mp hnotes).1
      have hfragment : first.fragment = header := congrArg Wire.Find.fragment hsame
      have hfor : first.isFor o.key 0 = true := by
        refine Note.isFor_iff.mpr ⟨hkey, by rw [hfragment]; exact hheader.2.2, ?_⟩
        rw [hfragment, Fragment.slot, hheader.2.1]
        rfl
      rw [List.find?_cons_of_pos hfor, Option.some.injEq] at hfound
      have hzero : first.offset = 0 := congrArg Wire.Find.offset hsame
      have hpos := Wire.headerLength_pos .checksummed
      rw [← hfound, hzero, Fragment.wires_cons, List.length_append, Fragment.length_wire,
        Fragment.wireLength] at hoffset
      omega
    | cons n past =>
      have hsame := (List.cons_prefix_cons.mp hnotes).1
      have hbefore := hpast n List.mem_cons_self first List.mem_cons_self
      rw [hsame] at hbefore
      rw [hone, ← Nat.zero_add (header.wireLength .checksummed)]
      exact hbefore

/-- a delivery in which a fragment was used that does not stand where one starts -/
theorem Origin.strayed (haltered : c.Altered parts i byte)
    (hspot : Spot .checksummed parts i before f after r)
    (hparts : ∀ f ∈ parts, f.Fits .checksummed)
    (hstands : ∀ n ∈ c.notes, n.toFind.Stands .checksummed c.heard)
    (hgenuine : o.Genuine .checksummed) (hfrom : o.From c.notes) {n : Note} (hn : n ∈ o.notes)
    (hnowhere : ¬ Starts .checksummed parts n.offset) : Slip before f after r c o.bundle := by
  have hmem := (hfrom.mem hn).1
  refine .strayed o n (Decidable.byContradiction fun hframing => hnowhere ?_) hgenuine hfrom hn
    (hstands n hmem) (by rwa [← hspot.split])
  exact hspot.starts hparts (by omega) (haltered.subset (List.mem_map_of_mem hmem))

/-- A note of none of the fragments that were left as they are is where the changed one starts. -/
theorem Note.garbled (haltered : c.Altered parts i byte)
    (hspot : Spot .checksummed parts i before f after r)
    (hparts : ∀ f ∈ parts, f.Fits .checksummed) {n : Note} (hn : n ∈ c.notes)
    (hstarts : Starts .checksummed parts n.offset) (hout : n.fragment ∉ before ++ after) :
    n.offset = (Fragment.wires .checksummed before).length ∧
      Garbled f r byte (Fragment.wires .checksummed after) n.fragment := by
  refine (Note.reads haltered hspot hparts hn hstarts).resolve_left ?_
  rintro ⟨-, -, -, -, hmem⟩
  exact hout hmem

section straight

variable {header : Fragment} {data : List Fragment}

theorem Bundle.Sound.isPart {layout : Layout} (h : Sound layout header data) :
    header.isPart = true := by
  have hpos := List.length_pos_iff.mpr h.nonempty
  have hlength : ¬ header.length ≤ 0 := by
    rw [Int16.le_iff_toInt_le, h.declared, Int16.toInt_zero]
    omega
  simp [Fragment.isPart, hlength]

/-- The first of the data fragments that were joined is the first one behind the true header, if
the header that was read is the changed fragment. -/
theorem Origin.offset_first (haltered : c.Altered (header :: data) i byte)
    (hspot : Spot .checksummed (header :: data) i before f after r)
    (hparts : ∀ f ∈ header :: data, f.Fits .checksummed)
    (hsound : Bundle.Sound .checksummed header data)
    (hgenuine : o.Genuine .checksummed)
    (hheader : Garbled f r byte (Fragment.wires .checksummed after) o.header.fragment)
    {d : Note} (hd : o.data[0]? = some d) (hn : d ∈ c.notes)
    (hstarts : Starts .checksummed (header :: data) d.offset) :
    d.offset = (Fragment.wires .checksummed [header]).length := by
  have hone : d.fragment.number.toInt = 1 :=
    hgenuine.sound.numbered 0 d.fragment (by rw [List.getElem?_map, hd]; rfl)
  rcases Note.reads haltered hspot hparts hn hstarts with
    ⟨done, todo, hsplit, hoffset, -⟩ | ⟨-, hgarbled⟩
  · have hplace := hsound.number_at (i := done.length) (f := d.fragment)
      (by rw [hsplit, List.getElem?_append_right (Nat.le_refl _), Nat.sub_self]; rfl)
    have hlength : done.length = 1 := by omega
    obtain ⟨first, rfl⟩ := List.length_eq_one_iff.mp hlength
    rw [(List.cons.inj hsplit).1]
    exact hoffset
  · -- it is not read where the header was
    rw [← hheader.unique hgarbled, hgenuine.sound.number] at hone
    cases hone

/-- If the header that was read is the changed fragment and not the first one, the entry was begun
again behind the true header. -/
theorem Origin.restarted (haltered : c.Altered (header :: data) i byte)
    (hspot : Spot .checksummed (header :: data) i before f after r)
    (hparts : ∀ f ∈ header :: data, f.Fits .checksummed)
    (hsound : Bundle.Sound .checksummed header data)
    (hgenuine : o.Genuine .checksummed) (hfrom : o.From c.notes)
    (hstarts : ∀ n ∈ o.notes, Starts .checksummed (header :: data) n.offset)
    (hout : o.header.fragment ∉ before ++ after) (hne : before ≠ []) :
    ∃ n ∈ c.notes, n.created = true ∧
      n.offset = (Fragment.wires .checksummed (before.take 1)).length := by
  obtain ⟨first, rest, rfl⟩ := List.exists_cons_of_ne_nil hne
  obtain ⟨rfl, -⟩ := List.cons.inj (hspot.split.trans (List.cons_append ..))
  obtain ⟨d, ds, hd⟩ := List.exists_cons_of_ne_nil fun hnil : o.data = [] =>
    hgenuine.sound.nonempty (by rw [hnil]; rfl)
  have hget : o.data[0]? = some d := by rw [hd]; rfl
  have hmem : d ∈ o.notes := by rw [Origin.notes, hd]; simp
  have hheader : o.header ∈ o.notes := List.mem_cons_self
  obtain ⟨hoffset, hgarbled⟩ := Note.garbled haltered hspot hparts (hfrom.mem hheader).1
    (hstarts _ hheader) hout
  exact hfrom.again haltered hspot ⟨hparts _ List.mem_cons_self, hsound.number, hsound.isPart⟩
    hoffset hget (Origin.offset_first haltered hspot hparts hsound hgenuine hgarbled hget
      (hfrom.mem hmem).1 (hstarts d hmem))

/-- What was joined is the fragments that were left as they are, and the changed one. -/
theorem Origin.tampered (haltered : c.Altered (header :: data) i byte)
    (hspot : Spot .checksummed (header :: data) i before f after r)
    (hparts : ∀ f ∈ header :: data, f.Fits .checksummed)
    (hsound : Bundle.Sound .checksummed header data)
    (hgenuine : o.Genuine .checksummed) (hfrom : o.From c.notes)
    (hstarts : ∀ n ∈ o.notes, Starts .checksummed (header :: data) n.offset)
    {n : Note} (hn : n ∈ o.notes) (hout : n.fragment ∉ before ++ after) :
    Bundle.Tampered header data before f after r byte o.header.fragment
      (o.data.map (·.fragment)) n.fragment := by
  have hgarbled {m : Note} (hm : m ∈ o.notes) (hout : m.fragment ∉ before ++ after) :=
    (Note.garbled haltered hspot hparts (hfrom.mem hm).1 (hstarts m hm) hout).2
  refine ⟨hsound, hparts, hspot.split, hspot.inside, hgarbled hn hout, hgenuine.sound,
    fun x hx => ?_⟩
  obtain ⟨m, hm, rfl⟩ : ∃ m ∈ o.notes, m.fragment = x := List.mem_map.mp hx
  by_cases hmem : m.fragment ∈ before ++ after
  · exact .inl hmem
  · exact .inr ((hgarbled hm hmem).unique (hgarbled hn hout))

/-- a delivery in which all fragments used stand where one starts -/
theorem Origin.straight (haltered : c.Altered (header :: data) i byte)
    (hspot : Spot .checksummed (header :: data) i before f after r)
    (hparts : ∀ f ∈ header :: data, f.Fits .checksummed)
    (hsound : Bundle.Sound .checksummed header data)
    (hgenuine : o.Genuine .checksummed) (hfrom : o.From c.notes)
    (hstarts : ∀ n ∈ o.notes, Starts .checksummed (header :: data) n.offset) :
    o.bundle = Bundle.payloads data ∨ Slip before f after r c o.bundle := by
  rw [hgenuine.bundle]
  by_cases hin : ∀ n ∈ o.notes, n.fragment ∈ before ++ after
  · left
    refine hsound.payloads_congr hgenuine.sound fun x hx => ?_
    obtain ⟨n, hn, rfl⟩ : ∃ n ∈ o.notes, n.fragment = x := List.mem_map.mp hx
    refine ⟨n.fragment, ?_, rfl, rfl, rfl⟩
    rw [hspot.split]
    rcases List.mem_append.mp (hin n hn) with hmem | hmem
    · exact List.mem_append_left _ hmem
    · exact List.mem_append_right _ (List.mem_cons_of_mem _ hmem)
  · obtain ⟨n, hn, hout⟩ : ∃ n ∈ o.notes, n.fragment ∉ before ++ after := by
      simpa only [Classical.not_forall, exists_prop] using hin
    have htampered :=
      Origin.tampered haltered hspot hparts hsound hgenuine hfrom hstarts hn hout
    exact htampered.payloads_or_slip
      (Origin.restarted haltered hspot hparts hsound hgenuine hfrom hstarts)

end straight

namespace Session

variable {σ : Type} [Channel σ] {s : Session σ} {k : Key} {buffer : Bytes}

/-- In any session of a fresh link in the checksummed layout that reads the wire forms of the
fragments of a buffer with one byte changed, in whatever chunks and at whatever times, each bundle
that is delivered is the buffer, or a slip. -/
theorem delivered_tampered (id : Nat) (description : String) (settings : Settings)
    (generation : UInt64) (start : Moment) (channel : σ) (es : List Event) (size : Nat)
    (hlayout : settings.layout = .checksummed) (hes : ∀ l, .setLayout l ∈ es → l = .checksummed)
    (hparts : Bundle.split .checksummed size k buffer = .ok parts)
    (hi : i < (Fragment.wires .checksummed parts).length)
    (hs : s = opened id description settings generation start channel)
    (hc : c = s.chronicle .blank es)
    (hheard : c.heard <+: (Fragment.wires .checksummed parts).set i byte) :
    ∃ before f after r, Spot .checksummed parts i before f after r ∧
      ∀ b ∈ (s.run es).party.delivered, b = buffer ∨ Slip before f after r c b := by
  have hopened := chronicled_opened id description settings generation start channel
  rw [hlayout, ← hs] at hopened
  have hrun := hopened.run es hes
  rw [← hc] at hrun
  have haltered := Chronicle.Altered.of_noted hrun.noted hheard
  have hstands (n : Note) (hn : n ∈ c.notes) : n.toFind.Stands .checksummed c.heard :=
    (Wire.finds_scan .checksummed [] c.heard).stands _
      (hrun.noted.subset (List.mem_map_of_mem hn))
  obtain ⟨before, f, after, r, hspot⟩ := Fragment.exists_spot hi
  refine ⟨before, f, after, r, hspot, fun b hb => ?_⟩
  obtain ⟨os, htold, -⟩ := hrun.sources
  rw [Party.delivered, htold.delivered] at hb
  obtain ⟨o, ho, rfl⟩ := List.mem_map.mp hb
  obtain ⟨hgenuine, hfrom⟩ := htold.origins.genuine o ho
  have hcut := Bundle.Parts.of_split hparts
  by_cases hstarts : ∀ n ∈ o.notes, Starts .checksummed parts n.offset
  · obtain ⟨header, data, rfl, hsound, rfl⟩ := hcut.sound
    exact Origin.straight haltered hspot hcut.fits hsound hgenuine hfrom hstarts
  · obtain ⟨n, hn, hnowhere⟩ : ∃ n ∈ o.notes, ¬ Starts .checksummed parts n.offset := by
      simpa only [Classical.not_forall, exists_prop] using hstarts
    exact .inr (Origin.strayed haltered hspot hcut.fits hstands hgenuine hfrom hn hnowhere)

/-- a link in the checksummed layout that listens to a channel with these readings -/
def tuned (readings : List (Except IoError Arrival)) : Session Script :=
  opened 7 "scripted" { layout := .checksummed } 1 .start { noisy with readings := readings }

/-- the wire forms of a buffer with one byte changed -/
def mangled (size : Nat) (buffer : Bytes) (i : Nat) (byte : UInt8) : Bytes :=
  match Bundle.split .checksummed size ⟨9, 1⟩ buffer with
  | .error _ => []
  | .ok parts => (Fragment.wires .checksummed parts).set i byte

/-- the fragments of two bytes, one in each data fragment -/
def twofold : List Fragment :=
  [.header 9 1 2 97, ⟨9, 1, 1, 1, 97, some [97]⟩, ⟨9, 1, 2, 1, 0, some [0]⟩]

def shortened : Session Script := tuned [.ok (.data (mangled 1 [97, 0] 25 1))]

/-- The header is changed to declare one data fragment, and the one that is left out is a zero. -/
theorem delivered_tampered_shortened :
    (shortened.run [.act .receive .start]).party.delivered = [[97]] ∧
      ∃ before f after r, Spot .checksummed twofold 25 before f after r ∧
        Slip before f after r (shortened.chronicle .blank [.act .receive .start]) [97] := by
  have hpieces : Bundle.pieces 1 [97, 0] = [[97], [0]] := by decide +kernel
  have hparts : Bundle.split .checksummed 1 ⟨9, 1⟩ [97, 0] = .ok twofold := by
    rw [Bundle.split_eq_ok, hpieces]
    decide
  have hheard : (shortened.chronicle .blank [.act .receive .start]).heard =
      (Fragment.wires .checksummed twofold).set 25 1 := by decide +kernel
  have hrun : (shortened.run [.act .receive .start]).party.delivered = [[97]] := by decide +kernel
  obtain ⟨before, f, after, r, hspot, hall⟩ := delivered_tampered 7 "scripted"
    { layout := .checksummed } 1 .start _ [.act .receive .start] 1 (i := 25) rfl (by simp) hparts
    (by decide) (s := shortened) rfl rfl ⟨[], by rw [List.append_nil, hheard]⟩
  have hslip := hall [97] (by rw [hrun]; exact List.mem_singleton.mpr rfl)
  exact ⟨hrun, before, f, after, r, hspot, hslip.resolve_left (by decide)⟩

/-- a buffer that holds the wire forms of another bundle -/
def nested : Bytes :=
  Fragment.wires .checksummed [.header 9 2 1 33, ⟨9, 2, 1, 1, 33, some [33]⟩]

/-- All four kinds of slips occur. -/
theorem delivered_otherwise :
    ((tuned [.ok (.data (mangled 1 [97, 0] 25 1))]).run [.act .receive .start]).party.delivered =
      [[97]] ∧
    ((tuned [.ok (.data (mangled 2 [97, 0] 59 1))]).run [.act .receive .start]).party.delivered =
      [[97]] ∧
    ((tuned [.ok (.data ((mangled 1 [97, 97] 92 0).take 34)), .ok .nothing, .ok .nothing,
        .ok (.data ((mangled 1 [97, 97] 92 0).drop 34))]).run
      [.act .receive .start, .act .receive ⟨6000000000⟩,
        .act .receive ⟨6000000001⟩]).party.delivered = [[97]] ∧
    ((tuned [.ok (.data (mangled 100 nested 34 0))]).run [.act .receive .start]).party.delivered =
      [[33]] := by decide +kernel

end Session

end BundleLink
