import RumKernel.Fat16.Slots
import RumKernel.Fat16.Walk
import RumKernel.Fs.Tables

/-!
# Directory iteration

A caller reads an open directory with `fs_readdir`, from cursor 0 until `FS_END`, while other owners change the volume
between the calls. An iteration is a run of calls, of mutations by others that succeed, and of calls that change no
entry. Its invariant: the cursor stands behind slots that a search can pass, and what was returned has increasing
positions before it.
-/

namespace RumKernel.Fat16
open Lib Fs Prog

variable {x : Image} {w w' : World} {c d id k n s : Nat} {e : Entry} {name : Name}
variable {o : Description} {op : Mutation}

/-! ## `fs_readdir` over the volume -/

/-- The `operations` table of `fat16.c` and the backend `mount_volume` makes of it. A directory entry tells no
identifier. -/
def fat16Backend (readOnly : Bool) : Backend World where
  root := rootId
  readOnly := readOnly
  lookup := lookup
  stat := statNode
  retain := retain
  release := release
  read := readFile
  readdir id cursor := do
    let (entry, name, next) ← readdirNode id cursor
    return ({ id := 0, size := entry.node.size, kind := entry.node.kind }, name, next)
  write := some writeFile
  replace := some replaceFile
  remove := some removeNode
  mkdir := some mkdirNode
  truncate := some truncateFile
  flush := some fat16Flush

/-- The reference `token` is open on the directory with the identifier `id`, and pins it. -/
structure Opened (s : Namespace World) (token id : Nat) : Prop where
  reference : ∃ r, findReference s.references token = some r ∧ (s.objects (s.references r).object).id = id ∧
    (s.objects (s.references r).object).kind = .directory
  pinned : pinned s.volume.pins id = true

/-- What `fs_readdir` can return: an entry that decodes and is found by name, the end, or another error. -/
inductive Answered (w : World) (id d c : Nat) : Except FsError (FsNode × Name × Nat) → Prop where
  | entry {k s : Nat} {o desc : Description} {name : Name} {w1 : World} : c ≤ k →
    (∀ j, c ≤ j → j < k → w.image.Skips d j) → (w.image.slots d)[k]? = some s →
    decode w.geo w.fat (w.image.entry s) s = .ok (o, name) → (describe id).run w = (.ok desc, w1) →
    DirDesc w.image d desc → Looked w w1 →
    Answered w id d c (.ok ({ id := 0, size := o.node.size, kind := o.node.kind }, name, k + 1))
  | finished : Iterated w.image d c (.error .end) → Answered w id d c (.error .end)
  | failed {r : FsError} : r ≠ .end → Answered w id d c (.error r)

lemma decode_name {g : Geometry} {fat : Mem} (h : decode g fat e id = .ok (o, name)) :
    fsNameCheck name = .ok () ∧ name.map upper = name := by
  obtain ⟨stem, ext, hs, hx, he, hc⟩ := shortName_ok (decode_shortName h)
  have hdot : upper dotByte = dotByte := rfl
  have hup : ∀ {start n part}, namePart e start n = .ok part → part.map upper = part := by
    intro start n part hp
    rw [namePart_ok hp, List.map_map]
    exact List.map_congr_left fun _ _ => upper_upper _
  refine ⟨hc, ?_⟩
  rw [he, List.map_append, hup hs]
  split
  · rfl
  · rw [List.map_cons, hdot, hup hx]

lemma Opened.busy {t : Namespace World} {token : Nat} {b : Bool} (h : Opened t token id) :
    Opened { t with busy := b } token id := ⟨h.reference, h.pinned⟩

/-- **One call** of `fs_readdir` on an open directory, on any device. -/
lemma fsReaddir_cases {t : Namespace World} {token : Nat} {ro : Bool} (ho : Opened t token id)
    (hw : Coherent t.volume) (hs : t.volume.image.Sound) (hid : DirId t.volume.image id d) :
    ∃ q t', (fsReaddir (fat16Backend ro) token c).run t = (q, t') ∧ Looked t.volume t'.volume ∧
      Opened t' token id ∧ Answered t.volume id d c q := by
  obtain ⟨r, hr, rfl, hkind⟩ := ho.reference
  obtain ⟨q, w', hq, hl, hscan, hdesc⟩ := readdirNode_cases (c := c) hw hs hid
  have hpins : w'.pins = t.volume.pins := congrArg Vol.pins hl.vol
  -- every way out leaves the tables as they were
  have hsame : Opened { t with volume := w', busy := false } token _ :=
    ⟨⟨r, hr, rfl, hkind⟩, show pinned w'.pins _ = true from hpins ▸ ho.pinned⟩
  have hnow : Opened { t with busy := false } token _ := ho.busy
  unfold fsReaddir
  rw [operation_run]
  by_cases hready : t.ready = true
  swap
  · rw [if_pos (by simpa using hready)]
    exact ⟨_, t, rfl, refl_of Looked t.volume, ho, .failed nofun⟩
  rw [if_neg (by simpa using hready)]
  by_cases hbusy : t.busy = true
  · rw [if_pos hbusy]
    exact ⟨_, t, rfl, refl_of Looked t.volume, ho, .failed nofun⟩
  rw [if_neg hbusy]
  have href : (referenced token).run { t with busy := true } =
      (.ok (t.objects (t.references r).object, (t.references r).access), { t with busy := true }) := by
    simp only [referenced, bind_run, get_run, hr, pure_run]
  rw [bind_run_ok href]
  by_cases hacc : (t.references r).access &&& readAccess = 0
  · simp only [hacc, if_true]
    exact ⟨_, _, rfl, refl_of Looked t.volume, hnow, .failed nofun⟩
  simp only [hacc, if_false, hkind, ne_eq, not_true_eq_false]
  cases hscan with
  | failed hne =>
    have hback : ((fat16Backend ro).readdir (t.objects (t.references r).object).id c).run t.volume = (.error _, w') :=
      bind_run_error hq
    simp only [bind_run, backend, hback]
    exact ⟨_, _, rfl, hl, hsame, .failed hne⟩
  | finished hall hend =>
    have hback : ((fat16Backend ro).readdir (t.objects (t.references r).object).id c).run t.volume = (.error _, w') :=
      bind_run_error hq
    simp only [bind_run, backend, hback]
    exact ⟨_, _, rfl, hl, hsame, .finished (.finished hall hend)⟩
  | found hk hall hslot hdec =>
    obtain ⟨desc, w1, hdescribe, hd, hl1⟩ := hdesc _ rfl
    obtain ⟨hcheck, hup⟩ := decode_name hdec
    have hback : ((fat16Backend ro).readdir (t.objects (t.references r).object).id c).run t.volume = (.ok _, w') :=
      bind_run_ok hq
    simp only [bind_run, backend, hback]
    rw [if_neg (not_or.mpr ⟨by omega, not_not.mpr hcheck⟩), hup]
    exact ⟨_, _, rfl, hl, hsame, .entry hk hall hslot hdec hdescribe hd hl1⟩

section
variable (h : Held x id d c) (hall : ∀ j, c ≤ j → j < k → x.Skips d j) (hslot : (x.slots d)[k]? = some s)
include h hall hslot

lemma Held.advance (hdec : decode x.geo x.fat (x.entry s) s = .ok (o, name)) : Held x id d (k + 1) := by
  refine ⟨h.sound, h.dir, fun j hj => ?_, h.names⟩
  by_cases hc : j < c
  · exact h.passed j hc
  rcases Nat.eq_or_lt_of_le (Nat.le_of_lt_succ hj) with rfl | hlt
  · refine ⟨s, hslot, (decode_ok hdec).2.1, ?_⟩
    rw [tag_named_of_decode hdec]
    nofun
  · obtain ⟨t, ht, h0, hskip⟩ := hall j (by omega) hlt
    refine ⟨t, ht, h0, ?_⟩
    rw [hskip]
    nofun

lemma Held.found (hdec : decode x.geo x.fat (x.entry s) s = .ok (o, name)) :
    x.forest.Obj d s (x.entry s) ∧ ∀ j < k, ∃ t, (x.slots d)[j]? = some t ∧ x.tag (x.entry t) ≠ .broken ∧
      x.tag (x.entry t) ≠ .named name := by
  have hnew := h.advance hall hslot hdec
  have hobj : ∀ {j t m}, j < k + 1 → (x.slots d)[j]? = some t → x.tag (x.entry t) = .named m →
      x.forest.Obj d t (x.entry t) := by
    intro j t m hj ht hm
    rcases (hnew.inFront hj).cases h.sound h.dir ht with ho | hskip
    · exact ho
    · rw [tag_of_notFound hskip] at hm
      cases hm
  have ho := hobj (Nat.lt_succ_self k) hslot (tag_named_of_decode hdec)
  refine ⟨ho, fun j hj => ?_⟩
  obtain ⟨t, ht, -, hb⟩ := hnew.passed j (by omega)
  refine ⟨t, ht, hb, fun hm => ?_⟩
  obtain rfl := h.names _ _ _ _ _ (hobj (by omega) ht hm) ho hm (tag_named_of_decode hdec)
  have hlt := (List.getElem?_eq_some_iff.mp ht).1
  have := (List.getElem?_inj hlt (h.sound.slots_nodup h.dir.reach)).mp (ht.trans hslot.symm)
  omega

end

/-! ## Whole iterations -/

/-- An iteration at one moment: the namespace, the caller's cursor, and what has been returned so far with the
position of its slot. -/
structure Listing where
  names : Namespace World
  cursor : Nat
  returned : List (Nat × FsNode × Name)

namespace Listing

def image (l : Listing) : Image := l.names.volume.image

/-- The next call of `fs_readdir`. -/
abbrev answer (l : Listing) (ro : Bool) (token : Nat) : Except FsError (FsNode × Name × Nat) × Namespace World :=
  (fsReaddir (fat16Backend ro) token l.cursor).run l.names

/-- One step: a call of `fs_readdir` on the reference `token`, which moves the cursor when it returns an entry and
leaves it at an error; a mutation by another owner that succeeds; or another call that looks at the volume, changes
the tables or takes and drops pins, and leaves the reference open. -/
inductive Step (ro : Bool) (token id : Nat) : Listing → Listing → Prop where
  | entry {l : Listing} {node : FsNode} {name : Name} {next : Nat} {t : Namespace World} :
    l.answer ro token = (.ok (node, name, next), t) →
    Step ro token id l ⟨t, next, l.returned ++ [(next - 1, node, name)]⟩
  | error {l : Listing} {r : FsError} {t : Namespace World} :
    l.answer ro token = (.error r, t) →
    Step ro token id l ⟨t, l.cursor, l.returned⟩
  | mutation {l : Listing} {op : Mutation} {w : World} : op.Legal l.image → op.Canonical →
    op.run.run l.names.volume = (.ok (), w) → Step ro token id l { l with names := { l.names with volume := w } }
  | other {l : Listing} {w : World} {t : Namespace World} : Looked l.names.volume w →
    t.volume = { w with pins := t.volume.pins } → Opened t token id → Step ro token id l { l with names := t }

/-- The invariant of an iteration. -/
structure Inv (l : Listing) (token id d : Nat) : Prop where
  opened : Opened l.names token id
  coherent : Coherent l.names.volume
  synced : Synced l.names.volume.vol
  held : Held l.image id d l.cursor
  increasing : (l.returned.map Prod.fst).Pairwise (· < ·)
  below : ∀ y ∈ l.returned, y.1 < l.cursor

variable {l l' : Listing} {token : Nat} {ro : Bool}

lemma Inv.cursor_le (h : l.Inv token id d) : l.cursor ≤ (l.image.slots d).length := by
  by_contra hlt
  obtain ⟨s, hs, -⟩ := h.held.passed (l.image.slots d).length (by omega)
  simp at hs

lemma Inv.answered (h : l.Inv token id d) {t : Namespace World} {q : Except FsError (FsNode × Name × Nat)}
    (hrun : l.answer ro token = (q, t)) :
    Looked l.names.volume t.volume ∧ Opened t token id ∧ Answered l.names.volume id d l.cursor q := by
  obtain ⟨q', t', hrun', hl, ho, ha⟩ := fsReaddir_cases h.opened h.coherent h.held.sound h.held.dir
  obtain ⟨rfl, rfl⟩ := Prod.mk.inj (hrun.symm.trans hrun')
  exact ⟨hl, ho, ha⟩

lemma synced_of_looked (h : Looked w w') (hs : Synced w.vol) : Synced w'.vol := by
  rw [h.vol]
  exact hs

/-- What one step keeps: the invariant, the slots, and that a position the cursor moves over without returning it was
passed over in the directory as it was. -/
structure Kept (l l' : Listing) (token id d : Nat) : Prop where
  inv : l'.Inv token id d
  slots : l.image.slots d <+: l'.image.slots d
  cursor : l.cursor ≤ l'.cursor
  returned : ∀ y ∈ l.returned, y ∈ l'.returned
  skipped : ∀ k, l.cursor ≤ k → k < l'.cursor → k ∈ l'.returned.map Prod.fst ∨ l.image.Skips d k

section
variable (h : l.Inv token id d)
include h

lemma Inv.unmoved {t : Namespace World} (ho : Opened t token id) (hc : Coherent t.volume)
    (hs : Synced t.volume.vol) (hi : t.volume.image = l.image) : Kept l ⟨t, l.cursor, l.returned⟩ token id d := by
  have hi' : (⟨t, l.cursor, l.returned⟩ : Listing).image = l.image := hi
  exact ⟨⟨ho, hc, hs, hi' ▸ h.held, h.increasing, h.below⟩, by rw [hi'], Nat.le_refl _, fun _ hy => hy,
    fun k h1 h2 => absurd h2 (Nat.not_lt.mpr h1)⟩

lemma Inv.entry {t : Namespace World} (hl : Looked l.names.volume t.volume)
    (ho : Opened t token id) (hk : l.cursor ≤ k) (hall : ∀ j, l.cursor ≤ j → j < k → l.image.Skips d j)
    (hslot : (l.image.slots d)[k]? = some s)
    (hdec : decode l.image.geo l.image.fat (l.image.entry s) s = .ok (o, name)) {node : FsNode} :
    Kept l ⟨t, k + 1, l.returned ++ [(k, node, name)]⟩ token id d := by
  have himage : t.volume.image = l.image := hl.image
  have hheld : Held t.volume.image id d (k + 1) := himage ▸ h.held.advance hall hslot hdec
  have hpairs : ((l.returned ++ [(k, node, name)]).map Prod.fst).Pairwise (· < ·) := by
    rw [List.map_append, List.pairwise_append]
    refine ⟨h.increasing, List.pairwise_singleton _ _, fun i hi j hj => ?_⟩
    obtain ⟨y, hy, rfl⟩ := List.mem_map.mp hi
    obtain rfl : j = k := List.mem_singleton.mp hj
    exact (h.below y hy).trans_le hk
  have hbelow : ∀ y ∈ l.returned ++ [(k, node, name)], y.1 < k + 1 := by
    intro y hy
    rcases List.mem_append.mp hy with hy | hy
    · exact ((h.below y hy).trans_le hk).trans (Nat.lt_succ_self k)
    · rw [List.mem_singleton.mp hy]
      exact Nat.lt_succ_self k
  refine ⟨⟨ho, hl.coherent h.coherent, synced_of_looked hl h.synced, hheld, hpairs, hbelow⟩, ?_,
    hk.trans (Nat.le_succ k), fun y hy => List.mem_append_left _ hy, fun j h1 h2 => ?_⟩
  · show l.image.slots d <+: t.volume.image.slots d
    rw [himage]
  · rcases Nat.eq_or_lt_of_le (Nat.le_of_lt_succ h2) with rfl | hlt
    · exact .inl (by simp)
    · exact .inr (hall j h1 hlt)

lemma Inv.mutation (hlegal : op.Legal l.image) (hcanon : op.Canonical)
    (hrun : op.run.run l.names.volume = (.ok (), w)) :
    Kept l ⟨{ l.names with volume := w }, l.cursor, l.returned⟩ token id d := by
  have hheld : Held l.names.volume.vol.image id d l.cursor := h.held
  have hpinned : pinned l.names.volume.vol.pins id = true := h.opened.pinned
  have hheal := Replays.mutation op l.names.volume () w hrun
  have happly := (op.runs (v := l.names.volume.vol) hheld.sound hlegal).apply (World.heal_good h.coherent) rfl
  rw [hheal] at happly
  obtain ⟨hgood, hres⟩ := happly
  replace hres : Mutation.Result l.names.volume.vol op w.vol := hres
  have hcoh : Coherent w := hgood.2
  rcases hres.turned hlegal hcanon with hf | ⟨p, d0, pre, post, new, grow, old, hdone, hturn⟩
  · have hpins : pinned w.vol.pins id = true := by
      obtain ⟨a, b, o, c, hv⟩ := hf
      rw [hv]
      exact hpinned
    exact h.unmoved ⟨h.opened.reference, hpins⟩ hcoh (hf.consistent ⟨h.synced, hheld.sound⟩).1.synced hf.image
  · have hheld' : Held w.vol.image id d l.cursor := hheld.turn hdone hturn h.synced hpinned
    have hslots : l.names.volume.vol.image.slots d <+: w.vol.image.slots d :=
      hheld.slot_kept hdone hturn h.synced hpinned
    have hpins : pinned w.vol.pins id = true := by
      rw [hdone.mount.pins]
      exact hpinned
    exact ⟨⟨⟨h.opened.reference, hpins⟩, hcoh, (hdone.consistent h.synced).1.synced, hheld', h.increasing, h.below⟩,
      hslots, Nat.le_refl _, fun _ hy => hy, fun k h1 h2 => absurd h2 (Nat.not_lt.mpr h1)⟩

/-- **One step** keeps the invariant. -/
lemma Inv.step (hstep : Step ro token id l l') : Kept l l' token id d := by
  cases hstep with
  | @other w t hl hv ho =>
    have hc : Coherent { w with pins := t.volume.pins } := hl.coherent h.coherent
    have hs : Synced ({ w with pins := t.volume.pins } : World).vol := (synced_of_looked hl h.synced : Synced w.vol)
    rw [← hv] at hc hs
    exact h.unmoved ho hc hs (by rw [hv]; exact hl.image)
  | error hrun =>
    obtain ⟨hl, ho, -⟩ := h.answered hrun
    exact h.unmoved ho (hl.coherent h.coherent) (synced_of_looked hl h.synced) hl.image
  | entry hrun =>
    obtain ⟨hl, ho, ha⟩ := h.answered hrun
    cases ha with
    | entry hk hall hslot hdec => exact h.entry hl ho hk hall hslot hdec
  | mutation hlegal hcanon hrun => exact h.mutation hlegal hcanon hrun

end

/-- The position holds a live entry with a supported name. -/
def Live (l : Listing) (d k : Nat) : Prop :=
  ∃ s e name, (l.image.slots d)[k]? = some s ∧ l.image.forest.Obj d s e ∧ l.image.tag e = .named name

lemma Live.not_skips (h : l.Live d k) : ¬l.image.Skips d k := by
  rintro ⟨t, ht, -, hskip⟩
  obtain ⟨s, e, name, hs, ho, hn⟩ := h
  obtain rfl : s = t := Option.some.inj (hs.symm.trans ht)
  rw [← Image.obj_entry ho, hn] at hskip
  cases hskip

end Listing

/-- An iteration of `n` steps from the first slot of the directory `d`, open as `token`, on a consistent volume in
which no two entries of the directory have one name. -/
structure Iteration (ro : Bool) (token id d n : Nat) (run : Nat → Listing) : Prop where
  opened : Opened (run 0).names token id
  coherent : Coherent (run 0).names.volume
  consistent : Consistent (run 0).names.volume.vol
  dir : DirId (run 0).image id d
  distinct : ∀ i j e f name, (run 0).image.forest.Obj d i e → (run 0).image.forest.Obj d j f →
    (run 0).image.tag e = .named name → (run 0).image.tag f = .named name → i = j
  start : (run 0).cursor = 0 ∧ (run 0).returned = []
  step : ∀ t < n, Listing.Step ro token id (run t) (run (t + 1))

namespace Iteration

variable {ro : Bool} {token t u : Nat} {run : Nat → Listing}

section
variable (h : Iteration ro token id d n run)
include h

lemma inv (ht : t ≤ n) : (run t).Inv token id d := by
  induction t with
  | zero =>
    obtain ⟨h1, h2⟩ := h.start
    refine ⟨h.opened, h.coherent, h.consistent.synced, ⟨h.consistent.sound, h.dir, ?_, h.distinct⟩, ?_, ?_⟩
    · rw [h1]
      exact fun k hk => absurd hk (Nat.not_lt_zero k)
    · simp [h2]
    · simp [h2]
  | succ t ih => exact ((ih (by omega)).step (h.step t ht)).inv

lemma kept (ht : t < n) : Listing.Kept (run t) (run (t + 1)) token id d :=
  (h.inv ht.le).step (h.step t ht)

lemma slots (htu : t ≤ u) (hu : u ≤ n) : (run t).image.slots d <+: (run u).image.slots d := by
  induction u with
  | zero =>
    obtain rfl : t = 0 := by omega
    exact List.prefix_rfl
  | succ u ih =>
    rcases Nat.eq_or_lt_of_le htu with rfl | hlt
    · exact List.prefix_rfl
    · exact (ih (by omega) (by omega)).trans (h.kept hu).slots

lemma behind (ht : t ≤ n) (hk : k < (run t).cursor) :
    k ∈ (run t).returned.map Prod.fst ∨ ∃ u ≤ t, (run u).image.Skips d k := by
  induction t with
  | zero =>
    rw [h.start.1] at hk
    exact absurd hk (Nat.not_lt_zero k)
  | succ t ih =>
    by_cases hlt : k < (run t).cursor
    · rcases ih (by omega) hlt with hm | ⟨u, hu, hskip⟩
      · obtain ⟨y, hy, rfl⟩ := List.mem_map.mp hm
        exact .inl (List.mem_map_of_mem ((h.kept ht).returned y hy))
      · exact .inr ⟨u, by omega, hskip⟩
    · rcases (h.kept ht).skipped k (by omega) hk with hm | hskip
      · exact .inl hm
      · exact .inr ⟨t, by omega, hskip⟩

lemma complete {s' : Namespace World}
    (hend : (run n).answer ro token = (.error .end, s'))
    (hlive : ∀ t ≤ n, (run t).Live d k) : k ∈ (run n).returned.map Prod.fst := by
  have hinv := h.inv (Nat.le_refl n)
  obtain ⟨-, -, ha⟩ := hinv.answered hend
  -- the end was reached in front of no live entry
  have hk : k < (run n).cursor := by
    by_contra hge
    have hnow := hlive n (Nat.le_refl n)
    have hns := hnow.not_skips
    obtain ⟨s, e, name, hs, ho, -⟩ := hnow
    have hfront := (Image.obj_position ho hinv.held.sound hs).1
    cases ha with
    | failed hne => exact hne rfl
    | finished hit =>
      cases hit with
      | failed hne => exact hne rfl
      | @finished k0 hall hstop =>
        have hle : k0 ≤ k := by
          by_contra hlt
          exact hns (hall k (by omega) (by omega))
        rcases hstop with hlen | ⟨t, ht, h0⟩
        · have := (List.getElem?_eq_some_iff.mp hs).1
          exact absurd (show ((run n).image.slots d).length ≤ k0 from hlen) (by omega)
        · obtain ⟨t', ht', hne⟩ := hfront k0 hle
          obtain rfl : t = t' := Option.some.inj (ht.symm.trans ht')
          exact hne h0
  rcases h.behind (Nat.le_refl n) hk with hm | ⟨u, hu, hskip⟩
  · exact hm
  · exact absurd hskip (hlive u hu).not_skips

end

end Iteration

/-- What is returned at a moment, with the position of its slot: the slot holds a live entry of this name, kind and
size, and on a device that answers `lookup` finds it under the name. -/
def Listing.Shows (l : Listing) (id d : Nat) (y : Nat × FsNode × Name) : Prop :=
  ∃ s e, (l.image.slots d)[y.1]? = some s ∧ l.image.forest.Obj d s e ∧ l.image.tag e = .named y.2.2 ∧
    y.2.1.size = entrySize e ∧ y.2.1.kind = entryKind e ∧
    ((lookup id y.2.2).run l.names.volume.heal).1 = .ok { id := s, size := entrySize e, kind := entryKind e }

namespace Listing

variable {l l' : Listing} {token next : Nat} {ro : Bool} {node : FsNode} {t : Namespace World}

lemma Inv.shows (h : l.Inv token id d)
    (hrun : l.answer ro token = (.ok (node, name, next), t)) :
    l.cursor < next ∧ l.Shows id d (next - 1, node, name) := by
  obtain ⟨-, -, ha⟩ := h.answered hrun
  cases ha with
  | @entry k s o desc name w1 hk hall hslot hdec hdescribe hd hl =>
    obtain ⟨ho, hbefore⟩ := h.held.found hall hslot hdec
    obtain ⟨cs, -, rfl, -⟩ := decode_holds (x := l.image) hdec
    exact ⟨Nat.lt_succ_of_le hk, s, _, hslot, ho, tag_named_of_decode (x := l.image) hdec, rfl, rfl,
      lookup_finds h.coherent hd hdescribe hl hslot hdec hbefore⟩

lemma Inv.length_le (h : l.Inv token id d) : l.returned.length ≤ l.cursor := by
  have hsub : l.returned.map Prod.fst ⊆ List.range l.cursor := by
    intro k hk
    obtain ⟨y, hy, rfl⟩ := List.mem_map.mp hk
    exact List.mem_range.mpr (h.below y hy)
  have hnd : (l.returned.map Prod.fst).Nodup := h.increasing.imp Nat.ne_of_lt
  simpa using (List.subperm_of_subset hnd hsub).length_le

lemma Inv.slots_nodup (h : l.Inv token id d) : (l.returned.map fun y => (l.image.slots d)[y.1]?).Nodup := by
  rw [List.Nodup, List.pairwise_map]
  refine (List.pairwise_map.mp h.increasing).imp_of_mem fun {y z} hy hz hlt heq => ?_
  have hlen := (h.below y hy).trans_le h.cursor_le
  have := (List.getElem?_inj hlen (h.held.sound.slots_nodup h.held.dir.reach)).mp heq
  omega

end Listing

/-- A caller that goes on until the first error; the result is the cursor. -/
def readdirs (ro : Bool) (token : Nat) : Nat → NsM World Nat
  | 0 => return 0
  | n + 1 => do
    let cursor ← readdirs ro token n
    let (_, _, next) ← fsReaddir (fat16Backend ro) token cursor
    return next

section calls

variable {token : Nat} {ro : Bool} {t t' : Namespace World}

lemma readdirs_inv (h : Listing.Inv ⟨t, 0, []⟩ token id d) (hrun : (readdirs ro token n).run t = (.ok c, t')) :
    ∃ returned, Listing.Inv ⟨t', c, returned⟩ token id d ∧ returned.length = n ∧ t'.volume.image = t.volume.image := by
  induction n generalizing c t' with
  | zero =>
    cases hrun
    exact ⟨[], h, rfl, rfl⟩
  | succ n ih =>
    obtain ⟨c1, t1, hfirst, hrest⟩ := bind_ok hrun
    obtain ⟨⟨node, name, next⟩, t2, hcall, hlast⟩ := bind_ok hrest
    cases hlast
    obtain ⟨returned, hinv, hlen, himage⟩ := ih hfirst
    have hkept := hinv.step (.entry hcall)
    obtain ⟨hl, -⟩ := hinv.answered hcall
    exact ⟨_, hkept.inv, by simp [hlen], hl.image.trans himage⟩

lemma readdirs_stop (h : Listing.Inv ⟨t, 0, []⟩ token id d) : ∃ m ≤ (t.volume.image.slots d).length, ∃ c t1 r t2,
    (readdirs ro token m).run t = (.ok c, t1) ∧ (fsReaddir (fat16Backend ro) token c).run t1 = (.error r, t2) := by
  have hgo : ∀ n, (∃ m < n, ∃ c t1 r t2, (readdirs ro token m).run t = (.ok c, t1) ∧
      (fsReaddir (fat16Backend ro) token c).run t1 = (.error r, t2)) ∨ ∃ c t',
          (readdirs ro token n).run t = (.ok c, t') := by
    intro n
    induction n with
    | zero => exact .inr ⟨0, t, rfl⟩
    | succ n ih =>
      rcases ih with ⟨m, hm, hstop⟩ | ⟨c, t1, hrun⟩
      · exact .inl ⟨m, by omega, hstop⟩
      · rcases hcall : (fsReaddir (fat16Backend ro) token c).run t1 with ⟨r | ⟨node, name, next⟩, t2⟩
        · exact .inl ⟨n, by omega, c, t1, r, t2, hrun, hcall⟩
        · exact .inr ⟨next, t2, by simp only [readdirs, bind_run_ok hrun, bind_run_ok hcall, pure_run]⟩
  rcases hgo ((t.volume.image.slots d).length + 1) with ⟨m, hm, hstop⟩ | ⟨c, t', hrun⟩
  · exact ⟨m, by omega, hstop⟩
  · obtain ⟨returned, hinv, hlen, himage⟩ := readdirs_inv h hrun
    have h1 := hinv.length_le
    have h2 := hinv.cursor_le
    rw [show (⟨t', c, returned⟩ : Listing).image = t.volume.image from himage] at h2
    exact absurd (hlen ▸ h1.trans h2) (by simp)

end calls

namespace Iteration

variable {ro : Bool} {token t : Nat} {run : Nat → Listing}

lemma cursor_cases (h : Iteration ro token id d n run) (ht : t < n) : (run (t + 1)).cursor = (run t).cursor ∨
    (run t).cursor < (run (t + 1)).cursor ∧ ∃ node name s',
      (run t).answer ro token = (.ok (node, name, (run (t + 1)).cursor), s') := by
  have hinv := h.inv ht.le
  have hstep := h.step t ht
  generalize run (t + 1) = l at hstep
  cases hstep with
  | entry hrun => exact .inr ⟨(hinv.shows hrun).1, _, _, _, hrun⟩
  | error _ => exact .inl rfl
  | mutation _ _ _ => exact .inl rfl
  | other _ _ _ => exact .inl rfl

lemma origin (h : Iteration ro token id d n run) (ht : t ≤ n) {y : Nat × FsNode × Name} (hy : y ∈ (run t).returned) :
    ∃ u < t, ∃ s', (run u).answer ro token = (.ok (y.2.1, y.2.2, y.1 + 1), s') := by
  induction t with
  | zero => simp [h.start.2] at hy
  | succ t ih =>
    have hbefore : y ∈ (run t).returned → ∃ u < t + 1, ∃ s',
        (run u).answer ro token = (.ok (y.2.1, y.2.2, y.1 + 1), s') := fun hm => by
      obtain ⟨u, hu, hcall⟩ := ih (by omega) hm
      exact ⟨u, Nat.lt_succ_of_lt hu, hcall⟩
    have hinv := h.inv (show t ≤ n by omega)
    have hstep := h.step t ht
    generalize run (t + 1) = l at hstep hy
    cases hstep with
    | @entry node name next s' hrun =>
      rcases List.mem_append.mp hy with hm | hm
      · exact hbefore hm
      · have hlt := (hinv.shows hrun).1
        refine ⟨t, Nat.lt_succ_self t, s', ?_⟩
        rw [List.mem_singleton.mp hm, Nat.sub_add_cancel (show 1 ≤ next by omega)]
        exact hrun
    | error _ => exact hbefore hy
    | mutation _ _ _ => exact hbefore hy
    | other _ _ _ => exact hbefore hy

end Iteration

/-- **Directory iteration neither skips nor repeats.** In every iteration the slots keep their positions and none is
returned twice; what is returned shows the entry that is live at the call; at `FS_END` every position that was live all
the time has been returned, once; the cursor moves only forward, and only when a call succeeds; and a caller that goes
on until the first error gets it after at most as many successes as the directory has slots. -/
theorem readdir_neither_skips_nor_repeats {ro : Bool} {token id d n : Nat} {run : Nat → Listing}
    (h : Iteration ro token id d n run) : ((run n).returned.map fun y => ((run n).image.slots d)[y.1]?).Nodup ∧
    (∀ t u, t ≤ u → u ≤ n → (run t).image.slots d <+: (run u).image.slots d) ∧
    (∀ y ∈ (run n).returned, ∃ t < n, (run t).Shows id d y ∧ ∃ s',
      (run t).answer ro token = (.ok (y.2.1, y.2.2, y.1 + 1), s')) ∧
    (∀ s', (run n).answer ro token = (.error .end, s') →
      ∀ k, (∀ t ≤ n, (run t).Live d k) → ((run n).returned.map Prod.fst).count k = 1) ∧
    (∀ t < n, (run (t + 1)).cursor = (run t).cursor ∨ (run t).cursor < (run (t + 1)).cursor ∧ ∃ node name s',
      (run t).answer ro token =
        (.ok (node, name, (run (t + 1)).cursor), s')) ∧
    ∃ m ≤ ((run 0).image.slots d).length, ∃ c s1 r s2, (readdirs ro token m).run (run 0).names = (.ok c, s1) ∧
      (fsReaddir (fat16Backend ro) token c).run s1 = (.error r, s2) := by
  have hinv := h.inv (Nat.le_refl n)
  refine ⟨hinv.slots_nodup, fun t u htu hu => h.slots htu hu, fun y hy => ?_, fun s' hend k hlive => ?_,
    fun t ht => h.cursor_cases ht, ?_⟩
  · obtain ⟨t, ht, s', hcall⟩ := h.origin (Nat.le_refl n) hy
    exact ⟨t, ht, ((h.inv ht.le).shows hcall).2, s', hcall⟩
  · exact List.count_eq_one_of_mem (hinv.increasing.imp Nat.ne_of_lt) (h.complete hend hlive)
  · have hzero : Listing.Inv ⟨(run 0).names, (run 0).cursor, (run 0).returned⟩ token id d := h.inv (Nat.zero_le n)
    rw [h.start.1, h.start.2] at hzero
    exact readdirs_stop hzero

def Listing.call (ro : Bool) (token : Nat) (l : Listing) : Listing :=
  match l.answer ro token with
  | (.ok (node, name, next), t) => ⟨t, next, l.returned ++ [(next - 1, node, name)]⟩
  | (.error _, t) => ⟨t, l.cursor, l.returned⟩

lemma Listing.call_step {ro : Bool} {token : Nat} {l : Listing} : Listing.Step ro token id l (l.call ro token) := by
  unfold Listing.call
  rcases hrun : l.answer ro token with ⟨r | ⟨node, name, next⟩, t⟩
  · exact .error hrun
  · exact .entry hrun

def Listing.mutate (op : Mutation) (l : Listing) : Listing :=
  { l with names := { l.names with volume := op.next l.names.volume } }

/-- The root of the blank volume, open for reading as the reference 1. -/
def openRoot : Namespace World where
  objects := fun i => if i = 0 then { id := rootId, references := 1, kind := .directory } else {}
  references := fun r => if r = 0 then { token := 1, object := 0, access := readAccess } else {}
  nextToken := 2
  ready := true
  busy := false
  mounted := true
  generation := 0
  volume := { blank with pins := fun p => if p = 0 then { id := rootId, count := 1 } else {} }

lemma Listing.mutate_step {ro : Bool} {token : Nat} {l : Listing} (hl : op.Legal l.image)
    (hc : op.Canonical) (h : (op.run.run l.names.volume).1 = .ok ()) : Listing.Step ro token id l (l.mutate op) :=
  .mutation hl hc (op.run_eq h)

/-- An empty file. -/
def fileNamed (name : Name) : Mutation := .replace rootId name []

/-- Another owner makes the files `A` and `B`, and removes `A` when the caller has read it. -/
def tourStep : Nat → Listing → Listing
  | 0 => Listing.mutate (fileNamed [65])
  | 1 => Listing.mutate (fileNamed [66])
  | 3 => Listing.mutate removeA
  | _ => Listing.call false 1

def tour : Nat → Listing
  | 0 => ⟨openRoot, 0, []⟩
  | t + 1 => tourStep t (tour t)

set_option maxRecDepth 100000 in
lemma tour_facts : findReference openRoot.references 1 = some 0 ∧ pinned openRoot.volume.pins rootId = true ∧
    ((fileNamed [65]).run.run (tour 0).names.volume).1 = .ok () ∧
    ((fileNamed [66]).run.run (tour 1).names.volume).1 = .ok () ∧
    (removeA.run.run (tour 3).names.volume).1 = .ok () ∧
    (tour 5).returned.map (fun y => (y.1, y.2.2)) = [(0, [65]), (1, [66])] := by
  decide +kernel

lemma tour_iteration : Iteration false 1 rootId 0 5 tour := by
  obtain ⟨hfind, hpin, hmake, hwrite, hremove, -⟩ := tour_facts
  refine ⟨⟨⟨0, hfind, rfl, rfl⟩, hpin⟩, (fun hv => by cases hv), ⟨blank_consistent.synced, blank_consistent.sound⟩,
    .inl ⟨rfl, rfl⟩, fun i j e f name ho => ?_, ⟨rfl, rfl⟩, fun t ht => ?_⟩
  · have hm : (i, e) ∈ blank.vol.image.live 0 := ho.2
    rw [List.eq_nil_of_length_eq_zero blank_facts.1] at hm
    cases hm
  · rw [tour]
    interval_cases t <;> simp only [tourStep]
    · exact Listing.mutate_step ⟨.inl rfl, by decide⟩ rfl hmake
    · exact Listing.mutate_step ⟨.inl rfl, by decide⟩ rfl hwrite
    · exact Listing.call_step
    · exact Listing.mutate_step (.inl rfl) trivial hremove
    · exact Listing.call_step

theorem readdir_of_root : (tour 5).returned.map (fun y => (y.1, y.2.2)) = [(0, [65]), (1, [66])] ∧
    ((tour 5).returned.map fun y => ((tour 5).image.slots 0)[y.1]?).Nodup :=
  ⟨tour_facts.2.2.2.2.2, (readdir_neither_skips_nor_repeats tour_iteration).1⟩

end RumKernel.Fat16
