import RumKernel.Fat16.Replay

/-!
# Where a mutation writes

A mutation stops at the first request the device does not complete. So the requests of a call are the first requests of
the call on a healthy device, and every write but the last has reached the medium. There they are those of a plan, each
confined to table words of clusters that are taken, freed or linked, to a free cluster, or to the changed slots.
-/

namespace RumKernel.Fat16
open Lib Fs Prog

variable {A B : List Write} {w : Write}

/-! ## The requests of a call that fails -/

/-- The medium after the requests of a log: all of them were completed, or all but the last, which was a write. -/
def Settled (m : Mem) (l : List Request) (m' : Mem) : Prop :=
  m' = applyWrites m (writesOf l) ∨
    ∃ l0 n data junk, l = l0 ++ [.write n data] ∧ m' = setBlock (applyWrites m (writesOf l0)) n junk

lemma Settled.append {m m' : Mem} {l k : List Request} (h : Settled (applyWrites m (writesOf l)) k m') :
    Settled m (l ++ k) m' := by
  rcases h with rfl | ⟨l0, n, data, junk, rfl, rfl⟩
  · exact .inl (by rw [writesOf_append, applyWrites_append])
  · exact .inr ⟨l ++ l0, n, data, junk, by rw [List.append_assoc], by rw [writesOf_append, applyWrites_append]⟩

/-- The requests of `m` are known from the healthy device: all of them when it gives a value, the first of them when
it stops with an error. -/
structure Foreseen {α : Type} (m : FatM α) : Prop where
  mirrors : Mirrors World.heal m
  completes : ∀ w a w', m.run w = (.ok a, w') →
    ∃ l, w'.trace = w.trace ++ l ∧ w'.medium = applyWrites w.medium (writesOf l)
  stops : ∀ w e w', m.run w = (.error e, w') →
    ∃ l, w'.trace = w.trace ++ l ∧ Settled w.medium l w'.medium ∧ w'.trace <+: (m.run w.heal).2.trace

namespace Foreseen

variable {α β : Type} {m : FatM α}

lemma grows (h : Foreseen m) (w : World) : w.trace <+: (m.run w).2.trace := by
  rcases hr : m.run w with ⟨r, w'⟩
  cases r with
  | error e =>
    obtain ⟨l, hl, -⟩ := h.stops w e w' hr
    exact ⟨l, hl.symm⟩
  | ok a =>
    obtain ⟨l, hl, -⟩ := h.completes w a w' hr
    exact ⟨l, hl.symm⟩

lemma of_still (hm : Mirrors World.heal m) (hs : ∀ w, (m.run w).2.trace = w.trace ∧ (m.run w).2.medium = w.medium) :
    Foreseen m where
  mirrors := hm
  completes w a w' hr := by
    have := hs w
    rw [hr] at this
    exact ⟨[], by simpa using this.1, this.2⟩
  stops w e w' hr := by
    have h1 := hs w
    rw [hr] at h1
    refine ⟨[], by simpa using h1.1, .inl h1.2, ?_⟩
    rw [(hs w.heal).1, h1.1]
    exact List.prefix_refl _

lemma of_looked (hm : Mirrors World.heal m) (hs : Sat Looked m) : Foreseen m :=
  of_still hm fun w => ⟨congrArg Vol.trace (hs w).vol, congrArg Vol.medium (hs w).vol⟩

lemma modify {f : World → World} (hf : ∀ w, f w.heal = (f w).heal)
    (hs : ∀ w, (f w).trace = w.trace ∧ (f w).medium = w.medium) : Foreseen (Prog.modify f) :=
  of_still (.modify hf) hs

lemma pure {a : α} : Foreseen (Pure.pure a : FatM α) := of_still .pure fun _ => ⟨rfl, rfl⟩

lemma fail {e : FsError} : Foreseen (Prog.fail e : FatM α) := of_still .fail fun _ => ⟨rfl, rfl⟩

lemma lift {r : Except FsError α} : Foreseen (Prog.lift r : FatM α) := of_still .lift fun _ => ⟨rfl, rfl⟩

lemma fail_bind {e : FsError} {k : α → FatM β} : Foreseen (Prog.fail e >>= k) :=
  of_still .fail_bind fun _ => ⟨rfl, rfl⟩

lemma bind {k : α → FatM β} (h : Foreseen m) (hk : ∀ a, Foreseen (k a)) : Foreseen (m >>= k) where
  mirrors := .bind h.mirrors fun a => (hk a).mirrors
  completes w b w' hr := by
    obtain ⟨a, w1, h1, h2⟩ := bind_ok hr
    obtain ⟨l, hl, hm⟩ := h.completes w a w1 h1
    obtain ⟨l', hl', hm'⟩ := (hk a).completes w1 b w' h2
    exact ⟨l ++ l', by rw [hl', hl, List.append_assoc], by rw [hm', hm, writesOf_append, applyWrites_append]⟩
  stops w e w' hr := by
    rw [bind_run] at hr
    rcases hm : m.run w with ⟨r, w1⟩
    rw [hm] at hr
    cases r with
    | error e₁ =>
      cases hr
      obtain ⟨l, hl, hset, hpre⟩ := h.stops w e w' hm
      refine ⟨l, hl, hset, ?_⟩
      rw [bind_run]
      -- the healthy device may go on from here
      rcases hh : m.run w.heal with ⟨r, w2⟩
      rw [hh] at hpre
      cases r with
      | error _ => exact hpre
      | ok a => exact hpre.trans ((hk a).grows w2)
    | ok a =>
      obtain ⟨l, hl, hmed⟩ := h.completes w a w1 hm
      obtain ⟨l', hl', hset, hpre⟩ := (hk a).stops w1 e w' hr
      refine ⟨l ++ l', by rw [hl', hl, List.append_assoc], .append (hmed ▸ hset), ?_⟩
      rw [bind_run_ok (h.mirrors w a w1 hm)]
      exact hpre

lemma get_bind {k : World → FatM β} (hf : ∀ w, k w.heal = k w) (hk : ∀ w, Foreseen (k w)) :
    Foreseen (Prog.get >>= k) where
  mirrors := .get_bind hf fun w => (hk w).mirrors
  completes w b w' hr := (hk w).completes w b w' hr
  stops w e w' hr := by
    have := (hk w).stops w e w' hr
    rwa [← hf w] at this

lemma ite {c : Prop} [Decidable c] {n : FatM α} (ht : Foreseen m) (hf : Foreseen n) :
    Foreseen (if c then m else n) := by
  split
  · exact ht
  · exact hf

lemma writeSector {sector : Nat} {data : Mem} : Foreseen (writeSector sector data) := by
  refine ⟨Replays.writeSector, fun w a w' hr => ?_, fun w e w' hr => ?_⟩
  · unfold Fat16.writeSector at hr
    rw [bind_run_ok get_run] at hr
    obtain ⟨-, hr⟩ := guard_ok hr
    obtain ⟨-, hr⟩ := guard_ok hr
    simp only [bind_run, nextOutcome, modify_run] at hr
    cases hc : (w.oracle w.clock).code 1 with
    | some e =>
      simp only [hc] at hr
      cases hr
    | none =>
      simp only [hc] at hr
      cases hr
      exact ⟨[.write sector data], rfl, rfl⟩
  · unfold Fat16.writeSector at hr ⊢
    rw [bind_run_ok get_run] at hr ⊢
    by_cases h1 : sector < w.geo.fatStart ∨ sector ≥ w.geo.sectors
    · rw [if_pos h1] at hr
      rw [if_pos (show sector < w.heal.geo.fatStart ∨ sector ≥ w.heal.geo.sectors from h1)]
      cases hr
      exact ⟨[], (List.append_nil _).symm, .inl rfl, List.prefix_refl _⟩
    rw [if_neg h1] at hr
    rw [if_neg (show ¬(sector < w.heal.geo.fatStart ∨ sector ≥ w.heal.geo.sectors) from h1)]
    by_cases h2 : w.device.readOnly = true
    · rw [if_pos h2] at hr
      rw [if_pos (show w.heal.device.readOnly = true from h2)]
      cases hr
      exact ⟨[], (List.append_nil _).symm, .inl rfl, List.prefix_refl _⟩
    rw [if_neg h2] at hr
    rw [if_neg (show ¬w.heal.device.readOnly = true from h2)]
    have e1 : (w.heal.oracle w.heal.clock) = (w.oracle w.clock).heal := rfl
    simp only [bind_run, nextOutcome, modify_run, e1, Outcome.heal_code] at hr ⊢
    cases hc : (w.oracle w.clock).code 1 with
    | none =>
      simp only [hc] at hr
      cases hr
    | some e' =>
      simp only [hc] at hr
      cases hr
      exact ⟨[.write sector data], rfl, .inr ⟨[], sector, data, _, rfl, rfl⟩, List.prefix_refl _⟩

lemma flushDevice : Foreseen flushDevice := by
  refine ⟨Replays.flushDevice, fun w a w' hr => ?_, fun w e w' hr => ?_⟩
  · simp only [Fat16.flushDevice, bind_run, nextOutcome, modify_run] at hr
    cases hc : (w.oracle w.clock).code 0 with
    | some e =>
      simp only [hc] at hr
      cases hr
    | none =>
      simp only [hc] at hr
      cases hr
      exact ⟨[.flush], rfl, rfl⟩
  · have e1 : (w.heal.oracle w.heal.clock) = (w.oracle w.clock).heal := rfl
    simp only [Fat16.flushDevice, bind_run, nextOutcome, modify_run, e1, Outcome.heal_code] at hr ⊢
    cases hc : (w.oracle w.clock).code 0 with
    | none =>
      simp only [hc] at hr
      cases hr
    | some e' =>
      simp only [hc] at hr
      cases hr
      exact ⟨[.flush], rfl, .inl rfl, List.prefix_refl _⟩

lemma finish {α : Type} {m : FatM α} (h : Foreseen m) : Foreseen (finish m) := by
  have hlog : ∀ w, ((Fat16.finish m).run w).2.trace = (m.run w).2.trace := fun w => by
    rw [finish_run]
    rcases m.run w with ⟨r, u⟩
    cases r with
    | ok a => rfl
    | error e =>
      simp only
      split <;> rfl
  refine ⟨Replays.finish h.mirrors, fun w a w' hr => ?_, fun w e w' hr => ?_⟩
  · rw [finish_run] at hr
    rcases hm : m.run w with ⟨r, u⟩
    rw [hm] at hr
    cases r with
    | error e => cases hr
    | ok b =>
      cases hr
      exact h.completes w a w' hm
  · rw [hlog w.heal]
    rw [finish_run] at hr
    rcases hm : m.run w with ⟨r, u⟩
    rw [hm] at hr
    cases r with
    | ok b => cases hr
    | error e' =>
      simp only [Prod.mk.injEq] at hr
      obtain ⟨-, rfl⟩ := hr
      have := h.stops w e' u hm
      split
      · exact this
      · exact this

lemma persistFat {fat : Mem} : Foreseen (persistFat fat) := by
  have sectors : ∀ copy fuel i changed, Foreseen (persistSectors fat copy fuel i changed) := by
    intro copy fuel
    induction fuel with
    | zero => exact fun _ _ => .pure
    | succ fuel ih =>
      exact fun _ _ => .get_bind (fun _ => rfl) fun w => .ite (ih _ _) (.bind writeSector fun _ => ih _ _)
  have copy : ∀ k, Foreseen (persistCopy fat k) := fun k =>
    .get_bind (fun _ => rfl) fun _ => .bind (sectors _ _ _ _) fun _ => .ite flushDevice .pure
  exact .bind (copy 0) fun _ => .bind (copy 1) fun _ => .modify (fun _ => rfl) fun _ => ⟨rfl, rfl⟩

lemma writing : Writing fun _ m => Foreseen m where
  pure := .pure
  fail := .fail
  lift := .lift
  fail_bind := .fail_bind
  bind := .bind
  get_bind hf hk := .get_bind (fun w => hf w _) hk
  fat16Sector := .of_looked Replays.fat16Sector Looks.looking.fat16Sector
  kmalloc := .of_looked Replays.kmalloc Looks.looking.kmalloc
  own := .modify (fun _ => rfl) fun _ => ⟨rfl, rfl⟩
  audited := .modify (fun _ => rfl) fun _ => ⟨rfl, rfl⟩
  writeSector := writeSector
  flushDevice := flushDevice
  persistFat := persistFat

lemma write {id offset : Nat} {data : List Byte} (hbody : Foreseen (writeBody id offset data)) :
    Foreseen (Mutation.run (.write id offset data)) := by
  refine ⟨Replays.write hbody.mirrors, fun w a w' hr => ?_, fun w e w' hr => ?_⟩
  · rw [Mutation.write_run] at hr
    exact hbody.completes { w with lastIo := {}, committed := false } a w' hr
  · rw [Mutation.write_run] at hr ⊢
    exact hbody.stops { w with lastIo := {}, committed := false } e w' hr

lemma calling : Calling fun _ m => Foreseen m where
  toWriting := writing
  began := .modify (fun _ => rfl) fun _ => ⟨rfl, rfl⟩
  started := .modify (fun _ => rfl) fun _ => ⟨rfl, rfl⟩
  committed := .modify (fun _ => rfl) fun _ => ⟨rfl, rfl⟩
  finish := finish
  write := write

/-- **Every mutation** asks the device for what it asks a healthy one for, until a request fails. -/
theorem mutation (op : Mutation) : Foreseen op.run := calling.mutation op

end Foreseen

/-! ## Where a plan writes -/

/-- What a call changes: a slot of a directory, the slot it makes the end marker, the clusters it takes and those it
frees. -/
structure Span where
  directory : Nat
  slot : Nat
  clear : Option Nat
  taken : List Nat
  freed : List Nat

namespace Span

/-- The span is one of the image: the clusters to take are free, those to free belong to the entry in the slot, the
slot is one of the directory or of a cluster it grows by, and the end marker goes right behind the one the entry
replaces. -/
structure Of (s : Span) (x : Image) : Prop where
  reach : x.forest.Reach s.directory
  taken : ∀ c ∈ s.taken, validCluster x.geo c = true ∧ nextCluster x.fat c = 0
  freed : s.freed = [] ∨ ∃ e, x.forest.Obj s.directory s.slot e ∧ x.Holds e s.freed
  slot : s.slot ∈ x.slots s.directory ∨ ∃ c ∈ s.taken, s.slot ∈ clusterSlots x.geo c
  behind : ∀ j, s.clear = some j → x.entry s.slot 0 = 0 ∧ ∃ pre tl, x.slots s.directory = pre ++ s.slot :: j :: tl

/-- The clusters whose words may change: taken, freed, or the last one of a directory that grows. -/
def Word (s : Span) (x : Image) (c : Nat) : Prop :=
  c ∈ s.taken ∨ c ∈ s.freed ∨ ((∃ n ∈ s.taken, s.slot ∈ clusterSlots x.geo n) ∧
    ∃ cs, IsChain x.geo x.fat s.directory cs ∧ cs.getLast? = some c)

end Span

/-- A write to a sector of the medium `m` that stays inside the span. -/
inductive Confined (s : Span) (x : Image) (m : Mem) : Nat → Mem → Prop where
  /-- A sector of a table copy; only words of the span's clusters change. -/
  | table {k i : Nat} {data : Mem} : k < 2 → i < x.geo.fatSectors →
    (∀ j < 512, data j ≠ m ((x.geo.fatStart + k * x.geo.fatSectors + i) * 512 + j) → s.Word x ((i * 512 + j) / 2)) →
    Confined s x m (x.geo.fatStart + k * x.geo.fatSectors + i) data
  /-- A sector of a cluster that is free in the cached table. -/
  | fill {c i : Nat} {data : Mem} : validCluster x.geo c = true → nextCluster x.fat c = 0 → i < x.geo.perCluster →
    Confined s x m (clusterSector x.geo c + i) data
  /-- The sector of a slot; only the bytes of the slot change. -/
  | slot {i : Nat} {data : Mem} : i = s.slot ∨ s.clear = some i →
    (∀ j < 512, ¬(slotBase i ≤ slotBase i / 512 * 512 + j ∧ slotBase i / 512 * 512 + j < slotBase i + 32) →
      data j = m (slotBase i / 512 * 512 + j)) →
    Confined s x m (slotBase i / 512) data

variable {g : Geometry} {x : Image} {s : Span} {v v' : Vol} {p : Plan} {m data fat fat' : Mem} {a c d i k n : Nat}
variable {pre post new grow old : List Nat} {e f : Entry}

/-- The sector `n` holds no data of a live file. -/
def NoFile (x : Image) (n : Nat) : Prop :=
  ∀ d i e cs c k, x.forest.Obj d i e → entryKind e = .file → x.Holds e cs → c ∈ cs → k < x.geo.perCluster →
    n ≠ clusterSector x.geo c + k

lemma Span.Of.slot_cases (h : s.Of x) (hi : i = s.slot ∨ s.clear = some i) :
    i ∈ x.slots s.directory ∨ ∃ c ∈ s.taken, i ∈ clusterSlots x.geo c := by
  rcases hi with rfl | hj
  · exact h.slot
  · obtain ⟨-, pre, tl, hslots⟩ := h.behind i hj
    exact .inl (by simp [hslots])

lemma Span.Of.slotOffset (h : s.Of x) (hs : x.Sound) (hi : i = s.slot ∨ s.clear = some i) :
    slotOffset x.geo i = some (slotBase i) := by
  rcases h.slot_cases hi with hm | ⟨c, hc, hm⟩
  · exact hs.slotOffset h.reach hm
  · exact slotOffset_cluster (h.taken c hc).1 hm

lemma Span.Of.slot_noFile (h : s.Of x) (hs : x.Sound) (hi : i = s.slot ∨ s.clear = some i) :
    NoFile x (slotBase i / 512) := by
  intro d' i' e cs c k ho hk hh hc hlt heq
  obtain ⟨h1, h2⟩ := sector_in_cluster (c := c) hlt heq
  rcases h.slot_cases hi with hm | ⟨c', hc', hm⟩
  · rcases hs.slot_cases h.reach hm with ⟨-, hroot⟩ | ⟨p, s', e', ds, c', ho', hk', -, hh', hc', hm'⟩
    · have := slotBase_root hroot
      have := clusterBase_bounds (hh.valid hc)
      omega
    · have h3 := slotBase_cluster hm'
      obtain rfl := cluster_unique (hh.valid hc) (hh'.valid hc') h1 h2 h3.1 (by omega)
      refine hs.disjoint ho ho' ?_ hh hh' hc hc'
      rintro rfl
      rw [Image.obj_entry ho, ← Image.obj_entry ho', hk'] at hk
      cases hk
  · have h3 := slotBase_cluster hm
    obtain rfl := cluster_unique (hh.valid hc) (h.taken c' hc').1 h1 h2 h3.1 (by omega)
    exact hh.next_ne_zero hc (h.taken c hc').2

lemma Confined.bounds (h : Confined s x m n data) (ho : s.Of x) (hs : x.Sound) :
    x.geo.fatStart ≤ n ∧ n < x.geo.sectors ∧ NoFile x n := by
  have hroot := x.geo.rootStart_eq
  have hdata := x.geo.dataStart_eq
  cases h with
  | @table k i _ hk hi _ =>
    have hlt : x.geo.fatStart + k * x.geo.fatSectors + i < x.geo.rootStart := by
      rcases (by omega : k = 0 ∨ k = 1) with rfl | rfl <;> omega
    have hend := x.geo.data_end
    generalize x.geo.clusters * (x.geo.clusterBytes / 512) = size at hend
    refine ⟨by rw [Nat.add_assoc]; exact Nat.le_add_right _ _, by omega, fun _ _ _ _ c j _ _ hh hc hj heq => ?_⟩
    have := (clusterSector_bounds (hh.valid hc) hj).1
    omega
  | @fill c i _ hv hn hi =>
    obtain ⟨h1, h2⟩ := clusterSector_bounds hv hi
    refine ⟨by omega, h2, fun _ _ _ _ c' j _ _ hh hc hj heq => ?_⟩
    have hat : (clusterSector x.geo c + i) * 512 / 512 = clusterSector x.geo c + i := Nat.mul_div_cancel _ (by omega)
    obtain ⟨h3, h4⟩ := sector_in_cluster hi hat
    obtain ⟨h5, h6⟩ := sector_in_cluster hj (hat.trans heq)
    obtain rfl := cluster_unique hv (hh.valid hc) h3 h4 h5 h6
    exact hh.next_ne_zero hc hn
  | slot hi _ =>
    obtain ⟨-, -, h1, h2⟩ := slotOffset_bounds (ho.slotOffset hs hi)
    exact ⟨by omega, h2, ho.slot_noFile hs hi⟩

lemma byte_of_next (h : nextCluster fat' (a / 2) = nextCluster fat (a / 2)) : fat' a = fat a := by
  unfold nextCluster u16 at h
  have h1 := (fat (a / 2 * 2)).toNat_lt
  have h2 := (fat' (a / 2 * 2)).toNat_lt
  rcases Nat.mod_two_eq_zero_or_one a with ha | ha
  · rw [show a / 2 * 2 = a by omega] at h h1 h2
    exact UInt8.toNat_inj.mp (by omega)
  · rw [show a / 2 * 2 + 1 = a by omega] at h
    exact UInt8.toNat_inj.mp (by omega)

lemma Confined.of_table (hcopy : CopyIs x.geo m k fat) (hk : k < 2)
    (hw : A ++ w :: B = tableWrites x.geo fat fat' k)
    (hword : ∀ c, nextCluster fat' c ≠ nextCluster fat c → s.Word x c) : Confined s x (applyWrites m A) w.1 w.2 := by
  have hmem : w ∈ tableWrites x.geo fat fat' k := hw ▸ List.mem_append_right A List.mem_cons_self
  obtain ⟨i, hi, -, rfl⟩ := mem_fatWrites.mp hmem
  have hi := List.mem_range.mp hi
  refine .table hk hi fun j hj hne => hword _ fun heq => hne ?_
  have hfresh : ∀ u ∈ A, ((x.geo.fatStart + k * x.geo.fatSectors + i) * 512 + j) / 512 ≠ u.1 := by
    intro u hu he
    have hnd : ((tableWrites x.geo fat fat' k).map Prod.fst).Nodup := fatWrites_nodup List.nodup_range
    rw [← hw, List.map_append, List.nodup_append] at hnd
    exact hnd.2.2 u.1 (List.mem_map_of_mem hu) _ List.mem_cons_self (he.symm.trans (by simp only; omega))
  rw [applyWrites_other hfresh]
  refine (slice_apply hj).trans ?_
  rw [byte_of_next heq]
  have hat : fatAt x.geo k + (i * 512 + j) = (x.geo.fatStart + k * x.geo.fatSectors + i) * 512 + j := by
    unfold fatAt
    omega
  rw [← hat, hcopy _ (by unfold Geometry.fatBytes; omega)]

lemma Confined.of_slot {ws : List Write} (hs : SlotWrite m i e ws) (hw : A ++ w :: B = ws)
    (hi : i = s.slot ∨ s.clear = some i) : Confined s x (applyWrites m A) w.1 w.2 := by
  obtain ⟨data, rfl, hset⟩ := hs
  have hA : A = [] := by
    have := congrArg List.length hw
    simp at this
    exact List.eq_nil_of_length_eq_zero (by omega)
  subst hA
  obtain ⟨rfl, -⟩ : w = (slotBase i / 512, data) ∧ B = [] := by simpa using hw
  refine .slot hi fun j hj hout => ?_
  have hbyte := congrFun hset (slotBase i / 512 * 512 + j)
  rw [setBlock_apply_same hj, Image.setSlot, if_neg hout] at hbyte
  exact hbyte

lemma split_cases {α : Type} {A B X Y : List α} {w : α} (h : A ++ w :: B = X ++ Y) :
    (∃ B', A ++ w :: B' = X) ∨ ∃ A', A = X ++ A' ∧ A' ++ w :: B = Y := by
  rcases List.append_eq_append_iff.mp h with ⟨l, rfl, hl⟩ | ⟨l, rfl, hl⟩
  · cases l with
    | nil => exact .inr ⟨[], by simp, by simpa using hl⟩
    | cons u l =>
      obtain ⟨rfl, -⟩ := List.cons.inj hl
      exact .inl ⟨l, rfl⟩
  · exact .inr ⟨l, rfl, hl.symm⟩

def Plan.span (p : Plan) (d : Nat) (old : List Nat) : Span :=
  { directory := d, slot := p.slot, clear := p.clear, taken := p.reserved, freed := old }

lemma Done.word (h : Done v p d pre post new grow old v')
    (hc : nextCluster p.fat1 c ≠ nextCluster v.fat c) : (p.span d old).Word v.image c := by
  by_cases hr : c ∈ p.reserved
  · exact .inl hr
  · rw [h.valid.reserved_mem, not_or] at hr
    obtain ⟨hg, hlast⟩ := h.places.words c hr.1 hr.2 hc
    refine .inr (.inr ⟨?_, hlast⟩)
    rcases h.places.slot with ⟨hnil, -⟩ | ⟨n, hn, hm⟩
    · exact absurd hnil hg
    · exact ⟨n, (h.valid.reserved_mem n).mpr (.inr hn), hm⟩

lemma Image.Sound.slot_not_free (hs : x.Sound) (hr : x.forest.Reach d) (hi : i ∈ x.slots d)
    (hv : validCluster x.geo c = true) (hn : nextCluster x.fat c = 0) : i ∉ clusterSlots x.geo c := by
  intro hm
  rcases hs.slot_cases hr hi with ⟨-, hroot⟩ | ⟨p, s', f, cs, c', ho, -, -, hh, hc, hm'⟩
  · exact rootSlots_disjoint hv hm hroot
  · obtain rfl := clusterSlots_disjoint hv (hh.valid hc) hm hm'
    exact hh.next_ne_zero hc hn

section
variable (h : Done v p d pre post new grow old v')
include h

lemma Done.grow_nil (ho : v.image.forest.Obj d p.slot f) : grow = [] := by
  rcases h.places.slot with ⟨hnil, -⟩ | ⟨n, hn, hm⟩
  · exact hnil
  · obtain ⟨hv, h0⟩ := h.valid.free n ((h.valid.reserved_mem n).mpr (.inr hn))
    exact absurd hm (h.valid.sound.slot_not_free ho.1 (Image.mem_live ho.2).1 hv h0)

lemma Done.old_obj
    (hl : Image.liveOption ((p.cleared v.image).entry p.slot) = some f) : v.image.forest.Obj d p.slot f :=
  (h.valid.prepared.trans h.valid.cleared).same.obj.mp (h.valid.put.edit.old_obj hl)

lemma Done.span : (p.span d old).Of v.image where
  reach := h.places.reach
  taken c hc := h.valid.free c hc
  slot := by
    rcases h.places.slot with ⟨-, hm⟩ | ⟨n, hn, hm⟩
    · exact .inl hm
    · exact .inr ⟨n, (h.valid.reserved_mem n).mpr (.inr hn), hm⟩
  behind := h.places.behind
  freed := by
    cases hl : Image.liveOption ((p.cleared v.image).entry p.slot) with
    | none => exact .inl (h.valid.old_none hl)
    | some f =>
      have ho := h.old_obj hl
      obtain ⟨cs, hh⟩ := h.valid.sound.holds ho
      -- the directory has not grown, so that only free clusters were linked
      have hgrow := h.grow_nil ho
      have hsame : ∀ c ∈ cs, nextCluster (p.cleared v.image).fat c = nextCluster v.image.fat c := fun c hc => by
        by_contra hne
        rw [Plan.cleared_fat] at hne
        refine (h.places.words c (fun hn => ?_) (by simp [hgrow]) hne).1 hgrow
        exact hh.next_ne_zero hc (h.valid.free c ((h.valid.reserved_mem c).mpr (.inl hn))).2
      have hh' : (p.cleared v.image).Holds f cs := by
        have hg : (p.cleared v.image).geo = v.image.geo := Plan.cleared_geo
        cases hh with
        | empty h1 h2 h3 => exact .empty h1 h2 h3
        | file h1 h2 h3 h4 => exact .file h1 h2 (hg ▸ h3.congr hsame) (hg ▸ h4)
        | directory h1 h2 h3 => exact .directory h1 h2 (hg ▸ h3.congr hsame)
      exact .inr ⟨f, ho, (h.valid.old_holds f hl).det hh' ▸ hh⟩

lemma Done.confined (hc : Consistent v) {wc wp : List Write}
    (hp : p.Performed v v' wc wp) (hw : A ++ w :: B = (p.phases v.geo v.fat wc wp).flatten) :
    Confined (p.span d old) v.image (applyWrites v.medium A) w.1 w.2 := by
  obtain ⟨m1, m2, m3, m4, m5, m6, m7, ⟨e₁, s1⟩, ⟨e2, s2⟩, ⟨e3, s3⟩, ⟨e4, s4⟩, ⟨e5, s5⟩, ⟨e6, s6⟩, -⟩ :=
    Plan.Performed.stages h.valid hp hc.synced
  have hold : ∀ c, nextCluster p.fat2 c ≠ nextCluster p.fat1 c → (p.span d old).Word v.image c := fun c hne => by
    exact .inr (.inl (by_contra fun hn => hne ((h.valid.freed c).trans (if_neg hn))))
  simp only [Plan.phases, List.flatten_cons, List.flatten_nil, List.append_nil] at hw
  rcases split_cases hw with ⟨B', hw'⟩ | ⟨A1, rfl, hw1⟩
  · obtain ⟨c, hcr, i, hi, he⟩ := h.valid.filled w (hw' ▸ List.mem_append_right _ List.mem_cons_self)
    obtain ⟨hv, hn⟩ := h.valid.free c hcr
    rw [he]
    exact .fill hv hn hi
  rw [applyWrites_append, ← e₁]
  rcases split_cases hw1 with ⟨B', hw'⟩ | ⟨A2, rfl, hw2⟩
  · exact .of_table s1.first (by omega) hw' fun c => h.word
  rw [applyWrites_append, ← e2]
  rcases split_cases hw2 with ⟨B', hw'⟩ | ⟨A3, rfl, hw3⟩
  · exact .of_table s2.second (by omega) hw' fun c => h.word
  rw [applyWrites_append, ← e3]
  rcases split_cases hw3 with ⟨B', hw'⟩ | ⟨A4, rfl, hw4⟩
  · have hclear := hp.clear_eq
    rw [applyWrites_append, ← e₁, applyWrites_append, ← e2, ← e3] at hclear
    cases hj : p.clear with
    | none =>
      rw [hj] at hclear
      rw [show wc = [] from hclear] at hw'
      simp at hw'
    | some j =>
      rw [hj] at hclear
      exact .of_slot (e := fun _ => 0) hclear hw' (.inr hj)
  rw [applyWrites_append, ← e4]
  rcases split_cases hw4 with ⟨B', hw'⟩ | ⟨A5, rfl, hw5⟩
  · have hput := hp.put_eq
    rw [applyWrites_append, ← e₁, applyWrites_append, ← e2, applyWrites_append, ← e3, ← e4] at hput
    exact .of_slot hput hw' (.inl rfl)
  rw [applyWrites_append, ← e5]
  rcases split_cases hw5 with ⟨B', hw'⟩ | ⟨A6, rfl, hw6⟩
  · exact .of_table s5.first (by omega) hw' hold
  rw [applyWrites_append, ← e6]
  exact .of_table s6.second (by omega) hw6 hold

end

/-- **Writes only where owned.** Whatever the device does, the requests of a mutation on a consistent volume are
writes confined to one span of the volume, each judged by the medium the writes before it left. -/
theorem mutation_confined {w : World} {op : Mutation} (hw : Coherent w) (hc : Consistent w.vol)
    (hl : op.Legal w.vol.image) : ∃ (l : List Request) (s : Span),
      (op.run.run w).2.trace = w.trace ++ l ∧ Settled w.medium l (op.run.run w).2.medium ∧
      (l ≠ [] → s.Of w.vol.image) ∧ ∀ l1 n data l2, l = l1 ++ .write n data :: l2 →
        Confined s w.vol.image (applyWrites w.medium (writesOf l1)) n data ∧
        w.geo.fatStart ≤ n ∧ n < w.geo.sectors ∧ NoFile w.vol.image n := by
  -- the requests are the first ones of the healthy run
  obtain ⟨l, htrace, hset, hpre⟩ : ∃ l, (op.run.run w).2.trace = w.trace ++ l ∧
      Settled w.medium l (op.run.run w).2.medium ∧ (op.run.run w).2.trace <+: (op.run.run w.heal).2.trace := by
    have hf := Foreseen.mutation op
    rcases hr : op.run.run w with ⟨r, u⟩
    cases r with
    | error e => exact hf.stops w e u hr
    | ok a =>
      obtain ⟨l, h1, h2⟩ := hf.completes w a u hr
      exact ⟨l, h1, .inl h2, by rw [hf.mirrors w a u hr]; exact List.prefix_refl _⟩
  have hres := ((op.runs hc.sound hl).apply (World.heal_good hw) rfl).2
  -- a healthy run that changed nothing asked for nothing
  have hnone : Flags w.vol (op.run.run w.heal).2.vol → l = [] := fun hflags => by
    obtain ⟨a, b, o, c, hv⟩ := hflags
    have ht : (op.run.run w.heal).2.trace = w.trace := congrArg Vol.trace hv
    rw [ht, htrace] at hpre
    have := hpre.length_le
    simp only [List.length_append] at this
    exact List.eq_nil_of_length_eq_zero (by omega)
  have hdone : l = [] ∨ ∃ p d pre post new grow old,
      Done w.vol p d pre post new grow old (op.run.run w.heal).2.vol := by
    rcases hr : (op.run.run w.heal).1 with e | a
    · rw [hr] at hres
      exact .inl (hnone hres)
    · rw [hr] at hres
      rcases Mutation.Result.done hres with hflags | hd
      · exact .inl (hnone hflags)
      · exact .inr hd
  rcases hdone with rfl | ⟨p, d, pre, post, new, grow, old, hd⟩
  · refine ⟨[], ⟨0, 0, none, [], []⟩, htrace, hset, fun h => absurd rfl h, fun l1 n data l2 h => ?_⟩
    simp at h
  refine ⟨l, p.span d old, htrace, hset, fun _ => hd.span, fun l1 n data l2 h => ?_⟩
  obtain ⟨wc, wp, hp⟩ := hd.performed
  obtain ⟨l', hl', hphased⟩ := hp.did.trace
  obtain ⟨rest, hrest⟩ := hpre
  have hlog : l' = l ++ rest := by
    have : w.trace ++ (l ++ rest) = w.trace ++ l' := by
      rw [← List.append_assoc, ← htrace, hrest]
      exact hl'
    exact (List.append_cancel_left this).symm
  have hwrites : writesOf l1 ++ (n, data) :: writesOf (l2 ++ rest) =
      (p.phases w.vol.geo w.vol.fat wc wp).flatten := by
    rw [← hphased.writes, hlog, h]
    simp [writesOf]
  have hconf := hd.confined hc hp hwrites
  exact ⟨hconf, hconf.bounds hd.span hc.sound⟩

/-- The call that stops after three writes: they are where they may be. -/
theorem mutation_confined_broken : ∃ (l : List Request) (s : Span),
    (makeA.run.run brokenWorld).2.trace = brokenWorld.trace ++ l ∧ (writesOf l).length = 3 ∧
    Settled brokenWorld.medium l (makeA.run.run brokenWorld).2.medium ∧ (l ≠ [] → s.Of brokenWorld.vol.image) ∧
    ∀ l1 n data l2, l = l1 ++ .write n data :: l2 →
      Confined s brokenWorld.vol.image (applyWrites brokenWorld.medium (writesOf l1)) n data ∧
      brokenWorld.geo.fatStart ≤ n ∧ n < brokenWorld.geo.sectors ∧ NoFile brokenWorld.vol.image n := by
  have hw : Coherent brokenWorld := fun h => by cases h
  obtain ⟨l, s, htrace, hrest⟩ := mutation_confined hw blank_consistent legal_makeA
  have hlen := blank_facts.2.2.2.2.2.2.2.2
  rw [Mutation.next, htrace] at hlen
  exact ⟨l, s, htrace, hlen, hrest⟩

end RumKernel.Fat16
