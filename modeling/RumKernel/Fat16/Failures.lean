import RumKernel.Fat16.Consistency

/-!
# Failing devices

What the driver does when reads, writes and flushes fail in any pattern. A mutation that fails before its
first write leaves everything as it was, one that fails later leaves the mount faulted; a faulted or
read-only mount sends no write and no flush.
-/

namespace RumKernel.Fat16
open Lib Fs Prog

variable {α : Type} {m : FatM α} {w w' : World}
variable {e : FsError} {data : List Byte}
variable {copy fuel i id offset sector : Nat} {fat : Mem} {changed : Bool} {u : Unit} {c : Prop} {t : Target}

/-! ## Programs that may write -/

/-- From `w` to `w'` no sector was written, and the medium, the cached table and the flags are the same. -/
structure Untouched (w w' : World) : Prop where
  writes : writesOf w'.trace = writesOf w.trace
  medium : w'.medium = w.medium
  fat : w'.fat = w.fat
  faulted : w'.faulted = w.faulted
  writable : w'.writable = w.writable

instance : IsPreorder World Untouched where
  refl _ := ⟨rfl, rfl, rfl, rfl, rfl⟩
  trans _ _ _ h h' := ⟨h'.writes.trans h.writes, h'.medium.trans h.medium, h'.fat.trans h.fat,
    h'.faulted.trans h.faulted, h'.writable.trans h.writable⟩

/-- The flag `started` is never taken back, and nothing is touched before it is raised. -/
structure Begun (w w' : World) : Prop where
  geo : w'.geo = w.geo
  started : w.started = true → w'.started = true
  untouched : w'.started = false → Untouched w w'

lemma Begun.of_not_started (h : Begun w w') (hs : w'.started = false) : w.started = false := by
  by_contra hne
  have := h.started (by simpa using hne)
  rw [hs] at this
  cases this

instance : IsPreorder World Begun where
  refl _ := ⟨rfl, fun h => h, fun _ => refl_of Untouched _⟩
  trans _ _ _ h h' := ⟨h'.geo.trans h.geo, h'.started ∘ h.started, fun hs =>
    trans_of Untouched (h.untouched (h'.of_not_started hs)) (h'.untouched hs)⟩

/-- The flag `committed` stays as it is. -/
def SameCommit (w w' : World) : Prop := w'.committed = w.committed

instance : IsPreorder World SameCommit where
  refl _ := rfl
  trans _ _ _ h h' := Eq.trans h' h

/-- What the parts of a mutation do to the flags. -/
def Works (w w' : World) : Prop := Begun w w' ∧ SameCommit w w'

instance : IsPreorder World Works where
  refl _ := ⟨refl_of Begun _, refl_of SameCommit _⟩
  trans _ _ _ h h' := ⟨trans_of Begun h.1 h'.1, trans_of SameCommit h.2 h'.2⟩

lemma Looked.untouched (h : Looked w w') : Untouched w w' := by
  have hv := h.vol
  exact ⟨congrArg writesOf (congrArg Vol.trace hv), congrArg Vol.medium hv, congrArg Vol.fat hv,
    congrArg Vol.faulted hv, congrArg Vol.writable hv⟩

lemma Looked.works (h : Looked w w') : Works w w' := by
  have hv := h.vol
  have hs : w'.started = w.started := congrArg Vol.started hv
  exact ⟨⟨congrArg Vol.geo hv, fun e => hs.trans e, fun _ => h.untouched⟩, congrArg Vol.committed hv⟩

namespace Writes

lemma writeSector {data : Mem} : Sat Works (writeSector sector data) := by
  unfold Fat16.writeSector
  refine .bind .get fun w => .ite .fail_bind (.ite .fail_bind ?_)
  intro w
  have h : ∀ w' : World, w'.geo = w.geo → w'.started = true → w'.committed = w.committed → Works w w' :=
    fun w' hg hs hc => ⟨⟨hg, fun _ => hs, fun hf => by rw [hs] at hf; cases hf⟩, hc⟩
  simp only [bind_run, modify_run, nextOutcome]
  split <;> exact h _ rfl rfl rfl

lemma flushDevice : Sat Works flushDevice := by
  intro w
  have h : ∀ w' : World, w'.geo = w.geo → w'.started = w.started → w'.committed = w.committed →
      Untouched w w' → Works w w' := fun w' hg hs hc hu => ⟨⟨hg, fun e => hs.trans e, fun _ => hu⟩, hc⟩
  simp only [Fat16.flushDevice, bind_run, modify_run, nextOutcome]
  split <;> exact h _ rfl rfl rfl ⟨by simp [writesOf], rfl, rfl, rfl, rfl⟩

lemma persistSectors : Sat Works (persistSectors fat copy fuel i changed) := by
  induction fuel generalizing i changed with
  | zero => exact .pure
  | succ fuel ih => exact .bind .get fun w => .ite ih (.bind writeSector fun _ => ih)

lemma persistCopy : Sat Works (persistCopy fat copy) :=
  .bind .get fun _ => .bind persistSectors fun _ => .ite flushDevice .pure

lemma writeSector_started {data : Mem}
    (h : (Fat16.writeSector sector data).run w = (.ok u, w')) : w'.started = true := by
  unfold Fat16.writeSector at h
  rw [bind_run_ok get_run] at h
  by_cases h1 : sector < w.geo.fatStart ∨ sector ≥ w.geo.sectors
  · rw [if_pos h1] at h
    cases h
  by_cases h2 : w.device.readOnly = true
  · rw [if_neg h1, if_pos h2] at h
    cases h
  rw [if_neg h1, if_neg h2] at h
  simp only [bind_run, modify_run, nextOutcome] at h
  split at h <;> cases h
  rfl

lemma persistSectors_same {b : Bool}
    (h : (Fat16.persistSectors fat copy fuel i changed).run w = (.ok b, w')) (hs : w'.started = false) :
    w' = w ∧ ∀ k, i ≤ k → k < i + fuel → ∀ j < 512, fat (k * 512 + j) = w.fat (k * 512 + j) := by
  induction fuel generalizing i changed with
  | zero =>
    cases h
    exact ⟨rfl, fun k h1 h2 => by omega⟩
  | succ fuel ih =>
    unfold Fat16.persistSectors at h
    rw [bind_run_ok get_run] at h
    by_cases hsame : sameBytes (slice fat (i * 512) 512) (slice w.fat (i * 512) 512) 512 = true
    · rw [if_pos hsame] at h
      obtain ⟨rfl, hrest⟩ := ih h
      refine ⟨rfl, fun k h1 h2 j hj => ?_⟩
      rcases Nat.eq_or_lt_of_le h1 with rfl | h1
      · have hb := sameBytes_iff.mp hsame j hj
        rwa [slice_apply hj, slice_apply hj] at hb
      · exact hrest k h1 (by omega) j hj
    · rw [if_neg hsame, bind_run] at h
      rcases hw : (Fat16.writeSector (w.geo.fatStart + copy * w.geo.fatSectors + i)
        (slice fat (i * 512) 512)).run w with ⟨r, w1⟩
      rw [hw] at h
      cases r with
      | error e => cases h
      | ok u =>
        have hworks : Sat Works (Fat16.persistSectors fat copy fuel (i + 1) true) := persistSectors
        have hstarted := (hworks w1).1.started (writeSector_started hw)
        rw [show (Fat16.persistSectors fat copy fuel (i + 1) true).run w1 = (.ok b, w') from h, hs] at hstarted
        cases hstarted

lemma persistCopy_same {j : Nat} (h : (Fat16.persistCopy fat copy).run w = (.ok u, w'))
    (hs : w'.started = false) (hj : j < w.geo.fatBytes) : fat j = w.fat j := by
  unfold Fat16.persistCopy at h
  rw [bind_run_ok get_run, bind_run] at h
  rcases hp : (Fat16.persistSectors fat copy w.geo.fatSectors 0 false).run w with ⟨r, w1⟩
  rw [hp] at h
  cases r with
  | error e => cases h
  | ok b =>
    have hw : Works w1 w' := by
      have h1 : Sat Works (if b = true then Fat16.flushDevice else Pure.pure ()) := .ite flushDevice .pure
      have h2 := h1 w1
      rwa [show (if b = true then Fat16.flushDevice else Pure.pure ()).run w1 = (.ok u, w') from h] at h2
    have hsame := (persistSectors_same hp (hw.1.of_not_started hs)).2 (j / 512) (by omega)
      (by unfold Geometry.fatBytes at hj; omega) (j % 512) (by omega)
    rwa [Nat.div_add_mod'] at hsame

lemma persistFat : Sat Works (persistFat fat) := by
  intro w
  have h0 : Works w ((Fat16.persistCopy fat 0).run w).2 := persistCopy w
  unfold Fat16.persistFat
  rw [bind_run]
  rcases hc0 : (Fat16.persistCopy fat 0).run w with ⟨r, w1⟩
  rw [hc0] at h0
  cases r with
  | error e => exact h0
  | ok u =>
    have h1 : Works w1 ((Fat16.persistCopy fat 1).run w1).2 := persistCopy w1
    simp only
    rw [bind_run]
    rcases hc1 : (Fat16.persistCopy fat 1).run w1 with ⟨r, w2⟩
    rw [hc1] at h1
    have h2 := trans_of Works h0 h1
    cases r with
    | error e => exact h2
    | ok u =>
      refine ⟨⟨h2.1.geo, h2.1.started, fun hs => ?_⟩, h2.2⟩
      have hu := h2.1.untouched hs
      refine ⟨hu.writes, hu.medium, ?_, hu.faulted, hu.writable⟩
      -- no write was made, so every sector of the new table is the cached one
      funext j
      show (if j < w2.geo.fatBytes then fat j else w2.fat j) = w.fat j
      split
      · rename_i hj
        rw [h2.1.geo] at hj
        exact persistCopy_same hc0 (h1.1.of_not_started hs) hj
      · rw [hu.fat]

lemma writing : Writing fun _ m => Sat Works m where
  pure := .pure
  fail := .fail
  lift := .lift
  fail_bind := .fail_bind
  bind := .bind
  get_bind _ hk := .bind .get hk
  fat16Sector := fun w => (Looks.fat16Sector w).works
  kmalloc := fun w => (Looks.kmalloc w).works
  own := fun w => (Looks.looking.own w).works
  audited := fun w => (Looks.looking.audited w).works
  writeSector := writeSector
  flushDevice := flushDevice
  persistFat := persistFat

lemma begun : Writing fun _ m => Sat Begun m where
  pure := .pure
  fail := .fail
  lift := .lift
  fail_bind := .fail_bind
  bind := .bind
  get_bind _ hk := .bind .get hk
  fat16Sector := fun w => (writing.fat16Sector w).1
  kmalloc := fun w => (writing.kmalloc w).1
  own := fun w => (writing.own w).1
  audited := fun w => (writing.audited w).1
  writeSector := fun w => (writeSector w).1
  flushDevice := fun w => (flushDevice w).1
  persistFat := fun w => (persistFat w).1

end Writes

/-! ## Failed calls -/

/-- The mount is faulted and no longer writable. -/
def Broken (w : World) : Prop := w.faulted = true ∧ w.writable = false

/-- A failure of `m` leaves the mount faulted or everything as it was. -/
def Contained (m : FatM α) : Prop := ∀ w e w', m.run w = (.error e, w') → Broken w' ∨ Untouched w w'

namespace Contained

variable {β : Type} {k : α → FatM β}

lemma of_untouched (h : Sat Untouched m) : Contained m := fun w e w' hr => by
  have := h w
  rw [hr] at this
  exact .inr this

lemma bind (hm : Sat Untouched m) (hk : ∀ a, Contained (k a)) : Contained (m >>= k) := by
  intro w e w' h
  have hu := hm w
  rw [bind_run] at h
  rcases hr : m.run w with ⟨r, w1⟩
  rw [hr] at h hu
  cases r with
  | error e =>
    cases h
    exact .inr hu
  | ok a => exact (hk a w1 e w' h).imp_right (trans_of Untouched hu)

lemma ite [Decidable c] {n : FatM α} (ht : Contained m) (hf : Contained n) : Contained (if c then m else n) := by
  split
  · exact ht
  · exact hf

lemma fail_bind : Contained (Prog.fail e >>= k) := of_untouched Sat.fail_bind

lemma looks (h : Sat Looked m) : Sat Untouched m := fun w => (h w).untouched

lemma update {f : World → World} (h : ∀ w, Untouched w (f w)) : Sat Untouched (Prog.modify f : FatM Unit) := h

lemma finish (h : Sat Begun m) : Contained (finish m) := by
  intro w e w' hr
  have hb := h w
  unfold Fat16.finish at hr
  rcases hm : m.run w with ⟨r, w1⟩
  rw [hm] at hb
  cases r with
  | ok a => simp only [hm] at hr; cases hr
  | error e =>
    simp only [hm, Prod.mk.injEq] at hr
    obtain ⟨-, rfl⟩ := hr
    by_cases hs : w1.started = true
    · rw [if_pos hs]
      exact .inl ⟨rfl, rfl⟩
    · rw [if_neg hs]
      exact .inr (hb.untouched (by simpa using hs))

lemma rewrite {size : Nat} {keep : Bool} : Contained (rewrite t size offset data keep) :=
  .bind (update fun _ => ⟨rfl, rfl, rfl, rfl, rfl⟩) fun _ => .bind .get fun _ => .ite .fail_bind (.ite .fail_bind
    (.bind (looks Looks.looking.fatCopy) fun _ => .bind (update fun _ => ⟨rfl, rfl, rfl, rfl, rfl⟩) fun _ =>
      .finish (Writes.begun.rewriteBody fun _ => ⟨rfl, id, fun _ => ⟨rfl, rfl, rfl, rfl, rfl⟩⟩)))

lemma writeBody : Contained (writeBody id offset data) :=
  .bind (looks Looks.looking.writable) fun _ => .bind (looks Looks.looking.byId) fun _ => .ite .fail_bind rewrite

lemma write : Contained (Mutation.run (.write id offset data)) := by
  intro w e w' h
  rw [Mutation.write_run] at h
  exact (writeBody _ e w' h).imp_right fun h => ⟨h.writes, h.medium, h.fat, h.faulted, h.writable⟩

/-- Every mutation. -/
theorem mutation (op : Mutation) : Contained op.run := by
  have hlook : ∀ w : World, Untouched w { w with started := false } := fun _ => ⟨rfl, rfl, rfl, rfl, rfl⟩
  cases op with
  | replace parent name data =>
    exact .bind (looks Looks.looking.writable) fun _ => .bind (looks Looks.looking.findTarget) fun _ => .ite .fail_bind
      (.bind .get fun _ => .ite .fail_bind rewrite)
  | write id offset data => exact write
  | truncate id size =>
    exact .bind (looks Looks.looking.writable) fun _ => .bind (looks Looks.looking.byId) fun _ => .ite .fail_bind
      (.ite (.of_untouched .pure) rewrite)
  | mkdir parent name =>
    exact .bind (looks Looks.looking.writable) fun _ => .bind (looks Looks.looking.findTarget) fun _ => .ite .fail_bind
      (.bind (looks Looks.looking.fatCopy) fun _ => .bind (update hlook) fun _ => .finish Writes.begun.mkdirBody)
  | remove parent name =>
    have hrest : ∀ t, Contained (do
        let fat ← Fat16.fatCopy
        modify fun w : World => { w with started := false }
        Fat16.finish (Fat16.removeBody t fat)) := fun t =>
      .bind (looks Looks.looking.fatCopy) fun _ => .bind (update hlook) fun _ => .finish Writes.begun.removeBody
    exact .bind (looks Looks.looking.writable) fun _ => .bind (looks Looks.looking.findTarget) fun t => .ite .fail_bind
      (.bind .get fun _ => .ite .fail_bind (.ite .fail_bind (.ite .fail_bind
        (.ite (.bind (looks Looks.looking.emptyLoop) fun _ => hrest t) (hrest t)))))

end Contained

lemma flush_contained (h : fat16Flush.run w = (.error e, w')) : Broken w' ∨ w' = w := by
  unfold fat16Flush at h
  rw [bind_run_ok get_run] at h
  by_cases hready : (!w.ready) = true
  · rw [if_pos hready] at h
    cases h
    exact .inr rfl
  by_cases hf : w.faulted = true
  · rw [if_neg hready, if_pos hf] at h
    cases h
    exact .inr rfl
  by_cases hw : (!w.writable) = true
  · rw [if_neg hready, if_neg hf, if_pos hw] at h
    cases h
  rw [if_neg hready, if_neg hf, if_neg hw, bind_run_ok modify_run] at h
  have hs := (Writes.flushDevice { w with started := true }).1.started rfl
  unfold finish at h
  rcases hm : flushDevice.run { w with started := true } with ⟨r, w1⟩
  rw [hm] at hs
  cases r with
  | ok a => simp only [hm] at h; cases h
  | error e =>
    simp only [hm, Prod.mk.injEq] at h
    obtain ⟨-, rfl⟩ := h
    rw [if_pos hs]
    exact .inl ⟨rfl, rfl⟩

/-! ## Faulted and read-only mounts -/

inductive Call where
  | lookup (parent : Nat) (name : Name)
  | stat (id : Nat)
  | retain (id : Nat)
  | release (id : Nat)
  | read (id offset bytes : Nat)
  | readdir (id cursor : Nat)
  | mutate (op : Mutation)
  | flush

/-- The error code a call returns and the volume it leaves. -/
def Call.run : Call → FatM Unit
  | lookup parent name => do let _ ← Fat16.lookup parent name
  | stat id => do let _ ← statNode id
  | retain id => Fat16.retain id
  | release id => Fat16.release id
  | read id offset bytes => do
    let r ← readFile id offset bytes
    match r.1.error with
    | none => return ()
    | some e => fail e
  | readdir id cursor => do let _ ← readdirNode id cursor
  | mutate op => op.run
  | flush => fat16Flush

/-- The volume after a run of calls, whatever they return. -/
def runCalls (calls : List Call) (w : World) : World := calls.foldl (fun w c => (c.run.run w).2) w

/-- A mount that is faulted or read-only. -/
def Stopped (w : World) : Prop := w.faulted = true ∨ w.writable = false

/-- From `w` to `w'` no request was sent that changes the device, and the mount is in the same state. -/
structure Silent (w w' : World) : Prop where
  trace : w'.trace = w.trace
  medium : w'.medium = w.medium
  faulted : w'.faulted = w.faulted
  writable : w'.writable = w.writable
  ready : w'.ready = w.ready

instance : IsPreorder World Silent where
  refl _ := ⟨rfl, rfl, rfl, rfl, rfl⟩
  trans _ _ _ h h' := ⟨h'.trace.trans h.trace, h'.medium.trans h.medium, h'.faulted.trans h.faulted,
    h'.writable.trans h.writable, h'.ready.trans h.ready⟩

lemma Looked.silent (h : Looked w w') : Silent w w' := by
  have hv := h.vol
  exact ⟨congrArg Vol.trace hv, congrArg Vol.medium hv, congrArg Vol.faulted hv, congrArg Vol.writable hv,
    congrArg Vol.ready hv⟩

lemma writable_stopped (h : Stopped w) : ∃ e, writable.run w = (.error e, w) ∧
    (w.ready = true → w.faulted = true → e = .ioError) := by
  unfold writable
  rw [bind_run_ok get_run]
  by_cases hr : (!w.ready) = true
  · rw [if_pos hr]
    exact ⟨_, rfl, fun hr' => by simp [hr'] at hr⟩
  by_cases hf : w.faulted = true
  · rw [if_neg hr, if_pos hf]
    exact ⟨_, rfl, fun _ _ => rfl⟩
  have hw : (!w.writable) = true ∨ w.device.readOnly = true := .inl (by simpa using h.resolve_left hf)
  rw [if_neg hr, if_neg hf, if_pos hw]
  exact ⟨_, rfl, fun _ hf' => absurd hf' hf⟩

lemma mutation_stopped (op : Mutation) (h : Stopped w) : ∃ e w', op.run.run w = (.error e, w') ∧ Silent w w' ∧
    (w.ready = true → w.faulted = true → e = .ioError) := by
  obtain ⟨e, he, hio⟩ := writable_stopped h
  cases op with
  | replace parent name data | truncate id size | mkdir parent name | remove parent name =>
    exact ⟨e, w, bind_run_error he, refl_of Silent w, hio⟩
  | write id offset data =>
    obtain ⟨e, he, hio⟩ := writable_stopped (w := { w with lastIo := {}, committed := false }) h
    exact ⟨e, _, Mutation.write_run.trans (bind_run_error he), ⟨rfl, rfl, rfl, rfl, rfl⟩, hio⟩

lemma flush_stopped (h : Stopped w) : (fat16Flush.run w).2 = w := by
  unfold fat16Flush
  rw [bind_run_ok get_run]
  by_cases hr : (!w.ready) = true
  · rw [if_pos hr]
    rfl
  by_cases hf : w.faulted = true
  · rw [if_neg hr, if_pos hf]
    rfl
  have hw : (!w.writable) = true := by simpa using h.resolve_left hf
  rw [if_neg hr, if_neg hf, if_pos hw]
  rfl

lemma retain_silent : Sat Silent (retain id) := by
  have hpin : ∀ f : World → Nat → Pin, Sat Silent (Prog.modify fun w : World => { w with pins := f w } : FatM Unit) :=
    fun f w => ⟨rfl, rfl, rfl, rfl, rfl⟩
  refine .bind .get fun w => .ite .fail_bind (.ite .fail_bind ?_)
  split
  · exact .ite .fail_bind (hpin _)
  · split
    · exact .fail
    · exact hpin _

lemma release_silent : Sat Silent (release id) := by
  refine .bind .get fun w => ?_
  split
  · exact .pure
  · exact fun w => ⟨rfl, rfl, rfl, rfl, rfl⟩

lemma Call.silent (c : Call) (h : Stopped w) : Silent w (c.run.run w).2 := by
  have looks : ∀ {α : Type} {m : FatM α}, Sat Looked m → Sat Silent m := fun hm w => (hm w).silent
  cases c with
  | lookup parent name => exact Sat.bind (looks Looks.lookup) (fun _ => .pure) w
  | stat id => exact Sat.bind (looks Looks.statNode) (fun _ => .pure) w
  | retain id => exact retain_silent w
  | release id => exact release_silent w
  | read id offset bytes =>
    refine Sat.bind (looks Looks.readFile) (fun r => ?_) w
    split
    · exact .pure
    · exact .fail
  | readdir id cursor => exact Sat.bind (looks Looks.readdirNode) (fun _ => .pure) w
  | mutate op =>
    obtain ⟨e, w', hrun, hs, -⟩ := mutation_stopped op h
    rw [Call.run, hrun]
    exact hs
  | flush =>
    rw [Call.run, flush_stopped h]
    exact refl_of Silent w

lemma runCalls_silent (calls : List Call) (h : Stopped w) : Silent w (runCalls calls w) := by
  induction calls generalizing w with
  | nil => exact refl_of Silent w
  | cons c calls ih =>
    have hc := c.silent h
    have h' : Stopped (c.run.run w).2 := by rwa [Stopped, hc.faulted, hc.writable]
    exact trans_of Silent hc (ih h')

/-- The calls that reach a volume through `fat16_describe` or `writable`. -/
def Call.Checked : Call → Prop
  | retain _ => False
  | release _ => False
  | _ => True

lemma describe_faulted (hr : w.ready = true) (hf : w.faulted = true) :
    (describe id).run w = (.error .ioError, w) := by
  unfold describe
  rw [bind_run_ok get_run, if_neg (by simp [hr]), if_pos hf]
  rfl

lemma Call.faulted (c : Call) (hc : c.Checked) (hr : w.ready = true) (hf : w.faulted = true) :
    (c.run.run w).1 = .error .ioError := by
  cases c with
  | lookup parent name =>
    have h : (Fat16.lookup parent name).run w = (.error .ioError, w) := bind_run_error (describe_faulted hr hf)
    rw [Call.run, bind_run_error h]
  | stat id =>
    have h : (statNode id).run w = (.error .ioError, w) := bind_run_error (describe_faulted hr hf)
    rw [Call.run, bind_run_error h]
  | retain id => cases hc
  | release id => cases hc
  | read id offset bytes =>
    have hd : (describe id).run { w with lastIo := {} } = (.error .ioError, { w with lastIo := {} }) :=
      describe_faulted hr hf
    simp only [Call.run, readFile, bind_run, modify_run, attempt_run, get_run, pure_run, hd]
    rfl
  | readdir id cursor =>
    have h : (readdirNode id cursor).run w = (.error .ioError, w) := bind_run_error (describe_faulted hr hf)
    rw [Call.run, bind_run_error h]
  | mutate op =>
    obtain ⟨e, w', hrun, -, hio⟩ := mutation_stopped op (w := w) (.inl hf)
    rw [Call.run, hrun, hio hr hf]
  | flush =>
    unfold Call.run fat16Flush
    rw [bind_run_ok get_run, if_neg (by simp [hr]), if_pos hf]
    rfl

/-! ## The reported transfer -/

/-- The steps of `fat16_write_file` before the directory entry is written: the target and the entry. -/
def writeSteps (id offset : Nat) (data : List Byte) : FatM (Target × Entry) := do
  writable
  let target ← byId id
  if offset > target.old.node.size ∨ data.length > 4294967295 ∨ offset > 4294967295 - data.length then
    fail .range
  let size := max (offset + data.length) target.old.node.size
  modify fun w => { w with committed := false }
  let w ← get
  if size > 4294967295 ∨ size > w.geo.clusters * w.geo.clusterBytes then fail .range
  if target.exists ∧ target.entry 11 &&& 1 ≠ 0 then fail .access
  let fat ← fatCopy
  modify fun w => { w with started := false }
  let w ← get
  let (fat, first) ← lift (allocate w.geo fat (clustersFor w.geo size))
  if target.grow ∧ freeCount w.geo fat = 0 then fail .noSpace
  copyContents target.old fat first size offset data true
  let (target, fat) ← growDirectory target fat
  flushDevice
  persistFat fat
  clearNext target
  return (target, rewriteEntry target.entry first size)

/-- The steps end with an entry, and the write of the entry and the flush behind it succeed. -/
def EntryFlushed (r : Except FsError (Target × Entry) × World) : Prop :=
  ∃ t e w1 w2 w3, r = (.ok (t, e), w1) ∧ (entryWrite t.id e).run w1 = (.ok (), w2) ∧
    flushDevice.run w2 = (.ok (), w3)

/-- The program `m` raises the flag `committed` exactly when the entry that `steps` end with is flushed. -/
def Commits (m : FatM Unit) (steps : FatM (Target × Entry)) : Prop :=
  ∀ w, w.committed = false → ((m.run w).2.committed = true ↔ EntryFlushed (steps.run w))

namespace Commits

variable {k : α → FatM Unit} {k' : α → FatM (Target × Entry)} {n : FatM Unit} {n' : FatM (Target × Entry)}

lemma bind (hm : Sat SameCommit m) (hk : ∀ a, Commits (k a) (k' a)) : Commits (m >>= k) (m >>= k') := by
  intro w h0
  have hc := hm w
  rw [bind_run, bind_run]
  rcases hr : m.run w with ⟨r, w1⟩
  rw [hr] at hc
  have h1 : w1.committed = false := Eq.trans hc h0
  cases r with
  | error e =>
    refine ⟨fun h => ?_, fun ⟨_, _, _, _, _, h, _⟩ => ?_⟩
    · rw [show w1.committed = true from h] at h1
      cases h1
    · cases h
  | ok a => exact hk a w1 h1

lemma get_bind {k : World → FatM Unit} {k' : World → FatM (Target × Entry)} (hk : ∀ w, Commits (k w) (k' w)) :
    Commits (Prog.get >>= k) (Prog.get >>= k') := fun w h0 => hk w w h0

lemma fail_bind {β : Type} {k : β → FatM Unit} {k' : β → FatM (Target × Entry)} :
    Commits (Prog.fail e >>= k) (Prog.fail e >>= k') := by
  intro w h0
  refine ⟨fun h => ?_, fun ⟨_, _, _, _, _, h, _⟩ => ?_⟩
  · rw [show w.committed = true from h] at h0
    cases h0
  · cases h

lemma ite [Decidable c] {m : FatM Unit} {m' : FatM (Target × Entry)} (ht : Commits m m')
    (hf : Commits n n') : Commits (if c then m else n) (if c then m' else n') := by
  split
  · exact ht
  · exact hf

lemma finish (h : Commits n n') : Commits (finish n) n' := by
  intro w h0
  rw [← h w h0, finish_run]
  rcases n.run w with ⟨r, w1⟩
  cases r with
  | ok a => rfl
  | error e =>
    by_cases hs : w1.started = true
    · simp only [hs, if_true]
    · simp only [hs, if_false, Bool.false_eq_true]

lemma lower (h : Commits n n') : Commits (Prog.modify (fun w : World => { w with committed := false }) >>= fun _ => n)
    (Prog.modify (fun w : World => { w with committed := false }) >>= fun _ => n') :=
  fun w _ => h { w with committed := false } rfl

lemma publish {e : Entry} {rest : FatM Unit} (hr : Sat SameCommit rest) :
    Commits (do entryWrite t.id e; flushDevice; modify fun w : World => { w with committed := true }; rest)
      (Pure.pure (t, e)) := by
  intro w h0
  have hw : Sat SameCommit (entryWrite t.id e) := fun w => (Writes.writing.entryWrite w).2
  have hf : Sat SameCommit flushDevice := fun w => (Writes.flushDevice w).2
  have h1 := hw w
  rw [bind_run]
  rcases hrun : (entryWrite t.id e).run w with ⟨r, w1⟩
  rw [hrun] at h1
  have h1' : w1.committed = false := Eq.trans h1 h0
  cases r with
  | error r =>
    refine ⟨fun h => ?_, fun ⟨_, _, _, _, _, h, h', _⟩ => ?_⟩
    · rw [show w1.committed = true from h] at h1'
      cases h1'
    · cases h
      rw [hrun] at h'
      cases h'
  | ok u =>
    have h2 := hf w1
    simp only
    rw [bind_run]
    rcases hrun' : flushDevice.run w1 with ⟨r, w2⟩
    rw [hrun'] at h2
    have h2' : w2.committed = false := Eq.trans h2 h1'
    cases r with
    | error r =>
      refine ⟨fun h => ?_, fun ⟨_, _, _, _, _, h, h', h''⟩ => ?_⟩
      · rw [show w2.committed = true from h] at h2'
        cases h2'
      · cases h
        rw [hrun] at h'
        cases h'
        rw [hrun'] at h''
        cases h''
    | ok u => exact ⟨fun _ => ⟨t, e, w, w1, w2, rfl, hrun, hrun'⟩, fun _ => hr { w2 with committed := true }⟩

end Commits

lemma writeBody_commits : Commits (writeBody id offset data) (writeSteps id offset data) := by
  have same : ∀ {α : Type} {m : FatM α}, Sat Works m → Sat SameCommit m := fun h w => (h w).2
  have hw := Writes.writing
  unfold writeBody writeSteps
  refine .bind (same hw.writable) fun _ => .bind (same hw.byId) fun t => .ite .fail_bind ?_
  unfold rewrite
  refine .lower (.get_bind fun w => .ite .fail_bind (.ite .fail_bind (.bind (same hw.fatCopy) fun fat =>
    .bind (fun _ => rfl) fun _ => .finish ?_)))
  unfold rewriteBody
  refine .get_bind fun w => .bind .lift fun r => .ite .fail_bind (.bind (same hw.copyContents) fun _ =>
    .bind (same hw.growDirectory) fun r' => ?_)
  unfold commit publish
  simp only [bind_assoc]
  refine .bind (same hw.flushDevice) fun _ => .bind (same hw.persistFat) fun _ => .bind (same ?_) fun _ => .publish ?_
  · exact .bind .get fun _ => .ite (.bind .lift fun _ => .bind hw.entryRead fun _ =>
      .ite (.bind hw.entryWrite fun _ => hw.flushDevice) .pure) .pure
  · exact .bind .get fun _ => same hw.persistFat

/-- The entry's write and flush succeed in a call of `fat16_write_file`. -/
def WriteFlushed (id offset : Nat) (data : List Byte) (w : World) : Prop :=
  EntryFlushed ((writeSteps id offset data).run { w with lastIo := {}, committed := false })

lemma writeFile_transferred : ∃ res w', (writeFile id offset data).run w =
    (.ok res, w') ∧ (WriteFlushed id offset data w → res.transferred = data.length) ∧
      (¬WriteFlushed id offset data w → res.transferred = 0) := by
  have hcommits : Commits (writeBody id offset data) (writeSteps id offset data) := writeBody_commits
  have hc := hcommits { w with lastIo := {}, committed := false } rfl
  simp only [writeFile, bind_run, modify_run, attempt_run, get_run]
  refine ⟨_, _, rfl, fun h => ?_, fun h => ?_⟩
  · exact if_pos (hc.mpr h)
  · exact if_neg fun h' => h (hc.mp h')

/-- **Failure containment**, for every volume and every pattern of device failures. -/
theorem failures_contained (w : World) :
    (∀ (op : Mutation) (e : FsError) (w' : World), op.run.run w = (.error e, w') → Broken w' ∨ Untouched w w') ∧
    (∀ (e : FsError) (w' : World), fat16Flush.run w = (.error e, w') → Broken w' ∨ w' = w) ∧
    (Stopped w → ∀ calls, Silent w (runCalls calls w)) ∧
    (w.ready = true → w.faulted = true → ∀ (calls : List Call) (c : Call), c.Checked →
      (c.run.run (runCalls calls w)).1 = .error .ioError) ∧
    (∀ (id offset : Nat) (data : List Byte), ∃ res w', (writeFile id offset data).run w = (.ok res, w') ∧
      (WriteFlushed id offset data w → res.transferred = data.length) ∧
      (¬WriteFlushed id offset data w → res.transferred = 0)) := by
  refine ⟨fun op => Contained.mutation op w, fun e w' => flush_contained, fun h calls => runCalls_silent calls h,
    fun hr hf calls c hc => ?_, fun id offset data => writeFile_transferred⟩
  have hs := runCalls_silent calls (w := w) (.inl hf)
  exact c.faulted hc (hs.ready.trans hr) (hs.faulted.trans hf)

/-- A device that fails in the middle of a call: the volume is broken, and every later call is turned away in silence.
-/
theorem failures_contained_broken : Broken (makeA.next brokenWorld) ∧
    ∀ calls, Silent (makeA.next brokenWorld) (runCalls calls (makeA.next brokenWorld)) ∧
      ∀ c : Call, c.Checked → (c.run.run (runCalls calls (makeA.next brokenWorld))).1 = .error .ioError := by
  obtain ⟨herr, hfault, hready, hlen⟩ := blank_facts.2.2.2.2.2
  obtain ⟨-, -, hsilent, hcalls, -⟩ := failures_contained (makeA.next brokenWorld)
  refine ⟨?_, fun calls => ⟨hsilent (.inl hfault) calls, hcalls hready hfault calls⟩⟩
  rcases (failures_contained brokenWorld).1 makeA .ioError _ (makeA.run_eq herr) with h | h
  · exact h
  · have hw := congrArg List.length h.writes
    rw [hlen] at hw
    cases hw

end RumKernel.Fat16
