import RumKernel.Fat16.Consistency

/-!
# Successful runs and healthy devices

A mutation stops at the first request the device does not complete. So a mutation that returned `FS_OK`
runs in the same way on the device that completes every request, whatever the device does later.
-/

namespace RumKernel.Fat16
open Lib Fs Prog

variable {o : Outcome} {count id n offset sector : Nat} {w : World} {buffer : Mem}
variable {data : List Byte}

/-- The answer with its failure taken away. -/
def Outcome.heal (o : Outcome) : Outcome := { o with error := .ok, completed := none }

/-- The world on a device that completes every request. -/
def World.heal (w : World) : World := { w with oracle := fun n => (w.oracle n).heal }

lemma Outcome.heal_code : o.heal.code n = none := by
  simp [Outcome.code, Outcome.heal, fsErrorFromBlock]

lemma Outcome.heal_ioResult (h : o.code n = none) : o.heal.ioResult n = o.ioResult n := by
  unfold Outcome.ioResult
  rw [heal_code, h]
  rfl

lemma World.heal_good (h : Coherent w) : Good w.heal := ⟨fun _ => ⟨rfl, rfl⟩, h⟩

lemma readSectors_run : (readSectors sector count buffer).run w =
    if sector ≥ w.geo.sectors ∨ count > w.geo.sectors - sector then (.ok (some .range, buffer), w)
    else (.ok ((w.oracle w.clock).code count, if (w.oracle w.clock).code count = none
      then slice w.medium (sector * 512) (count * 512) else (w.oracle w.clock).contents),
      { w with clock := w.clock + 1, lastIo := (w.oracle w.clock).ioResult count }) := by
  unfold readSectors
  rw [bind_run_ok get_run]
  by_cases hr : sector ≥ w.geo.sectors ∨ count > w.geo.sectors - sector
  · rw [if_pos hr, if_pos hr]
    rfl
  · rw [if_neg hr, if_neg hr]
    rfl

/-- A property of programs closed under what the mutations are built from: the requests, the flags a call keeps,
`finish`, and the report `fat16_write_file` makes of its body. -/
structure Calling (J : (α : Type) → FatM α → Prop) : Prop extends Writing J where
  began : J Unit (Prog.modify fun w : World => { w with committed := false })
  started : J Unit (Prog.modify fun w : World => { w with started := false })
  committed : J Unit (Prog.modify fun w : World => { w with committed := true })
  finish : ∀ {α : Type} {m : FatM α}, J α m → J α (finish m)
  write : ∀ {id offset : Nat} {data : List Byte}, J Unit (writeBody id offset data) →
    J Unit (Mutation.run (.write id offset data))

namespace Calling

variable {J : (α : Type) → FatM α → Prop}

lemma rewrite (h : Calling J) {t : Target} {size : Nat} {keep : Bool} : J Unit (rewrite t size offset data keep) :=
  h.bind h.began fun _ => h.get_bind (fun _ _ => rfl) fun _ => h.ite h.fail_bind (h.ite h.fail_bind
    (h.bind h.fatCopy fun _ => h.bind h.started fun _ => h.finish (h.rewriteBody h.committed)))

lemma writeBody (h : Calling J) : J Unit (writeBody id offset data) :=
  h.bind h.writable fun _ => h.bind h.byId fun _ => h.ite h.fail_bind h.rewrite

lemma mutation (h : Calling J) (op : Mutation) : J Unit op.run := by
  cases op with
  | replace parent name data =>
    exact h.bind h.writable fun _ => h.bind h.findTarget fun _ => h.ite h.fail_bind
      (h.get_bind (fun _ _ => rfl) fun _ => h.ite h.fail_bind h.rewrite)
  | write id offset data => exact h.write h.writeBody
  | truncate id size =>
    exact h.bind h.writable fun _ => h.bind h.byId fun _ => h.ite h.fail_bind (h.ite h.pure h.rewrite)
  | mkdir parent name =>
    exact h.bind h.writable fun _ => h.bind h.findTarget fun _ => h.ite h.fail_bind
      (h.bind h.fatCopy fun _ => h.bind h.started fun _ => h.finish h.mkdirBody)
  | remove parent name =>
    have hrest : ∀ t, J Unit (do
        let fat ← Fat16.fatCopy
        modify fun w : World => { w with started := false }
        Fat16.finish (Fat16.removeBody t fat)) := fun t =>
      h.bind h.fatCopy fun _ => h.bind h.started fun _ => h.finish h.removeBody
    exact h.bind h.writable fun _ => h.bind h.findTarget fun t =>
      h.ite h.fail_bind (h.get_bind (fun _ _ => rfl) fun _ =>
      h.ite h.fail_bind (h.ite h.fail_bind (h.ite h.fail_bind (h.ite (h.bind h.emptyLoop fun _ => hrest t) (hrest t)))))

end Calling

namespace Replays

lemma kmalloc : Mirrors World.heal kmalloc := by
  intro w b w' h
  cases h
  rfl

lemma readSectors_bind {β : Type} {k : Option FsError × Mem → FatM β}
    (hbad : ∀ e data w, ∃ e' w', (k (some e, data)).run w = (.error e', w'))
    (hk : ∀ data, Mirrors World.heal (k (none, data))) :
    Mirrors World.heal (readSectors sector count buffer >>= k) := by
  intro w b w' h
  rw [bind_run, readSectors_run] at h ⊢
  by_cases hr : sector ≥ w.geo.sectors ∨ count > w.geo.sectors - sector
  · rw [if_pos hr] at h
    obtain ⟨e, s, hs⟩ := hbad .range buffer w
    cases hs.symm.trans h
  rw [if_neg hr] at h
  rw [if_neg (show ¬(sector ≥ w.heal.geo.sectors ∨ count > w.heal.geo.sectors - sector) from hr)]
  cases hc : (w.oracle w.clock).code count with
  | some e =>
    rw [hc] at h
    obtain ⟨e', s, hs⟩ := hbad e (w.oracle w.clock).contents
      { w with clock := w.clock + 1, lastIo := (w.oracle w.clock).ioResult count }
    cases hs.symm.trans h
  | none =>
    rw [hc] at h
    have e1 : (w.heal.oracle w.heal.clock) = (w.oracle w.clock).heal := rfl
    rw [e1, Outcome.heal_code, Outcome.heal_ioResult hc]
    exact hk _ _ b w' h

lemma fat16Sector {number : Nat} : Mirrors World.heal (fat16Sector number) := by
  unfold Fat16.fat16Sector
  refine .get_bind (fun _ => rfl) fun w => .ite .pure (.bind (.modify fun _ => rfl) fun _ => ?_)
  refine readSectors_bind (fun e data w => ⟨e, _, rfl⟩) fun data => ?_
  exact .bind (.modify fun _ => rfl) fun _ => .modify fun _ => rfl

lemma flushDevice : Mirrors World.heal flushDevice := by
  intro w b w' h
  cases hc : (w.oracle w.clock).code 0 with
  | some e => simp only [Fat16.flushDevice, bind_run, nextOutcome, modify_run, hc] at h; cases h
  | none =>
    simp only [Fat16.flushDevice, bind_run, nextOutcome, modify_run, hc] at h
    cases h
    have e1 : (w.heal.oracle w.heal.clock) = (w.oracle w.clock).heal := rfl
    simp only [Fat16.flushDevice, bind_run, nextOutcome, modify_run, e1, Outcome.heal_code, Outcome.heal_ioResult hc]
    rfl

lemma writeSector {data : Mem} : Mirrors World.heal (writeSector sector data) := by
  unfold Fat16.writeSector
  refine .get_bind (fun _ => rfl) fun w => .ite .fail_bind (.ite .fail_bind (.bind (.modify fun _ => rfl) fun _ => ?_))
  intro w b w' h
  cases hc : (w.oracle w.clock).code 1 with
  | some e => simp only [bind_run, nextOutcome, modify_run, hc] at h; cases h
  | none =>
    simp only [bind_run, nextOutcome, modify_run, hc] at h
    cases h
    have e1 : (w.heal.oracle w.heal.clock) = (w.oracle w.clock).heal := rfl
    simp only [bind_run, nextOutcome, modify_run, e1, Outcome.heal_code, Outcome.heal_ioResult hc]
    rfl

lemma finish {α : Type} {m : FatM α} (h : Mirrors World.heal m) : Mirrors World.heal (finish m) := by
  intro w b w' hr
  unfold Fat16.finish at hr ⊢
  rcases hm : m.run w with ⟨r, w1⟩
  cases r with
  | error e => simp only [hm] at hr; cases hr
  | ok a =>
    simp only [hm] at hr
    cases hr
    simp only [h w b w' hm]

lemma persistFat {fat : Mem} : Mirrors World.heal (persistFat fat) := by
  have sectors : ∀ copy fuel i changed, Mirrors World.heal (persistSectors fat copy fuel i changed) := by
    intro copy fuel
    induction fuel with
    | zero => exact fun _ _ => .pure
    | succ fuel ih =>
      exact fun _ _ => .get_bind (fun _ => rfl) fun w => .ite (ih _ _) (.bind writeSector fun _ => ih _ _)
  have copy : ∀ k, Mirrors World.heal (persistCopy fat k) := fun k =>
    .get_bind (fun _ => rfl) fun _ => .bind (sectors _ _ _ _) fun _ => .ite flushDevice .pure
  exact .bind (copy 0) fun _ => .bind (copy 1) fun _ => .modify fun _ => rfl

lemma writing : Writing fun _ m => Mirrors World.heal m where
  pure := .pure
  fail := .fail
  lift := .lift
  fail_bind := .fail_bind
  bind := .bind
  get_bind hf hk := .get_bind (fun w => hf w _) hk
  fat16Sector := fat16Sector
  kmalloc := kmalloc
  own := .modify fun _ => rfl
  audited := .modify fun _ => rfl
  writeSector := writeSector
  flushDevice := flushDevice
  persistFat := persistFat

lemma write (hbody : Mirrors World.heal (writeBody id offset data)) :
    Mirrors World.heal (Mutation.run (.write id offset data)) := by
  intro w b w' h
  rw [Mutation.write_run] at h ⊢
  exact hbody _ b w' h

lemma calling : Calling fun _ m => Mirrors World.heal m where
  toWriting := writing
  began := .modify fun _ => rfl
  started := .modify fun _ => rfl
  committed := .modify fun _ => rfl
  finish := finish
  write := write

/-- **Every mutation** that succeeds does the same on a healthy device. -/
theorem mutation (op : Mutation) : Mirrors World.heal op.run := calling.mutation op

end Replays

end RumKernel.Fat16
