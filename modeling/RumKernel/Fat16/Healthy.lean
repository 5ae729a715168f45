import RumKernel.Fat16.Write

/-!
# Runs on a healthy device

On a device that completes every request the sector cache, request counter and diagnostics do not matter. A world splits
into the volume `Vol` and that hidden part, and `Runs v m Q` says that every run of `m` on `v` over a healthy device
with a coherent cache ends in `Q`.
-/

namespace RumKernel.Fat16
open Lib Fs Prog

/-- What a run on a healthy device can depend on. -/
structure Vol where
  geo : Geometry
  writable : Bool
  faulted : Bool
  fat : Mem
  owners : Nat → Bool
  pins : Nat → Pin
  ready : Bool
  audited : Bool
  started : Bool
  committed : Bool
  device : Device
  medium : Mem
  trace : List Request

/-- The rest of a world: the sector cache, the diagnostics and the device's answers. -/
structure Hidden where
  mounted : Bool
  sector : Mem
  cachedSector : Nat
  cacheValid : Bool
  lastIo : FsIoResult
  oracle : Nat → Outcome
  clock : Nat

/-- The world with a given volume and hidden part. -/
def mkWorld (v : Vol) (h : Hidden) : World where
  geo := v.geo
  mounted := h.mounted
  writable := v.writable
  faulted := v.faulted
  fat := v.fat
  sector := h.sector
  cachedSector := h.cachedSector
  cacheValid := h.cacheValid
  owners := v.owners
  pins := v.pins
  lastIo := h.lastIo
  ready := v.ready
  audited := v.audited
  started := v.started
  committed := v.committed
  device := v.device
  medium := v.medium
  oracle := h.oracle
  clock := h.clock
  trace := v.trace

def World.vol (w : World) : Vol where
  geo := w.geo
  writable := w.writable
  faulted := w.faulted
  fat := w.fat
  owners := w.owners
  pins := w.pins
  ready := w.ready
  audited := w.audited
  started := w.started
  committed := w.committed
  device := w.device
  medium := w.medium
  trace := w.trace

/-- The hidden part of a world. -/
def World.hidden (w : World) : Hidden where
  mounted := w.mounted
  sector := w.sector
  cachedSector := w.cachedSector
  cacheValid := w.cacheValid
  lastIo := w.lastIo
  oracle := w.oracle
  clock := w.clock

/-- The volume after a completed sector write. -/
def Vol.write (v : Vol) (n : Nat) (data : Mem) : Vol :=
  { v with started := true, medium := setBlock v.medium n data, trace := v.trace ++ [.write n data] }

/-- The volume after a completed flush. -/
def Vol.flush (v : Vol) : Vol := { v with trace := v.trace ++ [.flush] }

/-- The device completes every request; memory may still run out. -/
def Healthy (w : World) : Prop := ∀ n, (w.oracle n).error = .ok ∧ (w.oracle n).completed = none

/-- A valid sector cache holds the medium's sector. -/
def Coherent (w : World) : Prop := w.cacheValid = true → w.sector = block w.medium w.cachedSector

/-- The device is healthy and the cache coherent. -/
def Good (w : World) : Prop := Healthy w ∧ Coherent w

section fields
variable {v : Vol} {h : Hidden}

@[simp] lemma mkWorld_geo : (mkWorld v h).geo = v.geo := rfl
@[simp] lemma mkWorld_writable : (mkWorld v h).writable = v.writable := rfl
@[simp] lemma mkWorld_faulted : (mkWorld v h).faulted = v.faulted := rfl
@[simp] lemma mkWorld_fat : (mkWorld v h).fat = v.fat := rfl
@[simp] lemma mkWorld_owners : (mkWorld v h).owners = v.owners := rfl
@[simp] lemma mkWorld_pins : (mkWorld v h).pins = v.pins := rfl
@[simp] lemma mkWorld_ready : (mkWorld v h).ready = v.ready := rfl
@[simp] lemma mkWorld_audited : (mkWorld v h).audited = v.audited := rfl
@[simp] lemma mkWorld_committed : (mkWorld v h).committed = v.committed := rfl
@[simp] lemma mkWorld_device : (mkWorld v h).device = v.device := rfl
@[simp] lemma mkWorld_medium : (mkWorld v h).medium = v.medium := rfl
@[simp] lemma mkWorld_sector : (mkWorld v h).sector = h.sector := rfl
@[simp] lemma mkWorld_vol : (mkWorld v h).vol = v := rfl

end fields

lemma Outcome.code_none {o : Outcome} {n : Nat} (he : o.error = .ok) (hc : o.completed = none) :
    o.code n = none := by
  simp [Outcome.code, he, hc, fsErrorFromBlock]

/-- Every run of `m` on the volume `v` over a healthy device ends in `Q`. -/
def Runs {α : Type} (v : Vol) (m : FatM α) (Q : Except FsError α → Vol → Prop) : Prop :=
  ∀ h, Good (mkWorld v h) → Good (m.run (mkWorld v h)).2 ∧
    Q (m.run (mkWorld v h)).1 (m.run (mkWorld v h)).2.vol

namespace Runs

variable {α β : Type} {v : Vol} {m : FatM α} {Q Q' : Except FsError α → Vol → Prop}

lemma apply (hr : Runs v m Q) {w : World} (hg : Good w) (hv : w.vol = v) :
    Good (m.run w).2 ∧ Q (m.run w).1 (m.run w).2.vol := by
  subst hv
  exact hr w.hidden hg

lemma conseq (hr : Runs v m Q') (hQ : ∀ r v', Q' r v' → Q r v') : Runs v m Q :=
  fun h hg => ⟨(hr h hg).1, hQ _ _ (hr h hg).2⟩

lemma pure {a : α} (h : Q (.ok a) v) : Runs v (Pure.pure a) Q := fun _ hg => ⟨hg, h⟩

lemma fail {e : FsError} (h : Q (.error e) v) : Runs v (Prog.fail e) Q := fun _ hg => ⟨hg, h⟩

lemma lift {r : Except FsError α} (h : Q r v) : Runs v (Prog.lift r) Q := fun _ hg => ⟨hg, h⟩

lemma attempt {Q : Except FsError (Except FsError α) → Vol → Prop}
    (h : Runs v m fun r v' => Q (.ok r) v') : Runs v (Prog.attempt m) Q := h

lemma bind {f : α → FatM β} {Q : Except FsError β → Vol → Prop} (hm : Runs v m fun r v' => match r with
      | .ok a => Runs v' (f a) Q
      | .error e => Q (.error e) v') : Runs v (m >>= f) Q := by
  intro h hg
  obtain ⟨hg', hq⟩ := hm h hg
  rw [bind_run]
  rcases hms : m.run (mkWorld v h) with ⟨r, w'⟩
  rw [hms] at hg' hq
  cases r with
  | ok a => exact hq w'.hidden hg'
  | error e => exact ⟨hg', hq⟩

lemma fail_bind {e : FsError} {f : α → FatM β} {Q : Except FsError β → Vol → Prop}
    (h : Q (.error e) v) : Runs v (Prog.fail e >>= f) Q :=
  bind (fail h)

lemma get_bind {f : World → FatM β} {Q : Except FsError β → Vol → Prop}
    (hf : ∀ h, Runs v (f (mkWorld v h)) Q) : Runs v (Prog.get >>= f) Q :=
  fun h hg => hf h h hg

lemma ite {c : Prop} [Decidable c] {n : FatM α} (ht : c → Runs v m Q) (hf : ¬c → Runs v n Q) :
    Runs v (if c then m else n) Q := by
  split
  · exact ht ‹_›
  · exact hf ‹_›

lemma modify (v' : Vol) {f : World → World} {Q : Except FsError Unit → Vol → Prop}
    (hf : ∀ h, ∃ h', f (mkWorld v h) = mkWorld v' h' ∧ h'.oracle = h.oracle ∧ h'.sector = h.sector ∧
      h'.cachedSector = h.cachedSector ∧ h'.cacheValid = h.cacheValid)
    (hm : v'.medium = v.medium) (hQ : Q (.ok ()) v') : Runs v (Prog.modify f) Q := by
  intro h hg
  obtain ⟨h', e, ho, hs, hc, hv⟩ := hf h
  rw [modify_run, e]
  refine ⟨⟨fun n => ?_, fun hvalid => ?_⟩, hQ⟩
  · have := hg.1 n
    rwa [show (mkWorld v' h').oracle = (mkWorld v h).oracle from ho]
  · have := hg.2 (by rw [← hvalid]; exact hv.symm)
    rw [show (mkWorld v' h').sector = (mkWorld v h).sector from hs, this,
      show (mkWorld v' h').medium = (mkWorld v h).medium from hm,
      show (mkWorld v' h').cachedSector = (mkWorld v h).cachedSector from hc]

lemma kmalloc {Q : Except FsError Bool → Vol → Prop} (hQ : ∀ b, Q (.ok b) v) : Runs v Fat16.kmalloc Q :=
  fun _ hg => ⟨⟨hg.1, hg.2⟩, hQ _⟩

end Runs

/-! ## The device requests -/

section requests
variable {α : Type} {v : Vol} {n : Nat}

lemma fat16Sector_run {h : Hidden} (hn : n < v.geo.sectors) (hg : Good (mkWorld v h)) :
    ∃ h', (fat16Sector n).run (mkWorld v h) = (.ok (), mkWorld v h') ∧ Good (mkWorld v h') ∧
      h'.sector = block v.medium n := by
  by_cases hc : h.cacheValid = true ∧ n = h.cachedSector
  · refine ⟨h, ?_, hg, ?_⟩
    · simp only [fat16Sector, bind_run, get_run]
      simp [mkWorld, hc]
    · rw [hc.2]
      exact hg.2 hc.1
  · have ho := hg.1 h.clock
    have hcode : (h.oracle h.clock).code 1 = none := Outcome.code_none ho.1 ho.2
    have hr : ¬(n ≥ v.geo.sectors ∨ 1 > v.geo.sectors - n) := by omega
    refine ⟨{ h with
      sector := block v.medium n, cachedSector := n, cacheValid := true
      lastIo := (h.oracle h.clock).ioResult 1, clock := h.clock + 1 }, ?_, ⟨hg.1, fun _ => rfl⟩, rfl⟩
    have hc' : ¬((mkWorld v h).cacheValid = true ∧ n = (mkWorld v h).cachedSector) := hc
    simp only [fat16Sector, readSectors, bind_run, get_run, hc', if_false, modify_run, mkWorld_geo, hr]
    simp [nextOutcome, mkWorld, hcode, block]

lemma fat16Sector_get {f : World → FatM α} {Q : Except FsError α → Vol → Prop} (hn : n < v.geo.sectors)
    (hf : ∀ h, h.sector = block v.medium n → Runs v (f (mkWorld v h)) Q) :
    Runs v (fat16Sector n >>= fun _ => get >>= f) Q := by
  intro h hg
  obtain ⟨h', e, hg', hs⟩ := fat16Sector_run hn hg
  rw [bind_run_ok e, bind_run, get_run]
  exact hf h' hs h' hg'

lemma flushDevice_runs {Q : Except FsError Unit → Vol → Prop} (hQ : Q (.ok ()) v.flush) : Runs v flushDevice Q := by
  intro h hg
  have ho := hg.1 h.clock
  have hcode : (h.oracle h.clock).code 0 = none := Outcome.code_none ho.1 ho.2
  have e : flushDevice.run (mkWorld v h) = (.ok (), mkWorld v.flush
      { h with lastIo := (h.oracle h.clock).ioResult 0, clock := h.clock + 1 }) := by
    simp only [flushDevice, bind_run, nextOutcome, modify_run]
    simp [mkWorld, hcode, Vol.flush]
  rw [e]
  exact ⟨⟨hg.1, hg.2⟩, hQ⟩

lemma writeSector_runs {data : Mem} {Q : Except FsError Unit → Vol → Prop} (hlo : v.geo.fatStart ≤ n)
    (hn : n < v.geo.sectors) (hro : v.device.readOnly = false)
    (hQ : Q (.ok ()) (v.write n data)) : Runs v (writeSector n data) Q := by
  intro h hg
  have ho := hg.1 h.clock
  have hcode : (h.oracle h.clock).code 1 = none := Outcome.code_none ho.1 ho.2
  have hr : ¬(n < v.geo.fatStart ∨ n ≥ v.geo.sectors) := by omega
  have e : (writeSector n data).run (mkWorld v h) = (.ok (), mkWorld (v.write n data)
      { h with cacheValid := false, lastIo := (h.oracle h.clock).ioResult 1, clock := h.clock + 1 }) := by
    simp only [writeSector, bind_run, get_run, mkWorld_geo, mkWorld_device, hro, hr]
    simp [nextOutcome, modify_run, bind_run, mkWorld, hcode, Vol.write]
  rw [e]
  exact ⟨⟨hg.1, fun hv => by simp [mkWorld] at hv⟩, hQ⟩

lemma finish_runs {m : FatM α} {Q : Except FsError α → Vol → Prop} (hm : Runs v m fun r v' => (match r with
      | .ok _ => Q r v'
      | .error _ => v'.started = false ∧ Q r v')) : Runs v (finish m) Q := by
  intro h hg
  obtain ⟨hg', hq⟩ := hm h hg
  rcases hms : m.run (mkWorld v h) with ⟨r, w'⟩
  rw [hms] at hg' hq
  have e : (finish m).run (mkWorld v h) = (r, w') := by
    cases r with
    | ok a => simp [finish, hms]
    | error e =>
      have hs : w'.started = false := hq.1
      simp [finish, hms, hs]
  rw [e]
  cases r with
  | ok a => exact ⟨hg', hq⟩
  | error e => exact ⟨hg', hq.2⟩

end requests

end RumKernel.Fat16
