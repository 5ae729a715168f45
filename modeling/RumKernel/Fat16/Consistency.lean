import RumKernel.Fat16.Operations

/-!
# Consistency over whole runs

A volume is consistent when the two table copies and the cached table are equal and the tree of live
entries is well formed. Every mutation that succeeds on a healthy device keeps a consistent volume
consistent and leaks no cluster, and so does every run of them.
-/

namespace RumKernel.Fat16
open Lib Fs Prog

variable {v v' : Vol} {d id : Nat} {new grow old pre post : List Nat} {name : Name} {p : Plan}
variable {x : Image}

/-- A call of one of the five mutations of the backend. -/
inductive Mutation where
  | replace (parent : Nat) (name : Name) (data : List Byte)
  | write (id offset : Nat) (data : List Byte)
  | truncate (id size : Nat)
  | mkdir (parent : Nat) (name : Name)
  | remove (parent : Nat) (name : Name)

variable {op : Mutation}

namespace Mutation

/-- The call; `fat16_write_file` returns its error code inside a result record. -/
def run : Mutation → FatM Unit
  | replace parent name data => replaceFile parent name data
  | write id offset data => do
    let r ← writeFile id offset data
    match r.error with
    | none => return ()
    | some e => fail e
  | truncate id size => truncateFile id size
  | mkdir parent name => mkdirNode parent name
  | remove parent name => removeNode parent name

/-- `fat16_write_file` fails as its body does. -/
lemma write_run {offset : Nat} {data : List Byte} {w : World} : (run (.write id offset data)).run w =
    (writeBody id offset data).run { w with lastIo := {}, committed := false } := by
  simp only [run, writeFile, bind_run, modify_run, attempt_run, get_run, pure_run]
  rcases (writeBody id offset data).run _ with ⟨- | -, u⟩ <;> rfl

/-- What the namespace layer promises: the identifier is that of the root or of a live entry, and a name for
a new entry has passed `fs_name_check`. -/
def Legal (x : Image) : Mutation → Prop
  | replace parent name _ => IsObject x parent ∧ fsNameCheck name = .ok ()
  | write id _ _ => IsObject x id
  | truncate id _ => IsObject x id
  | mkdir parent name => IsObject x parent ∧ fsNameCheck name = .ok ()
  | remove parent _ => IsObject x parent

/-- What a call that returned `FS_OK` has done. -/
inductive Result (v : Vol) : Mutation → Vol → Prop where
  | replace {parent name data t d old p pre post new grow v'} :
    Replaced v parent name data t d old p pre post new grow v' → Result v (.replace parent name data) v'
  | write {id offset data e d cs p pre post new grow v'} : offset ≤ entrySize e →
    Written v id (max (offset + data.length) (entrySize e)) offset data e d cs p pre post new grow v' →
    Result v (.write id offset data) v'
  | truncate {id size e d cs p pre post new grow v'} :
    Written v id size 0 [] e d cs p pre post new grow v' → Result v (.truncate id size) v'
  | same {id size e d v'} : v.image.forest.Obj d id e → entryKind e = .file → size = entrySize e → Flags v v' →
    Result v (.truncate id size) v'
  | mkdir {parent name t d n p pre post grow v'} : MadeIn v parent name t d n p pre post grow v' →
    Result v (.mkdir parent name) v'
  | remove {parent name t d p pre post old v'} : RemovedFrom v parent name t d p pre post old v' →
    Result v (.remove parent name) v'

lemma write_runs {Q : Except FsError Unit → Vol → Prop} {offset : Nat} {data : List Byte} (hs : v.image.Sound)
    (hid : IsObject v.image id) (herr : ∀ r v', Flags v v' → Q (.error r) v')
    (hok : ∀ v', Result v (.write id offset data) v' → Q (.ok ()) v') :
    Runs v (Mutation.run (.write id offset data)) Q := by
  have hflags : Flags v { v with committed := false } := ⟨_, _, _, _, rfl⟩
  unfold Mutation.run writeFile
  refine Runs.bind (Runs.bind (Runs.modify { v with committed := false } ?_ rfl (Runs.bind (Runs.attempt
    (writeBody_runs (v := { v with committed := false }) hs hid ?_ ?_)))))
  · exact fun h => ⟨{ h with lastIo := {} }, rfl, rfl, rfl, rfl, rfl⟩
  · exact fun r v' hf => Runs.get_bind fun h => Runs.pure (Runs.fail (herr r v' (hflags.trans hf)))
  · intro e d cs p pre post new grow v' hle hw
    exact Runs.get_bind fun h => Runs.pure (Runs.pure (hok v' (.write hle
      ⟨hw.obj, hw.holds, hw.kind, hw.rewritten.of_flags hflags⟩)))

/-- **Every mutation**, from a sound volume, fails without a trace or returns with its result. -/
theorem runs (op : Mutation) (hs : v.image.Sound) (hl : op.Legal v.image) : Runs v op.run fun r v' => match r with
      | .ok _ => Result v op v'
      | .error _ => Flags v v' := by
  cases op with
  | replace parent name data =>
    exact replaceFile_runs hs hl.1 hl.2 (fun _ _ h => h) fun t d old p pre post new grow v' h => .replace h
  | write id offset data => exact write_runs hs hl (fun _ _ h => h) fun v' h => h
  | truncate id size =>
    exact truncateFile_runs hs hl (fun _ _ h => h) (fun e d v' ho hk he hf => .same ho hk he hf)
      fun e d cs p pre post new grow v' h => .truncate h
  | mkdir parent name =>
    exact mkdirNode_runs hs hl.1 hl.2 (fun _ _ h => h) fun t d n p pre post grow v' h => .mkdir h
  | remove parent name =>
    exact removeNode_runs hs hl (fun _ _ h => h) fun t d p pre post old v' h => .remove h

lemma Result.done (h : Result v op v') :
    Flags v v' ∨ ∃ p d pre post new grow old, Done v p d pre post new grow old v' := by
  cases h with
  | replace h | write _ h | truncate h => exact .inr ⟨_, _, _, _, _, _, _, h.rewritten.toDone⟩
  | same _ _ _ h => exact .inl h
  | mkdir h => exact .inr ⟨_, _, _, _, _, _, _, h.made.toDone⟩
  | remove h => exact .inr ⟨_, _, _, _, _, _, _, h.removed.toDone⟩

end Mutation

/-- The volume is consistent: the table copies are equal to the cached table, and every live entry owns a
proper chain of its own. -/
structure Consistent (v : Vol) : Prop where
  synced : Synced v
  sound : v.image.Sound

lemma Done.consistent (h : Done v p d pre post new grow old v') (hs : Synced v) :
    Consistent v' ∧ ∀ c, v'.image.Lost c ↔ v.image.Lost c := by
  obtain ⟨wc, wp, hp⟩ := h.performed
  obtain ⟨hs', ha⟩ := Plan.Performed.agree_final h.valid hp hs
  refine ⟨⟨hs', ha.sound h.valid.sound'⟩, fun c => ?_⟩
  rw [← h.valid.lost]
  unfold Image.Lost
  rw [ha.owned h.valid.sound', show v'.image.geo = v.geo from hp.geo, Plan.final_geo]
  refine and_congr_right fun h2 => and_congr_right fun hle => and_congr_left fun _ => ?_
  rw [show nextCluster v'.image.fat c = nextCluster p.fat2 c from nextCluster_copy hp.fat hle]
  rfl

lemma Flags.consistent (h : Flags v v') (hc : Consistent v) :
    Consistent v' ∧ ∀ c, v'.image.Lost c ↔ v.image.Lost c := by
  refine ⟨⟨?_, h.image ▸ hc.sound⟩, fun c => by rw [h.image]⟩
  have hs := hc.synced
  obtain ⟨s, b, o, a, rfl⟩ := h
  exact hs

lemma Mutation.Result.consistent (h : Mutation.Result v op v') (hc : Consistent v) :
    Consistent v' ∧ ∀ c, v'.image.Lost c ↔ v.image.Lost c := by
  rcases h.done with hf | ⟨p, d, pre, post, new, grow, old, hd⟩
  · exact hf.consistent hc
  · exact hd.consistent hc.synced

/-- A run of calls that all return `FS_OK`. -/
inductive Calls : World → List Mutation → World → Prop where
  | nil {w} : Calls w [] w
  | cons {w w1 w' op ops} : op.Legal w.vol.image → op.run.run w = (.ok (), w1) → Calls w1 ops w' →
    Calls w (op :: ops) w'

/-- **Consistency is an invariant** of every run of successful mutations on a healthy device, and the
clusters that are allocated without an owner stay the same. -/
theorem consistent_of_calls {w w' : World} {ops : List Mutation} (hr : Calls w ops w') (hg : Good w)
    (hc : Consistent w.vol) : Consistent w'.vol ∧ ∀ c, w'.vol.image.Lost c ↔ w.vol.image.Lost c := by
  induction hr with
  | nil => exact ⟨hc, fun _ => Iff.rfl⟩
  | @cons w w1 w' op ops hl hrun _ ih =>
    obtain ⟨hg1, hres⟩ := (op.runs hc.sound hl).apply hg rfl
    rw [hrun] at hg1 hres
    obtain ⟨hc1, hlost⟩ := Mutation.Result.consistent hres hc
    obtain ⟨hc', hlost'⟩ := ih hg1 hc1
    exact ⟨hc', fun c => (hlost' c).trans (hlost c)⟩

/-- The volume after a call. -/
def Mutation.next (op : Mutation) (w : World) : World := (op.run.run w).2

lemma Mutation.run_eq (op : Mutation) {w : World} {r : Except FsError Unit} (h : (op.run.run w).1 = r) :
    op.run.run w = (r, op.next w) := by
  rw [← h]
  rfl

/-! ## A small volume -/

/-- The smallest FAT16 layout: 4085 clusters of one sector and a root directory of one sector. -/
def smallGeometry : Geometry where
  sectors := 4119
  clusters := 4085
  clusterBytes := 512
  fatStart := 1
  fatSectors := 16
  rootStart := 33
  rootEntries := 16
  dataStart := 34
  clusters_ge := by decide
  clusters_le := by decide
  clusterBytes_mod := by decide
  clusterBytes_ge := by decide
  clusterBytes_le := by decide
  fatStart_pos := by decide
  fatSectors_pos := by decide
  fatSectors_le := by decide
  rootStart_eq := by decide
  rootEntries_pos := by decide
  rootEntries_lt := by decide
  rootEntries_mod := by decide
  dataStart_eq := by decide
  data_end := by decide
  sectors_lt := by decide
  fat_capacity := by decide

/-- A writable mount of a medium with that layout on a device that completes every request. -/
def smallWorld (fat medium : Mem) : World where
  geo := smallGeometry
  mounted := true
  writable := true
  faulted := false
  fat := fat
  sector := fun _ => 0
  cachedSector := 0
  cacheValid := false
  owners := fun _ => false
  pins := fun _ => {}
  lastIo := {}
  ready := true
  audited := false
  started := false
  committed := false
  device :=
    { online := true, readOnly := false, sectorSize := 512, sectorCount := 4119, canWrite := true, canFlush := true }
  medium := medium
  oracle := fun _ => {}
  clock := 0
  trace := []

lemma smallWorld_good {fat medium : Mem} : Good (smallWorld fat medium) :=
  ⟨fun _ => ⟨rfl, rfl⟩, fun h => by cases h⟩

lemma Image.sound_of_files (hk : ∀ y ∈ x.live 0, entryKind y.2 = .file) (hh : ∀ y ∈ x.live 0, ∃ cs, x.Holds y.2 cs)
    (hd : ∀ y ∈ x.live 0, ∀ z ∈ x.live 0, y.1 ≠ z.1 → ∀ cs ds, x.Holds y.2 cs → x.Holds z.2 ds → cs.Disjoint ds) :
    x.Sound := by
  have hreach : ∀ d, x.forest.Reach d → d = 0 := by
    intro d hr
    induction hr with
    | root => rfl
    | sub _ hm hsub ih =>
      rw [ih] at hm
      obtain ⟨h1, -⟩ := Image.subdirectory_eq_some.mp hsub
      exact absurd ((hk _ hm).symm.trans h1) (by decide)
  have hobj : ∀ {d s e}, x.forest.Obj d s e → (s, e) ∈ x.live 0 := by
    rintro d s e ⟨hr, hm⟩
    rwa [hreach d hr] at hm
  refine ⟨fun ho => hh _ (hobj ho), fun ho h1 => ?_, fun ho ho' hne h1 h2 => hd _ (hobj ho) _ (hobj ho') hne _ _ h1 h2⟩
  exact absurd ((hk _ (hobj ho)).symm.trans h1) (by decide)

/-- The blank volume. -/
def blank : World := smallWorld (fun _ => 0) fun _ => 0

/-- The blank volume on a device that completes its first six requests and no other. -/
def brokenWorld : World := { blank with oracle := fun n => { error := if n < 6 then .ok else .ioError } }

/-- The directory `A` is made in the root. -/
def makeA : Mutation := .mkdir rootId [65]

/-- The bytes of a file of two clusters. -/
def bytesB : List Byte := List.replicate 600 7

/-- The file `B` is written. -/
def writeB : Mutation := .replace rootId [66] bytesB

/-- The directory `A` is removed again. -/
def removeA : Mutation := .remove rootId [65]

/-- The volume with the directory. -/
def madeA : World := makeA.next blank

/-- The volume with the directory and the file. -/
def wroteB : World := writeB.next madeA

set_option maxRecDepth 100000 in
/-- The root is empty and has a slot 530, and the calls succeed. Making the directory takes four writes, each of them
flushed, and writing the file begins with two writes. On the broken device the first call stops after three writes. -/
lemma blank_facts : (blank.vol.image.live 0).length = 0 ∧ 530 ∈ blank.vol.image.slots 0 ∧
    ((makeA.run.run blank).1 = .ok () ∧ (removeA.run.run madeA).1 = .ok () ∧ (writeB.run.run blank).1 = .ok () ∧
      (writeB.run.run blank).2.trace.map Request.isFlush =
        [false, false, true, false, true, false, true, false, true]) ∧
    (madeA.vol.image.live 0).map Prod.fst = [530] ∧
    (madeA.trace.length = 8 ∧ wroteB.trace.map Request.isFlush = [false, true, false, true, false, true, false, true,
      false, false, true, false, true, false, true, false, true]) ∧
    (makeA.run.run brokenWorld).1 = .error .ioError ∧ (makeA.next brokenWorld).faulted = true ∧
    (makeA.next brokenWorld).ready = true ∧ (writesOf (makeA.next brokenWorld).trace).length = 3 := by
  decide +kernel

lemma blank_good : Good blank := smallWorld_good

lemma blank_consistent : Consistent blank.vol where
  synced := ⟨fun _ _ => rfl, fun _ _ => rfl⟩
  sound := by
    have h : blank.vol.image.live 0 = [] := List.eq_nil_of_length_eq_zero blank_facts.1
    refine Image.sound_of_files ?_ ?_ ?_ <;> simp [h]

lemma legal_makeA : makeA.Legal x := ⟨.inl rfl, by decide⟩

lemma legal_writeB : writeB.Legal x := ⟨.inl rfl, by decide⟩

/-- A directory is made and removed. -/
theorem consistent_of_calls_small : Consistent (removeA.next madeA).vol ∧
    ∀ c, (removeA.next madeA).vol.image.Lost c ↔ blank.vol.image.Lost c :=
  have hcalls : Calls blank [makeA, removeA] (removeA.next madeA) :=
    .cons legal_makeA (makeA.run_eq blank_facts.2.2.1.1) (.cons (.inl rfl) (removeA.run_eq blank_facts.2.2.1.2.1) .nil)
  consistent_of_calls hcalls blank_good blank_consistent

end RumKernel.Fat16
