import RumKernel.Fat16.Refinement

/-!
# Interrupted mutations

Sector writes are atomic and a completed flush makes every earlier write durable. An image that survives a
crash during a mutation then reads, through at least one of its two tables, as the tree before the mutation
or as the tree after it.
-/

namespace RumKernel.Fat16
open Lib Fs Prog

variable {v v' : Vol} {p : Plan} {d : Nat} {pre post new grow old : List Nat} {z : Mem} {l : List Request}

/-- The image a medium holds, read through copy `k` of the table. -/
def imageOf (g : Geometry) (m : Mem) (k : Nat) : Image := ⟨g, diskFat g m k, m⟩

lemma Image.Agree.reads {x y : Image} (h : Image.Agree x y) (hs : x.Sound) : y.Sound ∧ y.tree = x.tree :=
  ⟨h.sound hs, (h.quiet hs).tree⟩

lemma Done.crash (h : Done v p d pre post new grow old v') (hc : Consistent v) (hl : v'.trace = v.trace ++ l)
    (hz : Survives v.medium l z) : ∃ k < 2, (imageOf v.geo z k).Sound ∧
      ((imageOf v.geo z k).tree = v.image.tree ∨ (imageOf v.geo z k).tree = (p.published v.image).tree) := by
  obtain ⟨wc, wp, hp⟩ := h.performed
  obtain ⟨k, hk, y, hy, ha⟩ := Plan.Performed.crash h.valid hp hc.synced hl hz
  have hv := h.valid
  have hstage : y.Sound ∧ (y.tree = v.image.tree ∨ y.tree = (p.published v.image).tree) := by
    simp only [List.mem_cons, List.not_mem_nil, or_false] at hy
    rcases hy with rfl | rfl | rfl | rfl | rfl
    · exact ⟨hc.sound, .inl rfl⟩
    · exact ⟨hv.prepared.sound, .inl hv.prepared.tree⟩
    · exact ⟨hv.quiet.sound, .inl hv.quiet.tree⟩
    · exact ⟨hv.put.sound', .inr rfl⟩
    · exact ⟨hv.sound', .inr hv.tree_final⟩
  obtain ⟨hs, ht⟩ := ha.reads hstage.1
  exact ⟨k, hk, hs, hstage.2.imp ht.trans ht.trans⟩

lemma Consistent.reads (hc : Consistent v) :
    (imageOf v.geo v.medium 0).Sound ∧ (imageOf v.geo v.medium 0).tree = v.image.tree := by
  have ha : Image.Agree v.image (imageOf v.geo v.medium 0) := by
    refine ⟨rfl, fun _ _ _ => rfl, fun _ _ _ _ _ => rfl, fun c ho => ?_⟩
    have hv := validCluster_range (Image.Owned.valid ho)
    exact nextCluster_diskFat hc.synced.1 (Nat.le_of_lt_succ hv.2.2)
  exact ha.reads hc.sound

/-- **Crash safety.** Whatever subset of the unflushed writes survives an interrupted mutation, one of the two
tables gives a sound image with the tree before the mutation or the tree after it. -/
theorem crash_old_or_new {w : World} {op : Mutation} (hg : Good w) (hc : Consistent w.vol)
    (hl : op.Legal w.vol.image) (hu : op.Canonical) (hd : op.Distinct w.vol.image)
    (htrace : (op.run.run w).2.trace = w.trace ++ l) (hz : Survives w.medium l z) :
    ∃ k < 2, (imageOf w.geo z k).Sound ∧ ((imageOf w.geo z k).tree = w.vol.image.tree ∨
      op.Effect w.vol.image (imageOf w.geo z k).tree) := by
  have hres := ((op.runs hc.sound hl).apply hg rfl).2
  -- a call that changed nothing issued no request
  have hnone : Flags w.vol (op.run.run w).2.vol → ∃ k < 2, (imageOf w.geo z k).Sound ∧
      ((imageOf w.geo z k).tree = w.vol.image.tree ∨ op.Effect w.vol.image (imageOf w.geo z k).tree) := by
    rintro ⟨s, c, o, a, hf⟩
    have ht : (op.run.run w).2.trace = w.trace := congrArg Vol.trace hf
    rw [ht] at htrace
    obtain rfl : l = [] := by simpa using htrace
    obtain rfl := hz.nil .nil
    obtain ⟨hs, htree⟩ := hc.reads
    exact ⟨0, by omega, hs, .inl htree⟩
  cases hr : (op.run.run w).1 with
  | error e =>
    rw [hr] at hres
    exact hnone hres
  | ok u =>
    rw [hr] at hres
    rcases Mutation.Result.effect hres hc.sound hl hu hd with ⟨hf, -⟩ | ⟨p, d, pre, post, new, grow, old, hdone, he⟩
    · exact hnone hf
    · obtain ⟨k, hk, hs, ht⟩ := hdone.crash hc htrace hz
      refine ⟨k, hk, hs, ht.imp_right fun ht => ?_⟩
      show op.Effect _ (imageOf w.vol.geo z k).tree
      rwa [ht]

/-- The device stops behind the two writes of data of a call, and only the second one has arrived. -/
theorem crash_old_or_new_replace :
    let l := (writeB.run.run blank).2.trace
    let z := applyWrites blank.medium ((writesOf (l.take 2)).drop 1)
    l.map Request.isFlush = [false, false, true, false, true, false, true, false, true] ∧
    ∃ k < 2, (imageOf blank.geo z k).Sound ∧ ((imageOf blank.geo z k).tree = blank.vol.image.tree ∨
      writeB.Effect blank.vol.image (imageOf blank.geo z k).tree) := by
  have hflags := blank_facts.2.2.1.2.2.2
  have hcut := @remains_cut blank.medium _ _ _ 0 2 hflags (by decide) (by decide) (List.drop_sublist 1 _)
  have hz := @Remains.survives _ ((writeB.run.run blank).2.trace.drop (0 + 2)) _ _ hcut
  rw [List.take_append_drop, List.take_zero, writesOf, List.nil_append, List.drop_zero] at hz
  have htrace : (writeB.run.run blank).2.trace = blank.trace ++ (writeB.run.run blank).2.trace := by
    rw [show blank.trace = [] from rfl, List.nil_append]
  exact ⟨hflags, crash_old_or_new blank_good blank_consistent legal_writeB (show [66].map upper = [66] by decide)
    trivial htrace hz⟩

/-! ## Two entries of one name -/

def endsFlushed (l : List Request) : Bool :=
  match l.getLast? with
  | some .flush => true
  | _ => false

lemma survives_flushed {m : Mem} (h : endsFlushed l = true) : Survives m l (applyWrites m (writesOf l)) := by
  rcases List.eq_nil_or_concat l with rfl | ⟨d, r, rfl⟩
  · cases h
  · rw [List.concat_eq_append] at h ⊢
    cases r with
    | write n data => simp [endsFlushed] at h
    | flush => exact ⟨d ++ [.flush], [], [], [], by simp, .inr ⟨d, rfl⟩, by simp, .slnil, by simp⟩

/-- The requests of a removal of the first of two entries called `A`. -/
def twinLog : List Request := (removeA.run.run twinWorld).2.trace

set_option maxRecDepth 100000 in
lemma twin_log : endsFlushed twinLog = true ∧
    ∀ k < 2, (imageOf smallGeometry (applyWrites twinMedium (writesOf twinLog)) k).tree [[65]] = some (.file [0]) := by
  decide +kernel

theorem crash_shows_twin : Consistent twinWorld.vol ∧ Good twinWorld ∧
    Survives twinMedium twinLog (applyWrites twinMedium (writesOf twinLog)) ∧
    ∀ k < 2, (imageOf smallGeometry (applyWrites twinMedium (writesOf twinLog)) k).tree [[65]] = some (.file [0]) ∧
      (imageOf smallGeometry (applyWrites twinMedium (writesOf twinLog)) k).tree ≠ twinWorld.vol.image.tree ∧
      ¬removeA.Effect twinWorld.vol.image
        (imageOf smallGeometry (applyWrites twinMedium (writesOf twinLog)) k).tree := by
  obtain ⟨hend, hnew⟩ := twin_log
  refine ⟨twin_consistent, smallWorld_good, survives_flushed hend, fun k hk => ⟨hnew k hk, ?_, ?_⟩⟩
  · intro he
    have h := hnew k hk
    rw [he, twin_facts.2.2.2.2.1] at h
    cases h
  · intro he
    have h := hnew k hk
    rw [he.2.named [] rfl] at h
    cases h

end RumKernel.Fat16
