import RumKernel.Fat16.Crash

/-!
# Crashes in a history

A caller makes mutations one after the other, and some of them fail. Each one ends flushed, so a crash in the whole
history is a crash in one of its mutations, and every mutation that returned before is on the disk.
-/

namespace RumKernel.Fat16
open Lib Fs Prog

variable {w : World} {ops pre post : List Mutation} {op : Mutation} {z : Mem} {l : List Request}

/-- The volume after a history of calls. -/
def after (w : World) (ops : List Mutation) : World := ops.foldl (fun w op => op.next w) w

/-- Each call of the history is legal where it is made. -/
def Lawful : World → List Mutation → Prop
  | _, [] => True
  | w, op :: ops => op.Legal w.vol.image ∧ Lawful (op.next w) ops

/-- The medium reads, through one of its two tables, as a sound image with the tree `t`. -/
def Reads (g : Geometry) (z : Mem) (t : Tree) : Prop := ∃ k < 2, (imageOf g z k).Sound ∧ (imageOf g z k).tree = t

/-- What a call does to the disk, and what a crash in it leaves. -/
structure Step (w w' : World) (l : List Request) (ps : List (List Write)) : Prop where
  good : Good w'
  consistent : Consistent w'.vol
  geo : w'.geo = w.geo
  trace : w'.trace = w.trace ++ l
  phased : Phased ps l
  medium : w'.medium = applyWrites w.medium ps.flatten
  crash : ∀ z, Survives w.medium l z → Reads w.geo z w.vol.image.tree ∨ Reads w.geo z w'.vol.image.tree

lemma Consistent.shows (hc : Consistent w.vol) : Reads w.geo w.medium w.vol.image.tree := ⟨0, by omega, hc.reads⟩

section
variable (hg : Good w) (hc : Consistent w.vol)
include hg hc

lemma Mutation.step (hl : op.Legal w.vol.image) : ∃ l ps, Step w (op.next w) l ps := by
  unfold Mutation.next
  obtain ⟨hg', hres⟩ := (op.runs hc.sound hl).apply hg rfl
  generalize (op.run.run w).2 = w' at hg' hres ⊢
  have hflags : Flags w.vol w'.vol → ∃ l ps, Step w w' l ps := fun hf => by
    have hc' := (hf.consistent hc).1
    obtain ⟨s, c, o, a, hv⟩ := hf
    refine ⟨[], [], hg', hc', congrArg Vol.geo hv, (congrArg Vol.trace hv).trans (List.append_nil _).symm, .nil,
      congrArg Vol.medium hv, fun z hz => .inl ?_⟩
    rw [hz.nil .nil]
    exact hc.shows
  cases hr : (op.run.run w).1 with
  | error e =>
    rw [hr] at hres
    exact hflags hres
  | ok u =>
    rw [hr] at hres
    rcases Mutation.Result.done hres with hf | ⟨p, d, pre, post, new, grow, old, hdone⟩
    · exact hflags hf
    · obtain ⟨wc, wp, hp⟩ := hdone.performed
      obtain ⟨l, ht, hph⟩ := hp.did.trace
      refine ⟨l, _, hg', (hdone.consistent hc.synced).1, hp.geo, ht, hph, hp.did.medium, fun z hz => ?_⟩
      obtain ⟨k, hk, hs, h⟩ := hdone.crash hc ht hz
      rw [← hdone.tree hc.synced] at h
      exact h.imp (fun h => ⟨k, hk, hs, h⟩) fun h => ⟨k, hk, hs, h⟩

/-- The volume after a history is good, and what the history wrote is in phases that are all flushed. -/
lemma after_good (hl : Lawful w (pre ++ post)) :
    Good (after w pre) ∧ Consistent (after w pre).vol ∧ Lawful (after w pre) post ∧ (after w pre).geo = w.geo ∧
      ∃ l ps, (after w pre).trace = w.trace ++ l ∧ Phased ps l ∧
        (after w pre).medium = applyWrites w.medium ps.flatten := by
  induction pre generalizing w with
  | nil => exact ⟨hg, hc, hl, rfl, [], [], (List.append_nil _).symm, .nil, rfl⟩
  | cons op pre ih =>
    obtain ⟨l, ps, hstep⟩ := Mutation.step hg hc hl.1
    obtain ⟨h1, h2, h3, h4, l', ps', ht, hph, hm⟩ := ih hstep.good hstep.consistent hl.2
    refine ⟨h1, h2, h3, h4.trans hstep.geo, l ++ l', ps ++ ps', ?_, hstep.phased.append hph, ?_⟩
    · rw [← List.append_assoc, ← hstep.trace]
      exact ht
    · rw [List.flatten_append, applyWrites_append, ← hstep.medium]
      exact hm

lemma crash_after (hl : Lawful w ops) : ∃ l, (after w ops).trace = w.trace ++ l ∧
      ∀ z, Survives w.medium l z → ∃ done, done <+: ops ∧ Reads w.geo z (after w done).vol.image.tree := by
  induction ops generalizing w with
  | nil =>
    refine ⟨[], (List.append_nil _).symm, fun z hz => ⟨[], List.prefix_rfl, ?_⟩⟩
    rw [hz.nil .nil]
    exact hc.shows
  | cons op ops ih =>
    obtain ⟨l, ps, hstep⟩ := Mutation.step hg hc hl.1
    obtain ⟨l', ht, hrest⟩ := ih hstep.good hstep.consistent hl.2
    refine ⟨l ++ l', ?_, fun z hz => ?_⟩
    · rw [← List.append_assoc, ← hstep.trace]
      exact ht
    rcases hz.append hstep.phased with hz | hz
    · rcases hstep.crash z hz with h | h
      · exact ⟨[], List.nil_prefix, h⟩
      · exact ⟨[op], ⟨ops, rfl⟩, h⟩
    · rw [← hstep.medium] at hz
      obtain ⟨done, hdone, h⟩ := hrest z hz
      rw [hstep.geo] at h
      exact ⟨op :: done, List.cons_prefix_cons.mpr ⟨rfl, hdone⟩, h⟩

end

/-- **A crash shows a moment of the history.** In every history of legal calls on a healthy device, failing or not, the
device stops behind some requests `l`, among them all those of the calls of `pre`. Whatever part of the unflushed writes
remains, the medium reads as the tree after `pre` and some of the next calls: what has returned is kept, calls take
effect in their order, and none takes effect in part. -/
theorem crash_shows_history {rest : List Request} (hg : Good w) (hc : Consistent w.vol) (hl : Lawful w (pre ++ post))
    (ht : (after w (pre ++ post)).trace = w.trace ++ l ++ rest) (hi : (after w pre).trace <+: w.trace ++ l)
    (hz : Remains w.medium l z) : ∃ done, done <+: post ∧ Reads w.geo z (after w (pre ++ done)).vol.image.tree := by
  obtain ⟨hg', hc', hl', hgeo, l1, ps, htrace, hph, hmedium⟩ := after_good hg hc hl
  obtain ⟨l', ht', hcrash⟩ := crash_after hg' hc' hl'
  have happend : ∀ done, after w (pre ++ done) = after (after w pre) done := fun done => List.foldl_append
  -- the log begins with the requests of `pre`
  rw [htrace, List.prefix_append_right_inj] at hi
  obtain ⟨l2, rfl⟩ := hi
  rw [happend, ht', htrace, List.append_assoc, List.append_assoc, List.append_assoc] at ht
  obtain rfl := List.append_cancel_left (List.append_cancel_left ht)
  have hrest := hz.append hph
  rw [← hmedium] at hrest
  obtain ⟨done, hdone, h⟩ := hcrash z hrest.survives
  rw [hgeo, ← happend] at h
  exact ⟨done, hdone, h⟩

lemma after_singleton : after w [op] = op.next w := rfl

lemma after_makeA : after blank [makeA] = madeA := by rw [after_singleton, madeA]

lemma after_writeB : after blank ([makeA] ++ [writeB]) = wroteB := by
  rw [after, List.foldl_append, ← after, ← after, after_makeA, after_singleton, wroteB]

lemma lawful_small : Lawful blank ([makeA] ++ [writeB]) := ⟨legal_makeA, legal_writeB, trivial⟩

/-- The requests of the first call come first. -/
lemma madeA_first : madeA.trace <+: wroteB.trace := by
  obtain ⟨hg, hc, hl, -⟩ := after_good blank_good blank_consistent lawful_small
  obtain ⟨l, ps, hstep⟩ := Mutation.step hg hc hl.1
  have hlog := hstep.trace
  rw [after_makeA, ← wroteB] at hlog
  exact ⟨l, hlog.symm⟩

/-- The directory has been made, and the device stops while the file is written: of its two sectors of data only the
second one has arrived. -/
theorem crash_shows_history_replace :
    let z := applyWrites blank.medium
      (writesOf (wroteB.trace.take 8) ++ (writesOf ((wroteB.trace.drop 8).take 2)).drop 1)
    ∃ done, done <+: [writeB] ∧ Reads blank.geo z (after blank ([makeA] ++ done)).vol.image.tree := by
  have hcut := @remains_cut blank.medium wroteB.trace _ _ 8 2 blank_facts.2.2.2.2.1.2 (by decide) (by decide)
    (List.drop_sublist 1 _)
  have htrace : (after blank ([makeA] ++ [writeB])).trace =
      blank.trace ++ wroteB.trace.take (8 + 2) ++ wroteB.trace.drop (8 + 2) := by
    rw [after_writeB, show blank.trace = [] from rfl, List.nil_append, List.take_append_drop]
  have hissued : (after blank [makeA]).trace <+: blank.trace ++ wroteB.trace.take (8 + 2) := by
    rw [after_makeA, show blank.trace = [] from rfl, List.nil_append]
    exact List.prefix_take_iff.mpr ⟨madeA_first, blank_facts.2.2.2.2.1.1.le.trans (by decide)⟩
  exact crash_shows_history blank_good blank_consistent lawful_small htrace hissued hcut

end RumKernel.Fat16
