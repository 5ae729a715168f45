import RumKernel.Process.Invariant

/-!
# Adoption by the boot task

An exiting task leaves its descendants to the boot task. The search for them is complete, its queue does not overflow,
and only they are touched.
-/

namespace RumKernel.Process
open Function

variable {found : List TaskSlot} {pending : List Nat} {fuel : Nat} {p : TaskSlot → Bool}

namespace Kernel

variable {k k' : Kernel} {i j : TaskSlot} {s : Scope} {r : Releases}

/-! ## The search is complete -/

lemma nodup_findChildren (k : Kernel) (parent : Nat) (found : List TaskSlot) : (k.findChildren parent found).Nodup :=
  List.Nodup.filter _ (by decide)

/-- The slots found so far are different ones, none of them the running task. -/
structure Found (k : Kernel) (found : List TaskSlot) : Prop where
  nodup : found.Nodup
  slots : ∀ i ∈ found, i ∈ userSlots ∧ i ≠ k.current

lemma Found.next (h : k.Found found) (parent : Nat) : k.Found (found ++ k.findChildren parent found) := by
  refine ⟨List.nodup_append.mpr ⟨h.nodup, k.nodup_findChildren parent found, fun a ha b hb hab => ?_⟩, fun i hi => ?_⟩
  · subst hab
    exact (mem_findChildren.mp hb).2.2.2.1 ha
  · rcases List.mem_append.mp hi with hi | hi
    · exact h.slots i hi
    · obtain ⟨h1, -, h3, -⟩ := mem_findChildren.mp hi
      exact ⟨h1, h3⟩

lemma Found.length_lt (h : k.Found found) (hc : k.current ∈ userSlots) : found.length < 16 := by
  have hnd : (k.current :: found).Nodup := List.nodup_cons.mpr ⟨fun hm => (h.slots _ hm).2 rfl, h.nodup⟩
  have hsub : (k.current :: found).Subperm userSlots := hnd.subperm fun i hi => by
    rcases List.mem_cons.mp hi with rfl | hi
    · exact hc
    · exact (h.slots i hi).1
  exact hsub.length_le

/-- The slots of which the children have been looked for, and those whose ids are queued. -/
def Searched (k : Kernel) (pending : List Nat) (found : List TaskSlot) : Prop :=
  ∀ i, i = k.current ∨ i ∈ found → (k.tasks i).id ∈ pending ∨
    ∀ j ∈ userSlots, k.Child i j → j ≠ k.current → j ∈ found

lemma Searched.next {parent : Nat} (h : k.Searched (parent :: pending) found) :
    k.Searched (pending ++ (k.findChildren parent found).map fun i => (k.tasks i).id)
      (found ++ k.findChildren parent found) := by
  -- the children of the one that was taken from the queue are found now
  have hnew : ∀ i, (k.tasks i).id = parent → ∀ j ∈ userSlots, k.Child i j → j ≠ k.current →
      j ∈ found ++ k.findChildren parent found := fun i hi j hj hc hne => by
    by_cases hf : j ∈ found
    · exact List.mem_append_left _ hf
    · exact List.mem_append_right _ (mem_findChildren.mpr ⟨hj, hc.1, hne, hf, hc.2.trans hi⟩)
  have hold : ∀ i, i = k.current ∨ i ∈ found →
      (k.tasks i).id ∈ pending ++ (k.findChildren parent found).map (fun i => (k.tasks i).id) ∨
      ∀ j ∈ userSlots, k.Child i j → j ≠ k.current → j ∈ found ++ k.findChildren parent found := fun i hi => by
    rcases h i hi with hp | hp
    · rcases List.mem_cons.mp hp with hp | hp
      · exact .inr (hnew i hp)
      · exact .inl (List.mem_append_left _ hp)
    · exact .inr fun j hj hc hne => List.mem_append_left _ (hp j hj hc hne)
  intro i hi
  rcases hi with hi | hi
  · exact hold i (.inl hi)
  · rcases List.mem_append.mp hi with hi | hi
    · exact hold i (.inr hi)
    · exact .inl (List.mem_append_right _ (List.mem_map_of_mem hi))

lemma descendants_closed (hc : k.current ∈ userSlots)
    (hf : k.Found found) (hs : k.Searched pending found) (hfuel : pending.length + (16 - found.length) ≤ fuel) :
    k.Found (k.descendants fuel pending found) ∧ k.Searched [] (k.descendants fuel pending found) := by
  induction fuel generalizing pending found with
  | zero =>
    have := hf.length_lt hc
    omega
  | succ fuel ih =>
    cases pending with
    | nil => exact ⟨hf, hs⟩
    | cons parent pending =>
      have hnext := hf.next parent
      have hlen := hnext.length_lt hc
      refine ih hnext hs.next ?_
      simp only [List.length_append, List.length_map, List.length_cons] at hfuel hlen ⊢
      omega

lemma descendants_fuel {fuel' : Nat} (hc : k.current ∈ userSlots)
    (hf : k.Found found) (hfuel : pending.length + (16 - found.length) ≤ fuel) (hle : fuel ≤ fuel') :
    k.descendants fuel' pending found = k.descendants fuel pending found := by
  induction fuel generalizing fuel' pending found with
  | zero =>
    have := hf.length_lt hc
    omega
  | succ fuel ih =>
    obtain ⟨fuel', rfl⟩ := Nat.exists_eq_succ_of_ne_zero (Nat.ne_zero_of_lt hle)
    cases pending with
    | nil => rfl
    | cons parent pending =>
      have hnext := hf.next parent
      have hlen := hnext.length_lt hc
      refine ih hnext ?_ (Nat.le_of_succ_le_succ hle)
      simp only [List.length_append, List.length_map, List.length_cons] at hfuel hlen ⊢
      omega

lemma found_descendants (hc : k.current ∈ userSlots) : k.Found (k.descendants 18 [k.task.id] []) ∧
    k.Searched [] (k.descendants 18 [k.task.id] []) :=
  descendants_closed hc ⟨List.nodup_nil, nofun⟩
    (fun i hi => .inl (by rw [hi.resolve_right nofun]; exact List.mem_singleton_self _)) (Nat.le_succ 17)

lemma mem_descendants (h : k.Registry) (hu : k.Used k.current) (hc : k.current ∈ userSlots)
    (hd : k.Descends k.current j) (hne : j ≠ k.current) : j ∈ k.descendants 18 [k.task.id] [] := by
  obtain ⟨-, hclosed⟩ := found_descendants hc
  -- along the links, every task is the running one or found
  suffices hall : k.Used j ∧ (j = k.current ∨ j ∈ k.descendants 18 [k.task.id] []) from hall.2.resolve_left hne
  have hchild : ∀ {a b}, k.Used a → a = k.current ∨ a ∈ k.descendants 18 [k.task.id] [] → k.Child a b →
      b = k.current ∨ b ∈ k.descendants 18 [k.task.id] [] := fun {a b} ha hm hab => by
    by_cases hb : b = k.current
    · exact .inl hb
    · have hp := h.child_process ha hab
      exact .inr ((hclosed a hm).resolve_left List.not_mem_nil b
        (mem_userSlots.mpr ⟨h.ne_boot hp, h.ne_idle hp⟩) hab hb)
  clear hne
  induction hd with
  | single hab => exact ⟨hab.1, hchild hu (.inl rfl) hab⟩
  | tail _ hab ih => exact ⟨hab.1, hchild ih.1 ih.2 hab⟩

/-! ## Nobody descends from itself -/

/-- Every task is younger than its parent. -/
def Younger (k : Kernel) : Prop := ∀ i, k.Used i → (k.tasks i).parent < (k.tasks i).id

lemma younger_initial : Kernel.initial.Younger := by
  unfold Younger Used
  decide

lemma Younger.write (h : k.Younger) {t : Task} (ht : k'.tasks = update k.tasks i t)
    (hy : t.state ≠ .unused → t.parent < t.id) : k'.Younger := by
  intro j
  unfold Used
  rw [ht]
  exact (forall_update_iff k.tasks fun j u => u.state ≠ .unused → u.parent < u.id).mpr ⟨hy, fun j _ => h j⟩ j

lemma Younger.act (h : k.Younger) (hreg : k.Registry) (ha : Act s k k') : k'.Younger := by
  cases ha with
  | quiet hf =>
    intro i hi
    rcases hf i with e | ⟨hu, hq⟩
    · unfold Used at hi
      dsimp only at hi ⊢
      rw [e] at hi ⊢
      exact h i hi
    · dsimp only
      rw [hq.parent, hq.id]
      exact h i hu
  | environment | halt | mark | request | endForeground => exact h
  | @dispatch i _ hi => exact h.write rfl fun _ => h i (by rw [Used, hi]; rintro ⟨⟩)
  | create _ _ hid => exact h.write rfl fun _ => Nat.pos_of_ne_zero hid
  | publish _ _ hid _ hr =>
    exact h.write tasks_publish.1 fun _ => (hreg.issued (used_current hr)).2.resolve_left hid
  | @grant i _ _ hu => exact h.write rfl fun _ => h i hu
  | @cancel i _ hp hu =>
    refine h.write rfl fun _ => ?_
    rw [Task.parent_stop, Task.id_stop]
    exact h i hu
  | @adopt i _ hp hu =>
    refine h.write rfl fun _ => ?_
    rw [Task.parent_stop, Task.id_stop]
    change (k.tasks bootSlot).id < (k.tasks i).id
    have hpos := (hreg.regular i).id hu
    have hne : (k.tasks i).id ≠ (k.tasks bootSlot).id := fun he => hreg.ne_boot hp (hreg.ids hu hreg.boot.2.2.1 he)
    rw [hreg.boot.1] at hne ⊢
    omega
  | leave _ _ hr => exact h.write rfl fun _ => h k.current (by rw [Used]; change k.task.state ≠ _; rw [hr]; rintro ⟨⟩)
  | reap => exact h.write rfl fun hu => absurd rfl hu

lemma Younger.run (h : k.Younger) (hready : k.Ready) (calls : List KernelCall) : (k.run calls).Younger :=
  hready.run_keeps Younger.act h calls

lemma Younger.descends (h : k.Younger) (hd : k.Descends i j) : (k.tasks i).id < (k.tasks j).id := by
  have hchild : ∀ {a b}, k.Child a b → (k.tasks a).id < (k.tasks b).id := fun hab => by
    have := h _ hab.1
    rwa [hab.2] at this
  induction hd with
  | single hab => exact hchild hab
  | tail _ hab ih => exact ih.trans (hchild hab)

/-! ## Only they are touched -/

/-- The record of an adopted task. -/
def adopted (k : Kernel) (i : TaskSlot) : Task :=
  Task.stop { k.tasks i with parent := (k.tasks bootSlot).id, orphaned := true }

lemma tasks_adopts {l : List TaskSlot} (hl : l.Nodup) (hb : bootSlot ∉ l) (j : TaskSlot) :
    (l.foldl (fun k i => if p i then k.adopt i else k) k).tasks j =
      if j ∈ l ∧ p j = true then k.adopted j else k.tasks j := by
  induction l generalizing k with
  | nil => exact (if_neg fun h => nomatch h.1).symm
  | cons i l ih =>
    obtain ⟨hi, hl⟩ := List.nodup_cons.mp hl
    have hbi : bootSlot ≠ i := fun h => hb (h ▸ List.mem_cons_self)
    rw [List.foldl_cons, ih hl fun h => hb (List.mem_cons_of_mem i h)]
    -- the slot at hand is not met again, and the others are as they were
    have hother : ∀ {j}, j ≠ i → (if p i then k.adopt i else k).tasks j = k.tasks j := fun hj => by
      split
      · exact update_of_ne hj ..
      · rfl
    rcases eq_or_ne j i with rfl | hne
    · rw [if_neg fun h => hi h.1]
      split
      · rename_i hp
        rw [if_pos ⟨List.mem_cons_self, hp⟩]
        exact update_self ..
      · rename_i hp
        rw [if_neg fun h => hp h.2]
    · have hadopted : (if p i then k.adopt i else k).adopted j = k.adopted j := by
        unfold adopted
        rw [hother hne, hother hbi]
      rw [hadopted, hother hne]
      simp only [List.mem_cons, hne, false_or]

lemma tasks_adoptAll (p : TaskSlot → Bool) (j : TaskSlot) : (k.adoptAll p).tasks j =
    if j ∈ userSlots ∧ p j = true then k.adopted j else k.tasks j :=
  tasks_adopts (by decide) (by decide) j

lemma current_adoptAll (p : TaskSlot → Bool) : (k.adoptAll p).current = k.current := by
  unfold adoptAll
  generalize userSlots = l
  induction l generalizing k with
  | nil => rfl
  | cons i l ih =>
    rw [List.foldl_cons, ih]
    split
    · rfl
    · rfl

lemma adopted_spec (k : Kernel) (i : TaskSlot) : (k.adopted i).orphaned = true ∧
    (k.adopted i).cancellationRequested = true ∧
    (k.adopted i).parent = (k.tasks bootSlot).id ∧ (k.adopted i).state ≠ .blocked ∧ ((k.tasks i).state = .blocked →
      (k.adopted i).state = .runnable ∧ (k.adopted i).waiting = none ∧ (k.adopted i).deadlineActive = false ∧
      (k.adopted i).deadline = 0) := by
  by_cases h : (k.tasks i).state = .blocked
  · have he : k.adopted i = Task.wake { k.tasks i with
        parent := (k.tasks bootSlot).id, orphaned := true, cancellationRequested := true } .cancelled := if_pos h
    rw [he]
    exact ⟨rfl, rfl, rfl, nofun, fun _ => ⟨rfl, rfl, rfl, rfl⟩⟩
  · have he : k.adopted i = { k.tasks i with
        parent := (k.tasks bootSlot).id, orphaned := true, cancellationRequested := true } := if_neg h
    rw [he]
    exact ⟨rfl, rfl, rfl, h, fun hb => absurd hb h⟩

lemma tasks_signal (k : Kernel) (e : Event) (j : TaskSlot) : (k.signal e).tasks j = k.tasks j ∨
    (k.tasks j).state = .blocked ∧ (k.tasks j).waiting = some e ∧ (k.signal e).tasks j = (k.tasks j).wake .event := by
  by_cases h : (k.tasks j).state = .blocked ∧ (k.tasks j).waiting = some e
  · exact .inr ⟨h.1, h.2, if_pos (by simp [h.1, h.2])⟩
  · refine .inl (if_neg ?_)
    simpa using h

lemma tasks_signalParent (k : Kernel) (j : TaskSlot) : k.signalParent.tasks j = k.tasks j ∨
    ∃ p, k.Used p ∧ (k.tasks p).id = k.task.parent ∧ (k.tasks j).state = .blocked ∧
      ((k.tasks j).waiting = some (.children p) ∨ (k.tasks j).waiting = some (.console p)) ∧
      k.signalParent.tasks j = (k.tasks j).wake .event := by
  unfold signalParent
  split
  · split
    · exact .inl rfl
    · rename_i p hp
      have hfound := List.find?_some hp
      simp only [Bool.and_eq_true, bne_iff_ne, ne_eq, beq_iff_eq] at hfound
      dsimp only
      rcases tasks_signal k (.children p) j with h1 | ⟨h1, h2, h3⟩
      · split
        · rcases tasks_signal (k.signal (.children p)) (.console p) j with g1 | ⟨g1, g2, g3⟩
          · exact .inl (g1.trans h1)
          · rw [h1] at g1 g2 g3
            exact .inr ⟨p, hfound.1, hfound.2, g1, .inr g2, g3⟩
        · exact .inl h1
      · refine .inr ⟨p, hfound.1, hfound.2, h1, .inl h2, ?_⟩
        split
        · rcases tasks_signal (k.signal (.children p)) (.console p) j with g1 | ⟨g1, -⟩
          · exact g1.trans h3
          · rw [h3] at g1
            cases g1
        · exact h3
  · exact .inl rfl

lemma abandons_iff (h : k.Registry) (hu : k.Used k.current) (hc : k.current ∈ userSlots) :
    k.abandons i = true ↔ k.Used i ∧ i ≠ k.current ∧ k.Abandons i := by
  constructor
  · intro hi
    obtain ⟨h1, h2, h3, -⟩ := abandons_spec h hu hi
    exact ⟨h2, h3, h1⟩
  · rintro ⟨h1, h2, h3⟩
    unfold abandons
    rcases h3 with hd | ⟨hroot, hsame⟩
    · rw [List.contains_iff_mem.mpr (mem_descendants h hu hc hd h2), Bool.true_or]
    · have hused : (k.tasks i).state ≠ .unused := h1
      simp [hroot, hsame, hused, h2]

lemma task_record (k : Kernel) (termination : Termination) (status : Int) (fault : Option Fault) (hi : i ≠ k.current) :
    (k.record termination status fault).tasks i = k.tasks i := update_of_ne hi ..

/-! ## The records when the running task has left -/

lemma tasks_left (hi : i ≠ k.current) : (k.adoptAll p).leave.tasks i = (k.adoptAll p).tasks i :=
  update_of_ne (by rw [current_adoptAll]; exact hi) ..

lemma task_left (hp : p k.current ≠ true) :
    (k.adoptAll p).leave.tasks k.current = { k.task with state := .exited } := by
  have hcur : (k.adoptAll p).current = k.current := current_adoptAll _
  have hstay : (k.adoptAll p).task = k.task := by
    unfold task
    rw [hcur, tasks_adoptAll, if_neg fun h => hp h.2]
  have hupd := update_self (k.adoptAll p).current { (k.adoptAll p).task with state := .exited } (k.adoptAll p).tasks
  rw [hstay, hcur] at hupd
  rw [← hupd, ← hstay, ← hcur]
  rfl

lemma fixed_left (hp : p k.current ≠ true) (hu : k.Used k.current) (i : TaskSlot) :
    ((k.adoptAll p).leave.tasks i).id = (k.tasks i).id ∧ ((k.adoptAll p).leave.Used i → k.Used i) := by
  rcases eq_or_ne i k.current with rfl | hi
  · rw [task_left hp]
    exact ⟨rfl, fun _ => hu⟩
  · unfold Used
    rw [tasks_left hi, tasks_adoptAll]
    split
    · unfold adopted
      rw [Task.id_stop, ne_eq, Task.unused_stop]
      exact ⟨rfl, id⟩
    · exact ⟨rfl, id⟩

lemma abandons_record (hready : k.Ready) (hself : ¬k.Descends k.current k.current) (hslot : k.current ∈ userSlots)
    (termination : Termination) (status : Int) (fault : Option Fault) (i : TaskSlot) :
    (k.record termination status fault).abandons i = true ↔ k.Used i ∧ (k.Descends k.current i ∨
      i ≠ k.current ∧ k.console.isRoot (some k.current) = true ∧
          k.console.sameSession (some i) (some k.current) = true) := by
  obtain ⟨hcalm, -, hsame⟩ :=
    record_spec (s := ⟨fun _ => True, fun _ => True⟩) hready.registry hready.running termination status fault
  have hused : (k.record termination status fault).Used i ↔ k.Used i := by
    unfold Used
    rw [(hsame i).2.2]
  rw [abandons_iff (hcalm.registry hready.registry) (used_current (hcalm.running hready.running)) hslot, hused]
  unfold Abandons
  rw [descends_congr hsame]
  constructor
  · rintro ⟨h1, h2, h3 | h3⟩
    · exact ⟨h1, .inl h3⟩
    · exact ⟨h1, .inr ⟨h2, h3⟩⟩
  · rintro ⟨h1, h2 | ⟨h2, h3⟩⟩
    · refine ⟨h1, ?_, .inl h2⟩
      rintro rfl
      exact hself h2
    · exact ⟨h1, h2, .inr h3⟩

/-- **Adoption.** In every state that a run reaches, when the running task terminates, exactly its descendants, of which
it is none itself, and the other members of a session whose root it is become cancelled orphans of the boot task, and
those that are blocked become runnable and registered nowhere. The record of any other task is as it was, but for a wait
for an event of the exiting task's parent. The queue of the search has room for all it holds, and the search ends by
itself. -/
theorem adopts_descendants (calls : List KernelCall) (termination : Termination) (status : Int) (fault : Option Fault) :
    let k := initial.run calls
    let k1 := k.record termination status fault
    let k' := (k1.adoptAll k1.abandons).leave.signalParent
    let ends i := k.Used i ∧ (k.Descends k.current i ∨
      i ≠ k.current ∧ k.console.isRoot (some k.current) = true ∧ k.console.sameSession (some i) (some k.current) = true)
    k.current ≠ bootSlot → k.current ≠ idleSlot →
    (∀ r, k.switchProtected = false → k.terminateCurrent r termination status fault true = k'.schedule r) ∧
    ¬k.Descends k.current k.current ∧
    (∀ i, ends i → (k'.tasks i).orphaned = true ∧ (k'.tasks i).cancellationRequested = true ∧
      (k'.tasks i).parent = (k.tasks bootSlot).id ∧ ((k.tasks i).state = .blocked → (k'.tasks i).state = .runnable ∧
        (k'.tasks i).waiting = none ∧ (k'.tasks i).deadlineActive = false ∧ (k'.tasks i).deadline = 0)) ∧
    (∀ i, ¬ends i → i ≠ k.current → k'.tasks i = k.tasks i ∨ ∃ p, k.Used p ∧ (k.tasks p).id = k.task.parent ∧
      (k.tasks i).state = .blocked ∧
        ((k.tasks i).waiting = some (.children p) ∨ (k.tasks i).waiting = some (.console p)) ∧
      k'.tasks i = (k.tasks i).wake .event) ∧
    ((k'.tasks k.current).state = .exited ∧ (k'.tasks k.current).parent = k.task.parent ∧
      (k'.tasks k.current).orphaned = k.task.orphaned ∧
      (k'.tasks k.current).cancellationRequested = k.task.cancellationRequested) ∧
    ((k1.descendants 18 [k1.task.id] []).length + 1 ≤ 18 ∧
      ∀ fuel, 18 ≤ fuel → k1.descendants fuel [k1.task.id] [] = k1.descendants 18 [k1.task.id] []) := by
  intro k k1 k' ends hb hid
  have hready : k.Ready := ready calls
  have hyoung : k.Younger := younger_initial.run initial_ready calls
  obtain ⟨hcalm, hheld, hsame⟩ :=
    record_spec (s := ⟨fun _ => True, fun _ => True⟩) hready.registry hready.running termination status fault
  have h₁ : k1.Registry := hcalm.registry hready.registry
  have hu1 : k1.Used k1.current := used_current (hcalm.running hready.running)
  have hslot : k1.current ∈ userSlots := mem_userSlots.mpr ⟨hb, hid⟩
  have hself : ¬k.Descends k.current k.current := fun hd => Nat.lt_irrefl _ (hyoung.descends hd)
  have hother : ∀ {i}, i ≠ k.current → k1.tasks i = k.tasks i := fun hi => task_record k termination status fault hi
  have hends : ∀ i, k1.abandons i = true ↔ ends i := abandons_record hready hself hslot termination status fault
  have hne : ∀ {i}, ends i → i ≠ k.current := fun {i} hi => by
    rcases hi.2 with hd | ⟨hne, -⟩
    · rintro rfl
      exact hself hd
    · exact hne
  have huser : ∀ {i}, k1.abandons i = true → i ∈ userSlots := fun {i} hi => by
    obtain ⟨-, -, -, hp⟩ := abandons_spec h₁ hu1 hi
    exact mem_userSlots.mpr ⟨h₁.ne_boot hp, h₁.ne_idle hp⟩
  have hboot : k1.tasks bootSlot = k.tasks bootSlot := hother (Ne.symm hb)
  have hstays : k1.abandons k1.current ≠ true := fun h => hne ((hends _).mp h) rfl
  have hexit : (k1.adoptAll k1.abandons).leave.tasks k.current = { k1.task with state := .exited } := task_left hstays
  refine ⟨fun r hp => ?_, hself, fun i hi => ?_, fun i hi hic => ?_, ?_, ?_, fun fuel hfuel => ?_⟩
  · unfold terminateCurrent
    rw [if_neg (by simp [hb, hid, hp])]
  · have hrec : (k1.adoptAll k1.abandons).leave.tasks i = k1.adopted i := by
      rw [tasks_left (k := k1) (hne hi), tasks_adoptAll, if_pos ⟨huser ((hends i).mpr hi), (hends i).mpr hi⟩]
    obtain ⟨g1, g2, g3, g4, g5⟩ := adopted_spec k1 i
    have hfin : k'.tasks i = k1.adopted i := by
      rcases tasks_signalParent (k1.adoptAll k1.abandons).leave i with h' | ⟨-, -, -, h', -⟩
      · exact h'.trans hrec
      · rw [hrec] at h'
        exact absurd h' g4
    rw [hfin]
    rw [hboot] at g3
    rw [hother (hne hi)] at g5
    exact ⟨g1, g2, g3, g5⟩
  · have hrec : (k1.adoptAll k1.abandons).leave.tasks i = k.tasks i := by
      rw [tasks_left (k := k1) hic, tasks_adoptAll, if_neg fun h' => hi ((hends i).mp h'.2), hother hic]
    rcases tasks_signalParent (k1.adoptAll k1.abandons).leave i with h' | ⟨p, h1, h2, h3, h4, h5⟩
    · exact .inl (h'.trans hrec)
    · rw [hrec] at h3 h4 h5
      have hparent : (k1.adoptAll k1.abandons).leave.task.parent = k.task.parent := by
        have hcur' : (k1.adoptAll k1.abandons).leave.current = k.current := current_adoptAll _
        unfold task
        rw [hcur', hexit]
        exact (hsame k.current).2.1
      obtain ⟨f1, f2⟩ := fixed_left hstays hu1 p
      rw [f1, hparent, (hsame p).1] at h2
      have hused : k.Used p := fun hp => f2 h1 ((hsame p).2.2.trans hp)
      exact .inr ⟨p, hused, h2, h3, h4, h5⟩
  · have hfin : k'.tasks k.current = { k1.task with state := .exited } := by
      rcases tasks_signalParent (k1.adoptAll k1.abandons).leave k.current with h' | ⟨-, -, -, h', -⟩
      · exact h'.trans hexit
      · rw [hexit] at h'
        cases h'
    have htask : k1.task =
      { k.task.clearWait with termination, exitStatus := status, fault := fault.getD k.task.fault, handles := 0 } :=
      update_self ..
    rw [hfin, htask]
    exact ⟨rfl, rfl, rfl, rfl⟩
  · have := (found_descendants hslot).1.length_lt hslot
    omega
  · exact descendants_fuel hslot ⟨List.nodup_nil, nofun⟩ (Nat.le_succ 17) hfuel

/-- The boot task launches a process, which launches a child, which launches another. That one exits, its parent waits
for an event, and the first process runs again. -/
def launched : List KernelCall :=
  let r := allReleased
  [.createProcess ⟨7, true, true, true⟩, .yield r, .createProcess ⟨8, true, true, true⟩, .yield r,
    .createProcess ⟨9, true, true, true⟩, .yield r, .exit r 0 true, .yield r, .yield r,
    .wait r (some (.other 0)) 0 none 0, .yield r]

lemma launched_facts : (initial.run launched).current = 2 ∧
    (((initial.run launched).tasks 3).state = .blocked ∧ ((initial.run launched).tasks 4).state = .exited) ∧
    ((initial.run launched).tasks 3).parent = ((initial.run launched).tasks 2).id ∧
    ((initial.run launched).tasks 4).parent = ((initial.run launched).tasks 3).id := by
  decide +kernel

/-- The first process exits: its blocked child runs again, cancelled, and both are left to the boot task. -/
theorem adopts_descendants_launched : let k := initial.run launched
    let k1 := k.record .exit 0 none
    let k' := (k1.adoptAll k1.abandons).leave.signalParent
    (k'.tasks 3).orphaned = true ∧ (k'.tasks 3).cancellationRequested = true ∧ (k'.tasks 3).state = .runnable ∧
      (k'.tasks 4).orphaned = true ∧ (k'.tasks 4).parent = (k.tasks bootSlot).id := by
  obtain ⟨hc, ⟨hb, hx⟩, h3, h4⟩ := launched_facts
  have hall := (adopts_descendants launched .exit 0 none (by rw [hc]; decide) (by rw [hc]; decide)).2.2.1
  generalize initial.run launched = k at hc hb hx h3 h4 hall ⊢
  have hu3 : k.Used 3 := fun hu => nomatch hb.symm.trans hu
  have hu4 : k.Used 4 := fun hu => nomatch hx.symm.trans hu
  have hchild : k.Child k.current 3 := ⟨hu3, hc ▸ h3⟩
  obtain ⟨ho, hr, -, hrun⟩ := hall 3 ⟨hu3, .inl (.single hchild)⟩
  obtain ⟨ho', -, hp', -⟩ := hall 4 ⟨hu4, .inl (.tail (.single hchild) ⟨hu4, h4⟩)⟩
  exact ⟨ho, hr, (hrun hb).1, ho', hp'⟩

end Kernel

end RumKernel.Process
