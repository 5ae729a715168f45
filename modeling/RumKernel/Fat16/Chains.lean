import RumKernel.Lib.Chain
import RumKernel.Fat16.Write

/-!
# Cluster chains

The chain functions of the driver in terms of `Lib.Chain`: `fat16_chain` accepts exactly the terminated,
repeat-free chains of valid clusters and returns their length; `allocate` links free clusters into a new
chain and changes nothing else in the table; `free_chain` clears the words of the old chain.
-/

namespace RumKernel.Fat16
open Lib Fs

variable {g : Geometry} {fat fat' : Mem} {c d n : Nat} {cs ds : List Nat}
variable {count first fuel j x : Nat} {visited : Nat → Bool} {table : Mem}

/-- The clusters `cs` are a chain of the table that starts at `first`: valid clusters, each followed by the
next one, the last one by an end value. -/
def IsChain (g : Geometry) (fat : Mem) (first : Nat) (cs : List Nat) : Prop :=
  Chain (nextCluster fat) (fun c => validCluster g c = true) (fun c => firstEnd ≤ c) first cs

lemma validCluster_iff : validCluster g c = true ↔ 2 ≤ c ∧ c < firstReserved ∧ c ≤ g.clusters + 1 := by
  simp [validCluster, and_assoc]

lemma validCluster_range (h : validCluster g c = true) : 2 ≤ c ∧ c < 65520 ∧ c < g.clusters + 2 := by
  obtain ⟨h1, h2, h3⟩ := validCluster_iff.mp h
  unfold firstReserved at h2
  omega

lemma nextCluster_congr (h : ∀ j, j / 2 = c → fat' j = fat j) : nextCluster fat' c = nextCluster fat c :=
  u16_congr (h _ (by omega)) (h _ (by omega))

lemma nextCluster_setCluster_same (h : n < 65536) : nextCluster (setCluster fat c n) c = n :=
  u16_put16_same h

lemma setCluster_apply_other (h : j / 2 ≠ c) : setCluster fat c n j = fat j :=
  put16_apply_other (by omega) (by omega)

lemma nextCluster_setCluster_other (h : d ≠ c) : nextCluster (setCluster fat c n) d = nextCluster fat d :=
  nextCluster_congr fun _ hj => setCluster_apply_other (by omega)

namespace IsChain

section
variable (h : IsChain g fat c cs)
include h

lemma congr (hn : ∀ x ∈ cs, nextCluster fat' x = nextCluster fat x) : IsChain g fat' c cs :=
  Chain.congr h hn

lemma det (h' : IsChain g fat c ds) : cs = ds := Chain.det h h'

lemma nodup : cs.Nodup := Chain.nodup h

lemma valid (hx : x ∈ cs) : validCluster g x = true :=
  Chain.all_valid h x hx

lemma head_mem : c ∈ cs := Chain.head_mem h

lemma length_pos : 0 < cs.length := List.length_pos_iff.mpr (Chain.ne_nil h)

lemma length_le : cs.length ≤ g.clusters := by
  have hsub : cs ⊆ List.range' 2 g.clusters := by
    intro x hx
    have hv := validCluster_range (h.valid hx)
    rw [List.mem_range'_1]
    omega
  simpa using (List.subperm_of_subset h.nodup hsub).length_le

lemma next_ne_zero (hx : x ∈ cs) : nextCluster fat x ≠ 0 := by
  obtain ⟨pre, suf, -, hs⟩ := Chain.suffix h hx
  cases hs with
  | last _ hstop =>
    unfold firstEnd at hstop
    omega
  | link _ _ hs =>
    have hv := validCluster_range (hs.all_valid _ hs.head_mem)
    omega

end

end IsChain

/-! ## `fat16_chain` -/

lemma chainLoop_ok_iff : chainLoop g fat fuel count visited c = .ok n ↔
      ∃ cs, IsChain g fat c cs ∧ n + 1 = count + cs.length ∧ cs.length ≤ fuel ∧ ∀ y ∈ cs, visited y = false := by
  induction fuel generalizing count visited c with
  | zero =>
    simp only [chainLoop, reduceCtorEq, false_iff, not_exists]
    rintro cs ⟨h, -, hl, -⟩
    have := h.length_pos
    omega
  | succ fuel ih =>
    constructor
    · intro h
      simp only [chainLoop] at h
      split at h <;> try cases h
      rename_i hv
      split at h <;> try cases h
      rename_i hvis
      simp only [Bool.not_eq_true', Bool.not_eq_false, Bool.not_eq_true] at hv hvis
      split at h
      · obtain rfl : count = n := by simpa using h
        exact ⟨[c], .last hv ‹_›, by simp, by simp, by simpa using hvis⟩
      · split at h <;> try cases h
        obtain ⟨cs, hc, hn, hl, hy⟩ := ih.mp h
        refine ⟨c :: cs, .link hv ‹_› hc, by simp only [List.length_cons]; omega, by simpa using hl, ?_⟩
        intro y hm
        rcases List.mem_cons.mp hm with rfl | hm
        · exact hvis
        · have h' := hy y hm
          simp only [Bool.or_eq_false_iff] at h'
          exact h'.2
    · rintro ⟨cs, h, hn, hl, hy⟩
      have hv := h.valid h.head_mem
      have hvis := hy c h.head_mem
      simp only [chainLoop, hv, hvis, Bool.not_true, Bool.false_eq_true, if_false]
      cases h with
      | last _ hs =>
        rw [if_pos hs]
        simp only [List.length_singleton] at hn
        congr 1
        omega
      | @link _ cs _ hs h' =>
        rw [if_neg hs]
        have hnv : validCluster g (nextCluster fat c) = true := h'.all_valid _ h'.head_mem
        simp only [hnv, Bool.not_true, Bool.false_eq_true, if_false]
        have hnd : (c :: cs).Nodup := IsChain.nodup (g := g) (.link hv hs h')
        simp only [List.length_cons] at hn hl
        refine ih.mpr ⟨cs, h', by omega, by omega, fun y hm => ?_⟩
        have hne : y ≠ c := fun e => (List.nodup_cons.mp hnd).1 (e ▸ hm)
        simp [hne, hy y (List.mem_cons_of_mem _ hm)]

/-- `fat16_chain` returns the length of the chain, and fails when there is none. -/
theorem fat16Chain_ok_iff : fat16Chain g fat c = .ok n ↔ ∃ cs, IsChain g fat c cs ∧ cs.length = n := by
  unfold fat16Chain
  rw [chainLoop_ok_iff]
  constructor
  · rintro ⟨cs, h, hn, -, -⟩
    exact ⟨cs, h, by omega⟩
  · rintro ⟨cs, h, hn⟩
    exact ⟨cs, h, by omega, h.length_le, by simp⟩

lemma chainLoop_error {r : FsError} (h : chainLoop g fat fuel count visited c = .error r) : r = .ioError := by
  induction fuel generalizing count visited c with
  | zero => simpa [chainLoop] using h.symm
  | succ fuel ih =>
    simp only [chainLoop] at h
    split at h
    · simpa using h.symm
    split at h
    · simpa using h.symm
    split at h
    · cases h
    split at h
    · simpa using h.symm
    · exact ih h

/-- **`fat16_chain` is exact**: it returns `n` when the words followed from the first cluster visit `n` distinct valid
clusters and the word of the `n`-th is the first that ends a chain, and `FS_IO_ERROR` otherwise. -/
theorem fat16Chain_exact (g : Geometry) (fat : Mem) (first : Nat) : (∀ n, fat16Chain g fat first = .ok n ↔
      0 < n ∧ (∀ i < n, validCluster g ((nextCluster fat)^[i] first) = true) ∧
        (∀ i < n, ∀ j < n, (nextCluster fat)^[i] first = (nextCluster fat)^[j] first → i = j) ∧
        ∀ i < n, nextCluster fat ((nextCluster fat)^[i] first) ≥ 0xfff8 ↔ i + 1 = n) ∧
      ((∀ n, fat16Chain g fat first ≠ .ok n) → fat16Chain g fat first = .error .ioError) := by
  constructor
  · intro n
    rw [fat16Chain_ok_iff]
    constructor
    · rintro ⟨cs, h, rfl⟩
      obtain ⟨hpos, hval, hstop⟩ := Chain.exists_iff.mp ⟨cs, h, rfl⟩
      refine ⟨hpos, hval, fun i hi j hj he => ?_, hstop⟩
      rw [← Chain.getElem_eq h hi, ← Chain.getElem_eq h hj] at he
      exact (List.Nodup.getElem_inj_iff h.nodup).mp he
    · rintro ⟨hpos, hval, -, hstop⟩
      exact Chain.exists_iff.mpr ⟨hpos, hval, hstop⟩
  · intro hne
    cases hr : fat16Chain g fat first with
    | ok n => exact absurd hr (hne n)
    | error r => rw [chainLoop_error hr]

lemma IsChain.fat16Chain (h : IsChain g fat c cs) : fat16Chain g fat c = .ok cs.length :=
  fat16Chain_ok_iff.mpr ⟨cs, h, rfl⟩

lemma clusterAt_eq (h : IsChain g fat c cs) {i : Nat} (hi : i < cs.length) : clusterAt fat c i = cs[i] := by
  induction i generalizing c cs with
  | zero =>
    obtain ⟨tl, rfl⟩ := Chain.head_eq h
    rfl
  | succ i ih =>
    cases h with
    | last => simp at hi
    | link _ _ h' => exact ih h' (by simpa using hi)

lemma clusterAt_last (h : IsChain g fat c cs) : cs.getLast? = some (clusterAt fat c (cs.length - 1)) := by
  have hp := h.length_pos
  rw [clusterAt_eq h (by omega), List.getLast?_eq_getElem?, List.getElem?_eq_getElem (by omega)]

/-! ## `allocate` -/

/-- `fat'` is `fat` with the free clusters `taken` linked into a chain of their own. -/
structure Allocated (g : Geometry) (fat fat' : Mem) (taken : List Nat) : Prop where
  sorted : taken.Pairwise (· < ·)
  valid : ∀ c ∈ taken, validCluster g c = true
  free : ∀ c ∈ taken, nextCluster fat c = 0
  other : ∀ j, j / 2 ∉ taken → fat' j = fat j
  chain : ∀ c tl, taken = c :: tl → IsChain g fat' c taken

lemma Allocated.refl : Allocated g fat fat [] :=
  ⟨.nil, by simp, by simp, fun _ _ => rfl, by simp⟩

section
variable {taken : List Nat} (h : Allocated g fat fat' taken)
include h

lemma Allocated.nodup : taken.Nodup :=
  h.sorted.imp (fun h => Nat.ne_of_lt h)

lemma Allocated.next_other (hc : c ∉ taken) : nextCluster fat' c = nextCluster fat c :=
  nextCluster_congr fun j hj => h.other j (by rwa [hj])

lemma Allocated.next_ne_zero (hc : c ∈ taken) : nextCluster fat' c ≠ 0 := by
  cases taken with
  | nil => simp at hc
  | cons d tl => exact (h.chain d tl rfl).next_ne_zero hc

lemma Allocated.take (hx : validCluster g x = true)
    (hfree : nextCluster fat' x = 0) (hlt : ∀ c ∈ taken, c < x) : Allocated g fat (setCluster
      (if taken.getLast?.getD 0 ≠ 0 then setCluster fat' (taken.getLast?.getD 0) x else fat') x 0xffff)
      (taken ++ [x]) := by
  have hnot : x ∉ taken := fun hm => by
    have := hlt x hm
    omega
  have hxr := validCluster_range hx
  refine ⟨?_, ?_, ?_, ?_, ?_⟩
  · exact List.pairwise_append.mpr ⟨h.sorted, by simp, fun a ha b hb => by
      obtain rfl := by simpa using hb
      exact hlt a ha⟩
  · intro c hc
    rcases List.mem_append.mp hc with hc | hc
    · exact h.valid c hc
    · obtain rfl := by simpa using hc
      exact hx
  · intro c hc
    rcases List.mem_append.mp hc with hc | hc
    · exact h.free c hc
    · obtain rfl := by simpa using hc
      rwa [h.next_other hnot] at hfree
  · intro j hj
    simp only [List.mem_append, List.mem_singleton, not_or] at hj
    rw [setCluster_apply_other hj.2]
    cases hl : taken.getLast? with
    | none => simpa using h.other j hj.1
    | some l =>
      have hlm : l ∈ taken := List.mem_of_mem_getLast? hl
      have hne : j / 2 ≠ l := fun e => hj.1 (e ▸ hlm)
      simp only [Option.getD_some]
      split
      · rw [setCluster_apply_other hne, h.other j hj.1]
      · exact h.other j hj.1
  · intro c tl e
    cases taken with
    | nil =>
      obtain ⟨rfl, rfl⟩ : x = c ∧ [] = tl := by simpa using e
      refine .last hx ?_
      rw [nextCluster_setCluster_same (by omega)]
      decide
    | cons d ds =>
      obtain ⟨rfl, rfl⟩ : d = c ∧ ds ++ [x] = tl := by simpa using e
      have hd := h.chain d ds rfl
      have hns : ¬firstEnd ≤ x := by
        unfold firstEnd
        omega
      obtain ⟨l, hl⟩ : ∃ l, (d :: ds).getLast? = some l := ⟨_, clusterAt_last hd⟩
      have hlm : l ∈ d :: ds := List.mem_of_mem_getLast? hl
      have hl0 : l ≠ 0 := by
        have := validCluster_range (h.valid l hlm)
        omega
      have hlx : l ≠ x := fun e => hnot (e ▸ hlm)
      simp only [hl, Option.getD_some, hl0, ne_eq, not_false_eq_true, if_true]
      refine Chain.snoc hd hx hns ?_ ?_ ?_
      · rw [nextCluster_setCluster_same (by omega)]
        decide
      · intro y hy
        obtain rfl : l = y := by simpa [hl] using hy
        rw [nextCluster_setCluster_other hlx, nextCluster_setCluster_same (by omega)]
      · intro y hy hne
        have hyx : y ≠ x := fun e => hnot (e ▸ hy)
        have hyl : y ≠ l := fun e => hne (e ▸ hl)
        rw [nextCluster_setCluster_other hyx, nextCluster_setCluster_other hyl]

end

lemma allocLoop_ok {taken : List Nat} (h : Allocated g fat table taken) (hlt : ∀ c ∈ taken, c < x)
    (hr : allocLoop g fuel x count (taken.getLast?.getD 0) (taken.head?.getD 0) table = .ok (fat', first)) :
    ∃ more, Allocated g fat fat' (taken ++ more) ∧ more.length = count ∧ first = (taken ++ more).head?.getD 0 := by
  induction fuel generalizing x count table taken with
  | zero =>
    simp only [allocLoop] at hr
    split at hr <;> cases hr
    exact ⟨[], by simpa using h, by simp_all, by simp⟩
  | succ fuel ih =>
    simp only [allocLoop] at hr
    split at hr
    · cases hr
      exact ⟨[], by simpa using h, by simp_all, by simp⟩
    · split at hr
      · exact ih h (fun c hc => Nat.lt_succ_of_lt (hlt c hc)) hr
      · rename_i hcount hfree
        simp only [Bool.not_eq_true', not_or, Bool.not_eq_false, ne_eq, not_not] at hfree
        have h' := h.take hfree.1 hfree.2 hlt
        have hl : (taken ++ [x]).getLast?.getD 0 = x := by simp
        have hf : (taken ++ [x]).head?.getD 0 =
            if taken.getLast?.getD 0 ≠ 0 then taken.head?.getD 0 else x := by
          cases taken with
          | nil => simp
          | cons d ds =>
            obtain ⟨l, hl⟩ : ∃ l, (d :: ds).getLast? = some l := ⟨_, clusterAt_last (h.chain d ds rfl)⟩
            have := validCluster_range (h.valid l (List.mem_of_mem_getLast? hl))
            rw [hl, Option.getD_some, if_pos (by omega)]
            rfl
        have hlt' : ∀ c ∈ taken ++ [x], c < x + 1 := by
          intro c hc
          rcases List.mem_append.mp hc with hc | hc
          · exact Nat.lt_succ_of_lt (hlt c hc)
          · obtain rfl := by simpa using hc
            omega
        obtain ⟨more, h1, h2, h3⟩ := ih h' hlt' (by rw [hl, hf]; exact hr)
        exact ⟨x :: more, by simpa using h1, by simp only [List.length_cons]; omega, by simpa using h3⟩

/-- **The allocator.** A successful `allocate` links `count` clusters that were free. -/
theorem allocate_ok (h : allocate g fat count = .ok (fat', first)) :
    ∃ taken, Allocated g fat fat' taken ∧ taken.length = count ∧ first = taken.head?.getD 0 :=
  allocLoop_ok Allocated.refl (by simp) h

/-! ## `free_chain` -/

lemma freeLoop_apply (h : IsChain g fat c cs) :
    freeLoop fat cs.length c table j = if j / 2 ∈ cs then 0 else table j := by
  induction cs generalizing c table with
  | nil => exact absurd rfl (Chain.ne_nil h)
  | cons d cs ih =>
    obtain rfl : d = c := by
      obtain ⟨tl, e⟩ := Chain.head_eq h
      exact (List.cons.inj e).1
    have hset : ∀ j, setCluster table d 0 j = if j / 2 = d then 0 else table j := by
      intro j
      split
      · rename_i hj
        rcases Nat.mod_two_eq_zero_or_one j with h0 | h1
        · simp [setCluster, put16, show j = d * 2 by omega]
        · simp [setCluster, put16, show j = d * 2 + 1 by omega]
      · exact setCluster_apply_other ‹_›
    simp only [List.length_cons, freeLoop]
    cases h with
    | last _ _ => simp [freeLoop, hset]
    | link _ _ h' =>
      rw [ih h', hset]
      by_cases h1 : j / 2 ∈ cs <;> by_cases h2 : j / 2 = d <;> simp [h1, h2]

lemma nextCluster_freeLoop (h : IsChain g fat c cs) :
    nextCluster (freeLoop fat cs.length c table) d = if d ∈ cs then 0 else nextCluster table d := by
  have e0 : d * 2 / 2 = d := by omega
  have e1 : (d * 2 + 1) / 2 = d := by omega
  unfold nextCluster u16
  rw [freeLoop_apply h, freeLoop_apply h, e0, e1]
  split <;> simp

end RumKernel.Fat16
