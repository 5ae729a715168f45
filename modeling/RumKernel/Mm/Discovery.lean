import RumKernel.Mm.Boot

/-!
# What boot memory discovery manages

`Marks P v A m` says that `m` sets the managed bit of exactly the pages of `A` to `v` when it succeeds, changes
nothing else of the allocator, comes to an end, and wraps no sum when `P` holds. It is closed under the ways the
programs are built.
-/

namespace RumKernel.Mm
open Lib Prog

variable {α β : Type} {P : Prop} {v : Bool} {A B : Set Nat} {b : Boot} {m : BootM α}
variable {n w : Nat} {u : Boot → Boot}
variable {S : Set Nat} {c : Prop} {address bytes e fuel k offset page start «end» : Nat} {g : Pmm → Pmm}

def Boot.pages (b : Boot) : Set Nat := {page | b.pmm.managed.bit page = true}

/-- The pages of `S` after those of `A` were set to `v`. -/
def mark (v : Bool) (S A : Set Nat) : Set Nat := if v then S ∪ A else S \ A

lemma mark_empty : mark v S ∅ = S := by
  cases v <;> simp [mark]

lemma mark_mark : mark v (mark v S A) B = mark v S (A ∪ B) := by
  cases v
  · simp only [mark, Bool.false_eq_true, if_false, Set.sdiff_sdiff]
  · simp only [mark, if_true, Set.union_assoc]

/-- A wrapped sum stays recorded, and when `P` holds none is added. -/
structure Kept (P : Prop) (u w : Bool) : Prop where
  mono : u = true → w = true
  same : P → w = u

lemma Kept.refl {u : Bool} : Kept P u u := ⟨id, fun _ => rfl⟩

lemma Kept.trans {u w x : Bool} (h : Kept P u w) (h' : Kept P w x) : Kept P u x :=
  ⟨fun hu => h'.mono (h.mono hu), fun hP => (h'.same hP).trans (h.same hP)⟩

/-- The program marks the pages of `A`. -/
def Marks (P : Prop) (v : Bool) (A : Set Nat) (m : BootM α) : Prop := ∀ b,
  Kept P b.wrapped (m.run b).2.wrapped ∧ (∃ managed, (m.run b).2.pmm = { b.pmm with managed }) ∧
    (m.run b).1 ≠ .error .unfinished ∧ ∀ a, (m.run b).1 = .ok a → (m.run b).2.pages = mark v b.pages A

namespace Marks

lemma pure {a : α} : Marks P v ∅ (Pure.pure a) := fun _ =>
  ⟨.refl, ⟨_, rfl⟩, nofun, fun _ _ => mark_empty.symm⟩

lemma fail : Marks P v A (Prog.fail .invalid : BootM α) := fun _ =>
  ⟨.refl, ⟨_, rfl⟩, nofun, nofun⟩

lemma fail_bind {f : α → BootM β} : Marks P v A (Prog.fail .invalid >>= f) := fun _ =>
  ⟨.refl, ⟨_, rfl⟩, nofun, nofun⟩

lemma bind_of {f : α → BootM β} (hm : Marks P v A m) (hc : ∀ b a, (m.run b).1 = .ok a → c)
    (hf : c → ∀ a, Marks P v B (f a)) : Marks P v (A ∪ B) (m >>= f) := by
  intro b
  obtain ⟨h1, ⟨managed, h2⟩, h3, h4⟩ := hm b
  rw [bind_run]
  have hcb := hc b
  rcases hr : m.run b with ⟨r, b'⟩
  rw [hr] at h1 h2 h3 h4 hcb
  cases r with
  | error e => exact ⟨h1, ⟨managed, h2⟩, fun h => h3 (by simpa using h), nofun⟩
  | ok a =>
    obtain ⟨k1, ⟨managed', k2⟩, k3, k4⟩ := hf (hcb a rfl) a b'
    refine ⟨h1.trans k1, ⟨managed', ?_⟩, k3, fun c hc => ?_⟩
    · simp only at h2
      rw [k2, h2]
    · rw [k4 c hc, h4 a rfl, mark_mark]

lemma bind {f : α → BootM β} (hm : Marks P v A m) (hf : ∀ a, Marks P v B (f a)) : Marks P v (A ∪ B) (m >>= f) :=
  bind_of hm (fun _ _ _ => trivial) fun _ => hf

lemma congr (h : Marks P v A m) (e : A = B) : Marks P v B m := e ▸ h

lemma ite [Decidable c] {n : BootM α} (ht : c → Marks P v A m) (hf : ¬c → Marks P v A n) :
    Marks P v A (if c then m else n) := by
  split
  · exact ht ‹_›
  · exact hf ‹_›

lemma cond [Decidable c] {n : BootM α} (ht : c → Marks P v (A ∪ B) m) (hf : Marks P v B n) :
    Marks P v ({page | c ∧ page ∈ A} ∪ B) (if c then m else n) := by
  split
  · rename_i hc
    exact (ht hc).congr (by simp [hc])
  · rename_i hc
    exact hf.congr (by simp [hc])

lemma last [Decidable c] {m : BootM Unit} (ht : c → Marks P v A m) :
    Marks P v {page | c ∧ page ∈ A} (if c then m else Pure.pure ()) := by
  split
  · rename_i hc
    exact (ht hc).congr (by simp [hc])
  · rename_i hc
    exact pure.congr (by simp [hc])

lemma fit_bind {f : Nat → BootM β} (hn : P → n < 2 ^ w) (hf : Marks P v A (f (n % 2 ^ w))) :
    Marks P v A (fit w n >>= f) := by
  intro b
  have hrun : (fit w n >>= f).run b = (f (n % 2 ^ w)).run { b with wrapped := b.wrapped || decide (n ≥ 2 ^ w) } := by
    unfold fit
    by_cases h : n ≥ 2 ^ w
    · simp only [if_pos h, bind_run, modify_run, pure_run, decide_eq_true h, Bool.or_true]
    · simp only [if_neg h, bind_run, pure_run, decide_eq_false h, Bool.or_false]
  obtain ⟨h1, h2, h3, h4⟩ := hf { b with wrapped := b.wrapped || decide (n ≥ 2 ^ w) }
  rw [hrun]
  refine ⟨.trans ⟨fun hb => by simp [hb], fun hP => ?_⟩ h1, h2, h3, h4⟩
  have : ¬n ≥ 2 ^ w := Nat.not_le.mpr (hn hP)
  simp [this]

lemma fits_bind {f : Nat → BootM β} (hn : n < 2 ^ w) (hf : Marks P v A (f n)) : Marks P v A (fit w n >>= f) :=
  fit_bind (fun _ => hn) (by rwa [Nat.mod_eq_of_lt hn])

end Marks

/-! ## Ranges -/

/-- The page lies wholly inside `[start, end)`. -/
def Inside (start «end» page : Nat) : Prop := start ≤ page * pageSize ∧ (page + 1) * pageSize ≤ «end»

/-- The page has a byte in common with `[start, end)`. -/
def Meets (start «end» page : Nat) : Prop := start < «end» ∧ start < (page + 1) * pageSize ∧ page * pageSize < «end»

/-- The pages a call of `range` marks. -/
def covered (usable : Bool) (start «end» : Nat) : Set Nat :=
  {page | page < pageCount ∧ if usable then Inside start «end» page else Meets start «end» page}

lemma pages_setRange {first : Nat} :
    ({ b with pmm := { b.pmm with managed := b.pmm.managed.setRange first v n } } : Boot).pages =
      mark v b.pages {page | first ≤ page ∧ page < first + n} := by
  ext page
  cases v <;> simp only [Boot.pages, mark, Bitmap.bit_setRange, Bool.false_eq_true, if_false, if_true,
    Set.mem_ofPred_eq, Set.mem_union, Set.mem_sdiff]
  · split <;> simp_all
  · split <;> simp_all

lemma range_marks (h : start < «end») : Marks P v (covered v start «end») (range start «end» v) := by
  unfold range
  refine Marks.ite (fun hs => ?_) fun hs => ?_
  · refine Marks.pure.congr (Set.eq_empty_of_forall_notMem fun page hp => ?_).symm
    -- no page of the bitmap lies behind the limit
    simp only [covered, Inside, Meets, pageCount, physicalLimit, pageSize, Set.mem_ofPred_eq] at hp hs
    split at hp <;> omega
  · have hup : (if v = true then start else if «end» > physicalLimit then physicalLimit else «end») + pageSize <
        2 ^ 64 := by
      unfold physicalLimit pageSize at *
      split <;> [skip; split] <;> omega
    refine Marks.fits_bind hup fun b => ⟨.refl, ⟨_, rfl⟩, by simp, fun _ _ => ?_⟩
    rw [modify_run, pages_setRange]
    congr 1
    ext page
    simp only [covered, Set.mem_ofPred_eq]
    unfold Inside Meets
    unfold pageCount physicalLimit pageSize at *
    cases v <;> simp only [Bool.false_eq_true, if_false, if_true] <;> split <;> omega

lemma reserve_marks : Marks P false (covered false address (address + bytes)) (reserve address bytes) := by
  unfold reserve
  refine Marks.ite (fun _ => Marks.fail_bind) fun hr => ?_
  have hfit : address + bytes < 2 ^ 64 := by
    unfold addressSpaceEnd at hr
    omega
  refine Marks.ite (fun hb => Marks.fits_bind hfit (range_marks (by omega))) fun hb => ?_
  refine Marks.pure.congr (Set.eq_empty_of_forall_notMem fun page hp => ?_).symm
  have := hp.2.1
  omega

lemma reserve_ok {u : Unit} (h : ((reserve address bytes).run b).1 = .ok u) :
    address + bytes ≤ addressSpaceEnd := by
  by_contra hlt
  unfold reserve at h
  rw [if_pos (by omega)] at h
  cases h

/-! ## The memory map -/

lemma u64_lt {memory : Mem} {i : Nat} : u64 memory i < 2 ^ 64 := by
  have h1 := u32_lt (m := memory) (i := i)
  have h2 := u32_lt (m := memory) (i := i + 4)
  unfold u64
  omega

def mapEntry (memory : Mem) (i : MultibootInfo) (offset : Nat) : MmapEntry := .read memory (i.mmapAddr + offset)

/-- The walk over the map meets the entry at `o'` when it starts at `o`. -/
inductive EntryFrom (memory : Mem) (i : MultibootInfo) : Nat → Nat → Prop where
  | here {o} : o < i.mmapLength → EntryFrom memory i o o
  | next {o o'} : o < i.mmapLength → EntryFrom memory i (o + ((mapEntry memory i o).size + 4)) o' →
    EntryFrom memory i o o'

/-- The pages that one pass of the walk from `offset` marks. -/
def entryPages (memory : Mem) (i : MultibootInfo) (available : Bool) (offset : Nat) : Set Nat :=
  {page | ∃ o, EntryFrom memory i offset o ∧ (mapEntry memory i o).length ≠ 0 ∧
    ((mapEntry memory i o).type = 1 ↔ available = true) ∧
    page ∈ covered available (mapEntry memory i o).address
      ((mapEntry memory i o).address + (mapEntry memory i o).length)}

lemma entryPages_step {memory : Mem} {i : MultibootInfo} (h : offset < i.mmapLength) :
    entryPages memory i v offset = {page | ((mapEntry memory i offset).length ≠ 0 ∧
      ((mapEntry memory i offset).type = 1 ↔ v = true)) ∧ page ∈ covered v (mapEntry memory i offset).address
        ((mapEntry memory i offset).address + (mapEntry memory i offset).length)} ∪
      entryPages memory i v (offset + ((mapEntry memory i offset).size + 4)) := by
  ext page
  constructor
  · rintro ⟨o, he, h1, h2, hp⟩
    cases he with
    | here => exact .inl ⟨⟨h1, h2⟩, hp⟩
    | next _ he => exact .inr ⟨o, he, h1, h2, hp⟩
  · rintro (⟨⟨h1, h2⟩, hp⟩ | ⟨o, he, h1, h2, hp⟩)
    · exact ⟨offset, .here h, h1, h2, hp⟩
    · exact ⟨o, .next h he, h1, h2, hp⟩

lemma mapLoop_marks {memory : Mem} {i : MultibootInfo} (hlen : i.mmapLength < 2 ^ 32)
    (hfit : i.mmapAddr + i.mmapLength ≤ addressSpaceEnd) (hoff : offset ≤ i.mmapLength)
    (hfuel : i.mmapLength < fuel + offset) :
    Marks P v (entryPages memory i v offset) (mapLoop memory i v fuel offset) := by
  unfold addressSpaceEnd at hfit
  induction fuel generalizing offset with
  | zero => omega
  | succ fuel ih =>
    unfold mapLoop
    refine Marks.ite (fun hend => ?_) fun hin => ?_
    · refine Marks.pure.congr (Set.eq_empty_of_forall_notMem fun page hp => ?_).symm
      obtain ⟨o, he, -⟩ := hp
      cases he <;> omega
    · have hlt : offset < i.mmapLength := by omega
      have hsize : (mapEntry memory i offset).size < 2 ^ 32 := u32_lt
      rw [entryPages_step hlt]
      refine Marks.ite (fun _ => Marks.fail_bind) fun _ => Marks.fits_bind (by omega) ?_
      refine Marks.fits_bind (show (mapEntry memory i offset).size + 4 < 2 ^ 64 by omega) ?_
      refine Marks.ite (fun _ => Marks.fail_bind) fun hok => ?_
      change ¬((mapEntry memory i offset).size < 20 ∨ (mapEntry memory i offset).size + 4 > i.mmapLength - offset ∨
        (mapEntry memory i offset).length > 2 ^ 64 - 1 - (mapEntry memory i offset).address) at hok
      have haddr : (mapEntry memory i offset).address < 2 ^ 64 := u64_lt
      -- the walk goes on behind the entry, whether or not it was marked
      have hnext : Marks P v (entryPages memory i v (offset + ((mapEntry memory i offset).size + 4)))
          (fit 32 (offset + ((mapEntry memory i offset).size + 4)) >>= fun offset => mapLoop memory i v fuel offset) :=
        Marks.fits_bind (by omega) (ih (by omega) (by omega))
      refine Marks.cond (fun hc => Marks.fits_bind ?_ (Marks.bind (range_marks ?_) fun _ => hnext)) hnext
      · show (mapEntry memory i offset).address + (mapEntry memory i offset).length < 2 ^ 64
        omega
      · have := hc.1
        omega

lemma mapPass_marks {memory : Mem} {i : MultibootInfo} (hlen : i.mmapLength < 2 ^ 32)
    (hfit : i.mmapAddr + i.mmapLength ≤ addressSpaceEnd) :
    Marks P v (entryPages memory i v 0) (mapPass memory i v) :=
  mapLoop_marks hlen hfit (Nat.zero_le _) (by omega)

/-! ## Reservations -/

section blocked
variable {R R' : Nat → Nat → Prop}

/-- The pages that meet a range of `R`. -/
def blocked (R : Nat → Nat → Prop) : Set Nat :=
  {page | page < pageCount ∧ ∃ start «end», R start «end» ∧ Meets start «end» page}

/-- The single range `[start, end)`. -/
def Range (start «end» s e : Nat) : Prop := s = start ∧ e = «end»

lemma blocked_range : blocked (Range start «end») = covered false start «end» := by
  ext page
  constructor
  · rintro ⟨hp, s, e, ⟨rfl, rfl⟩, hm⟩
    exact ⟨hp, hm⟩
  · rintro ⟨hp, hm⟩
    exact ⟨hp, start, «end», ⟨rfl, rfl⟩, hm⟩

lemma blocked_or : blocked (fun s e => R s e ∨ R' s e) = blocked R ∪ blocked R' := by
  ext page
  constructor
  · rintro ⟨hp, s, e, h | h, hm⟩
    · exact .inl ⟨hp, s, e, h, hm⟩
    · exact .inr ⟨hp, s, e, h, hm⟩
  · rintro (⟨hp, s, e, h, hm⟩ | ⟨hp, s, e, h, hm⟩)
    · exact ⟨hp, s, e, .inl h, hm⟩
    · exact ⟨hp, s, e, .inr h, hm⟩

lemma blocked_and : blocked (fun s e => c ∧ R s e) = {page | c ∧ page ∈ blocked R} := by
  ext page
  constructor
  · rintro ⟨hp, s, e, ⟨hc, h⟩, hm⟩
    exact ⟨hc, hp, s, e, h, hm⟩
  · rintro ⟨hc, hp, s, e, h, hm⟩
    exact ⟨hp, s, e, ⟨hc, h⟩, hm⟩

lemma blocked_false : blocked (fun _ _ => False) = ∅ :=
  Set.eq_empty_of_forall_notMem fun _ ⟨_, _, _, h, _⟩ => h

/-- The program blocks the ranges of `R`. -/
def Blocks (P : Prop) (R : Nat → Nat → Prop) (m : BootM α) : Prop := Marks P false (blocked R) m

namespace Blocks

lemma pure {a : α} : Blocks P (fun _ _ => False) (Pure.pure a) := Marks.pure.congr blocked_false.symm

lemma congr (h : Blocks P R m) (e : ∀ s e, R s e ↔ R' s e) : Blocks P R' m := by
  have : R = R' := by
    funext s t
    exact propext (e s t)
  exact this ▸ h

lemma reserve : Blocks P (Range address (address + bytes)) (reserve address bytes) :=
  reserve_marks.congr blocked_range.symm

lemma reserve_bind {f : Unit → BootM β} (hf : address + bytes ≤ addressSpaceEnd → ∀ u, Blocks P R (f u)) :
    Blocks P (fun s e => Range address (address + bytes) s e ∨ R s e) (Mm.reserve address bytes >>= f) :=
  (Marks.bind_of reserve (fun _ _ h => reserve_ok h) hf).congr blocked_or.symm

lemma bind {f : α → BootM β} (hm : Blocks P R m) (hf : ∀ a, Blocks P R' (f a)) :
    Blocks P (fun s e => R s e ∨ R' s e) (m >>= f) :=
  (Marks.bind hm hf).congr blocked_or.symm

lemma cond [Decidable c] {n : BootM α} (ht : c → Blocks P (fun s e => R s e ∨ R' s e) m)
    (hf : Blocks P R' n) : Blocks P (fun s e => (c ∧ R s e) ∨ R' s e) (if c then m else n) :=
  (Marks.cond (fun hc => Marks.congr (ht hc) blocked_or) hf).congr (by rw [blocked_or, blocked_and])

lemma last [Decidable c] {m : BootM Unit} (ht : c → Blocks P R m) :
    Blocks P (fun s e => c ∧ R s e) (if c then m else Pure.pure ()) :=
  (Marks.last ht).congr blocked_and.symm

end Blocks

end blocked

/-- The string at `address` with its NUL; a null pointer is no string. -/
def StringRange (memory : Mem) (address start «end» : Nat) : Prop :=
  address ≠ 0 ∧ start = address ∧
    ∃ n, (∀ k < n, memory (address + k) ≠ 0) ∧ memory (address + n) = 0 ∧ «end» = address + (n + 1)

lemma stringLoop_blocks {memory : Mem} {size : Nat} (ha : address ≠ 0) (hlt : address < 2 ^ 32)
    (hbound : fuel + size ≤ pageSize) (hpre : ∀ k < size, memory (address + k) ≠ 0) :
    Blocks P (StringRange memory address) (stringLoop memory address fuel size) := by
  induction fuel generalizing size with
  | zero => exact Marks.fail
  | succ fuel ih =>
    unfold pageSize at hbound
    unfold stringLoop
    refine Marks.fits_bind (by omega) (Marks.ite (fun _ => Marks.fail_bind) fun _ => ?_)
    refine Marks.ite (fun hz => Marks.fits_bind (by omega) (Blocks.reserve.congr fun s e => ?_)) fun hz => ?_
    · constructor
      · rintro ⟨rfl, rfl⟩
        exact ⟨ha, rfl, size, hpre, hz, rfl⟩
      · rintro ⟨-, rfl, n, h1, h2, rfl⟩
        obtain rfl : n = size := by
          rcases Nat.lt_trichotomy n size with hn | hn | hn
          · exact absurd h2 (hpre n hn)
          · exact hn
          · exact absurd hz (h1 size hn)
        exact ⟨rfl, rfl⟩
    · refine ih (by unfold pageSize; omega) fun k hk => ?_
      by_cases hks : k = size
      · rwa [hks]
      · exact hpre k (by omega)

lemma reserveString_blocks {memory : Mem} (hlt : address < 2 ^ 32) :
    Blocks P (StringRange memory address) (reserveString memory address) := by
  unfold reserveString
  refine Marks.ite (fun h0 => ?_) fun h0 => stringLoop_blocks h0 hlt (by omega) nofun
  exact Blocks.pure.congr fun s e => ⟨False.elim, fun h => h.1 h0⟩

/-- The contents and the string of module `k`. -/
def ModuleRange (memory : Mem) (i : MultibootInfo) (k start «end» : Nat) : Prop :=
  Range (u32 memory (i.modsAddr + k * 16)) (u32 memory (i.modsAddr + k * 16 + 4)) start «end» ∨
    StringRange memory (u32 memory (i.modsAddr + k * 16 + 8)) start «end»

/-- The payload of section `k`; the addresses in its header are 32-bit sums. -/
def SectionRange (memory : Mem) (i : MultibootInfo) (k start «end» : Nat) : Prop :=
  u32 memory ((i.symbols2 + k * i.symbols1 + 12) % 2 ^ 32) ≠ 0 ∧
    Range (u32 memory ((i.symbols2 + k * i.symbols1 + 12) % 2 ^ 32))
      (u32 memory ((i.symbols2 + k * i.symbols1 + 12) % 2 ^ 32) +
        u32 memory ((i.symbols2 + k * i.symbols1 + 20) % 2 ^ 32)) start «end»

/-- One of the ranges with numbers from `k` on, `n` of them. -/
def Some (R : Nat → Nat → Nat → Prop) (k n start «end» : Nat) : Prop := ∃ j, k ≤ j ∧ j < k + n ∧ R j start «end»

lemma some_zero {R : Nat → Nat → Nat → Prop} {s : Nat} : Some R k 0 s e ↔ False :=
  ⟨fun ⟨_, h1, h2, _⟩ => by omega, False.elim⟩

lemma some_succ {R : Nat → Nat → Nat → Prop} {s : Nat} : Some R k (n + 1) s e ↔ R k s e ∨ Some R (k + 1) n s e := by
  constructor
  · rintro ⟨j, h1, h2, h⟩
    by_cases hj : j = k
    · exact .inl (hj ▸ h)
    · exact .inr ⟨j, by omega, by omega, h⟩
  · rintro (h | ⟨j, h1, h2, h⟩)
    · exact ⟨k, le_rfl, by omega, h⟩
    · exact ⟨j, by omega, by omega, h⟩

lemma moduleLoop_blocks {memory : Mem} {i : MultibootInfo} (hfit : i.modsAddr + (k + fuel) * 16 ≤ addressSpaceEnd) :
    Blocks P (Some (ModuleRange memory i) k fuel) (moduleLoop memory i fuel k) := by
  unfold addressSpaceEnd at hfit
  induction fuel generalizing k with
  | zero => exact Blocks.pure.congr fun s e => some_zero.symm
  | succ fuel ih =>
    unfold moduleLoop
    refine Marks.fits_bind (by omega) (Marks.ite (fun _ => Marks.fail_bind) fun hle => ?_)
    have hend : u32 memory (i.modsAddr + k * 16) + (u32 memory (i.modsAddr + k * 16 + 4) -
        u32 memory (i.modsAddr + k * 16)) = u32 memory (i.modsAddr + k * 16 + 4) := by omega
    refine Blocks.congr (Blocks.reserve_bind fun _ _ => Blocks.bind (reserveString_blocks u32_lt) fun _ =>
      ih (k := k + 1) (by omega)) fun s e => ?_
    rw [hend, some_succ, ModuleRange, or_assoc]

lemma sectionLoop_blocks {memory : Mem} {i : MultibootInfo}
    (hfit : P → ∀ j < k + fuel, i.symbols2 + j * i.symbols1 + 20 < 2 ^ 32) :
    Blocks P (Some (SectionRange memory i) k fuel) (sectionLoop memory i fuel k) := by
  induction fuel generalizing k with
  | zero => exact Blocks.pure.congr fun s e => some_zero.symm
  | succ fuel ih =>
    have hk : P → i.symbols2 + k * i.symbols1 + 20 < 2 ^ 32 := fun hP => hfit hP k (by omega)
    have hnext : Blocks P (Some (SectionRange memory i) (k + 1) fuel) (sectionLoop memory i fuel (k + 1)) :=
      ih fun hP j hj => hfit hP j (by omega)
    unfold sectionLoop
    refine Marks.fit_bind (fun hP => by have := hk hP; omega) (Marks.fit_bind hk ?_)
    refine Blocks.congr (Blocks.cond (fun _ => Blocks.reserve_bind fun _ _ => hnext) hnext) fun s e => ?_
    rw [some_succ, SectionRange]

/-! ## The boot data -/

variable {memory : Mem} {i : MultibootInfo} {info kernelStart kernelEnd : Nat}

structure Fields (i : MultibootInfo) : Prop where
  cmdline : i.cmdline < 2 ^ 32
  modsCount : i.modsCount < 2 ^ 32
  symbols0 : i.symbols0 < 2 ^ 32
  symbols1 : i.symbols1 < 2 ^ 32
  mmapLength : i.mmapLength < 2 ^ 32
  mmapAddr : i.mmapAddr < 2 ^ 32
  configTable : i.configTable < 2 ^ 32
  bootLoaderName : i.bootLoaderName < 2 ^ 32
  vbeInterfaceSeg : i.vbeInterfaceSeg < 2 ^ 16
  vbeInterfaceOff : i.vbeInterfaceOff < 2 ^ 16
  framebufferAddr : i.framebufferAddr < 2 ^ 64
  framebufferPitch : i.framebufferPitch < 2 ^ 32
  framebufferHeight : i.framebufferHeight < 2 ^ 32
  colors : i.colors < 2 ^ 16

lemma fields_read {a : Nat} : Fields (.read memory a) :=
  ⟨u32_lt, u32_lt, u32_lt, u32_lt, u32_lt, u32_lt, u32_lt, u32_lt, u16_lt, u16_lt, u64_lt, u32_lt, u32_lt, u16_lt⟩

/-- An ELF section table with headers of no bytes, a field of which lies behind the end of the address space. -/
def LateHeaders (i : MultibootInfo) : Prop :=
  i.flags.testBit 5 = true ∧ i.symbols0 ≠ 0 ∧ i.symbols1 = 0 ∧ 2 ^ 32 ≤ i.symbols2 + 20

/-- The ranges the kernel must not hand out: the low memory, its own image, and what the boot loader left. -/
inductive Taken (memory : Mem) (info : Nat) (i : MultibootInfo) (kernelStart kernelEnd : Nat) : Nat → Nat → Prop where
  | low : Taken memory info i kernelStart kernelEnd 0 lowReservedEnd
  | kernel : Taken memory info i kernelStart kernelEnd kernelStart kernelEnd
  | information : Taken memory info i kernelStart kernelEnd info (info + infoSize)
  | map : Taken memory info i kernelStart kernelEnd i.mmapAddr (i.mmapAddr + i.mmapLength)
  | cmdline {s e} : i.flags.testBit 2 = true → StringRange memory i.cmdline s e →
    Taken memory info i kernelStart kernelEnd s e
  | loader {s e} : i.flags.testBit 9 = true → StringRange memory i.bootLoaderName s e →
    Taken memory info i kernelStart kernelEnd s e
  | moduleTable : i.flags.testBit 3 = true →
    Taken memory info i kernelStart kernelEnd i.modsAddr (i.modsAddr + i.modsCount * 16)
  | module {s e k} : i.flags.testBit 3 = true → k < i.modsCount → ModuleRange memory i k s e →
    Taken memory info i kernelStart kernelEnd s e
  | symbolTable : i.flags.testBit 4 = true →
    Taken memory info i kernelStart kernelEnd i.symbols2 (i.symbols2 + (i.symbols0 + i.symbols1))
  | sectionHeaders : i.flags.testBit 5 = true →
    Taken memory info i kernelStart kernelEnd i.symbols2 (i.symbols2 + i.symbols0 * i.symbols1)
  | section {s e k} : i.flags.testBit 5 = true → k < i.symbols0 → SectionRange memory i k s e →
    Taken memory info i kernelStart kernelEnd s e
  | drives : i.flags.testBit 7 = true →
    Taken memory info i kernelStart kernelEnd i.drivesAddr (i.drivesAddr + i.drivesLength)
  | configuration : i.flags.testBit 8 = true → i.configTable ≠ 0 →
    Taken memory info i kernelStart kernelEnd i.configTable (i.configTable + (u16 memory i.configTable + 2))
  | apm : i.flags.testBit 10 = true → Taken memory info i kernelStart kernelEnd i.apmTable (i.apmTable + 20)
  | vbeControl : i.flags.testBit 11 = true →
    Taken memory info i kernelStart kernelEnd i.vbeControlInfo (i.vbeControlInfo + 512)
  | vbeMode : i.flags.testBit 11 = true →
    Taken memory info i kernelStart kernelEnd i.vbeModeInfo (i.vbeModeInfo + 256)
  | vbeInterface : i.flags.testBit 11 = true →
    Taken memory info i kernelStart kernelEnd (i.vbeInterfaceSeg * 16 + i.vbeInterfaceOff)
      (i.vbeInterfaceSeg * 16 + i.vbeInterfaceOff + i.vbeInterfaceLen)
  | framebuffer : i.flags.testBit 12 = true → i.framebufferPitch * i.framebufferHeight ≠ 0 →
    Taken memory info i kernelStart kernelEnd i.framebufferAddr
      (i.framebufferAddr + i.framebufferPitch * i.framebufferHeight)
  | palette : i.flags.testBit 12 = true → i.framebufferType = 0 →
    Taken memory info i kernelStart kernelEnd i.palette (i.palette + i.colors * 3)

lemma reserveStrings_blocks (hf : Fields i) : Blocks P (fun s e =>
    (i.flags.testBit 2 = true ∧ StringRange memory i.cmdline s e) ∨
    (i.flags.testBit 9 = true ∧ StringRange memory i.bootLoaderName s e)) (reserveStrings memory i) := by
  have hlast : Blocks P (fun s e => i.flags.testBit 9 = true ∧ StringRange memory i.bootLoaderName s e)
      (if i.flags.testBit 9 = true then reserveString memory i.bootLoaderName else pure ()) :=
    Blocks.last fun _ => reserveString_blocks hf.bootLoaderName
  exact Blocks.cond (fun _ => Blocks.bind (reserveString_blocks hf.cmdline) fun _ => hlast) hlast

lemma reserveModules_blocks (hf : Fields i) : Blocks P (fun s e => i.flags.testBit 3 = true ∧
    (Range i.modsAddr (i.modsAddr + i.modsCount * 16) s e ∨ Some (ModuleRange memory i) 0 i.modsCount s e))
    (reserveModules memory i) := by
  have hc := hf.modsCount
  refine Blocks.last fun _ => Marks.fits_bind (by omega) (Marks.ite (fun _ => Marks.fail_bind) fun _ => ?_)
  exact Blocks.reserve_bind fun hfit _ => moduleLoop_blocks (by rwa [Nat.zero_add])

lemma reserveSymbols_blocks (hf : Fields i) : Blocks (¬LateHeaders i) (fun s e =>
    (i.flags.testBit 4 = true ∧ Range i.symbols2 (i.symbols2 + (i.symbols0 + i.symbols1)) s e) ∨
    (i.flags.testBit 5 = true ∧ (Range i.symbols2 (i.symbols2 + i.symbols0 * i.symbols1) s e ∨
      Some (SectionRange memory i) 0 i.symbols0 s e))) (reserveSymbols memory i) := by
  have h0 := hf.symbols0
  have h1 := hf.symbols1
  have hmul : i.symbols0 * i.symbols1 < 2 ^ 64 := by
    calc i.symbols0 * i.symbols1 < 2 ^ 32 * 2 ^ 32 := Nat.mul_lt_mul'' h0 h1
      _ = 2 ^ 64 := by norm_num
  have hlast : Blocks (¬LateHeaders i) (fun s e => i.flags.testBit 5 = true ∧
      (Range i.symbols2 (i.symbols2 + i.symbols0 * i.symbols1) s e ∨ Some (SectionRange memory i) 0 i.symbols0 s e))
      (if i.flags.testBit 5 = true then do
        let bytes ← fit 64 (i.symbols0 * i.symbols1)
        if bytes ≠ 0 ∧ (i.symbols2 = 0 ∨ i.symbols1 < 40) then Prog.fail .invalid
        reserve i.symbols2 bytes
        sectionLoop memory i i.symbols0 0
      else pure ()) := by
    refine Blocks.last fun h5 => Marks.fits_bind hmul (Marks.ite (fun _ => Marks.fail_bind) fun hok => ?_)
    refine Blocks.reserve_bind fun hfit _ => sectionLoop_blocks fun hP j hj => ?_
    by_cases hne : i.symbols1 = 0
    · have hlt : ¬2 ^ 32 ≤ i.symbols2 + 20 := fun hle => hP ⟨h5, by omega, hne, hle⟩
      rw [hne, Nat.mul_zero]
      omega
    -- a header has at least 40 bytes, so what is read of it lies inside the table
    have hj' : (j + 1) * i.symbols1 ≤ i.symbols0 * i.symbols1 := Nat.mul_le_mul_right _ (by omega)
    have hpos : i.symbols0 * i.symbols1 ≠ 0 := Nat.mul_ne_zero (by omega) hne
    have h40 : ¬i.symbols1 < 40 := fun hlt => hok ⟨hpos, .inr hlt⟩
    rw [Nat.add_mul, Nat.one_mul] at hj'
    unfold addressSpaceEnd at hfit
    omega
  refine Marks.ite (fun _ => Marks.fail_bind) fun _ => ?_
  exact Blocks.cond (fun _ => Marks.fits_bind (by omega) (Blocks.reserve_bind fun _ _ => hlast)) hlast

lemma reserveDrives_blocks : Blocks P (fun s e => i.flags.testBit 7 = true ∧
    Range i.drivesAddr (i.drivesAddr + i.drivesLength) s e) (reserveDrives i) :=
  Blocks.last fun _ => Blocks.reserve

lemma reserveConfiguration_blocks (hf : Fields i) : Blocks P (fun s e =>
    (i.flags.testBit 8 = true ∧ i.configTable ≠ 0) ∧
      Range i.configTable (i.configTable + (u16 memory i.configTable + 2)) s e) (reserveConfiguration memory i) := by
  have h1 := hf.configTable
  have h2 := u16_lt (m := memory) (i := i.configTable)
  refine Blocks.last fun _ => Marks.fits_bind (by omega) (Marks.ite (fun _ => Marks.fail_bind) fun _ => ?_)
  exact Marks.fits_bind (by omega) Blocks.reserve

lemma reserveApm_blocks : Blocks P (fun s e => i.flags.testBit 10 = true ∧ Range i.apmTable (i.apmTable + 20) s e)
    (reserveApm i) :=
  Blocks.last fun _ => Blocks.reserve

lemma reserveVbe_blocks (hf : Fields i) : Blocks P (fun s e => i.flags.testBit 11 = true ∧
    (Range i.vbeControlInfo (i.vbeControlInfo + 512) s e ∨ Range i.vbeModeInfo (i.vbeModeInfo + 256) s e ∨
      Range (i.vbeInterfaceSeg * 16 + i.vbeInterfaceOff)
        (i.vbeInterfaceSeg * 16 + i.vbeInterfaceOff + i.vbeInterfaceLen) s e)) (reserveVbe i) := by
  have h1 := hf.vbeInterfaceSeg
  have h2 := hf.vbeInterfaceOff
  refine Blocks.last fun _ => Blocks.reserve_bind fun _ _ => Blocks.reserve_bind fun _ _ => ?_
  exact Marks.fits_bind (by omega) Blocks.reserve

lemma reserveFramebuffer_blocks (hf : Fields i) : Blocks P (fun s e => i.flags.testBit 12 = true ∧
    ((i.framebufferPitch * i.framebufferHeight ≠ 0 ∧
      Range i.framebufferAddr (i.framebufferAddr + i.framebufferPitch * i.framebufferHeight) s e) ∨
    (i.framebufferType = 0 ∧ Range i.palette (i.palette + i.colors * 3) s e))) (reserveFramebuffer i) := by
  have h1 := hf.framebufferAddr
  have h2 := hf.colors
  have hmul : i.framebufferPitch * i.framebufferHeight < 2 ^ 64 := by
    calc i.framebufferPitch * i.framebufferHeight < 2 ^ 32 * 2 ^ 32 :=
          Nat.mul_lt_mul'' hf.framebufferPitch hf.framebufferHeight
      _ = 2 ^ 64 := by norm_num
  have hlast : Blocks P (fun s e => i.framebufferType = 0 ∧ Range i.palette (i.palette + i.colors * 3) s e)
      (if i.framebufferType = 0 then do
        let bytes ← fit 32 (i.colors * 3)
        reserve i.palette bytes
      else pure ()) := Blocks.last fun _ => Marks.fits_bind (by omega) Blocks.reserve
  refine Blocks.last fun _ => Marks.fits_bind hmul (Marks.ite (fun _ => Marks.fail_bind) fun hle => ?_)
  refine Blocks.cond (fun hne => Marks.fits_bind (by omega) (Blocks.bind ?_ fun _ => hlast)) hlast
  exact (range_marks (by omega)).congr blocked_range.symm

lemma reservations_block (hf : Fields i) (hk : kernelStart ≤ kernelEnd) :
    Blocks (¬LateHeaders i) (Taken memory info i kernelStart kernelEnd) (do
      reserve 0 lowReservedEnd
      reserve kernelStart (kernelEnd - kernelStart)
      reserveBootData memory info i) := by
  refine Blocks.congr (Blocks.reserve_bind fun _ _ => Blocks.reserve_bind fun _ _ => Blocks.reserve_bind fun _ _ =>
    Blocks.reserve_bind fun _ _ => Blocks.bind (reserveStrings_blocks hf) fun _ =>
    Blocks.bind (reserveModules_blocks hf) fun _ => Blocks.bind (reserveSymbols_blocks hf) fun _ =>
    Blocks.bind reserveDrives_blocks fun _ => Blocks.bind (reserveConfiguration_blocks hf) fun _ =>
    Blocks.bind reserveApm_blocks fun _ => Blocks.bind (reserveVbe_blocks hf) fun _ =>
    reserveFramebuffer_blocks hf) fun s e => ?_
  constructor
  · rintro (⟨rfl, rfl⟩ | ⟨rfl, rfl⟩ | ⟨rfl, rfl⟩ | ⟨rfl, rfl⟩ | (⟨h, hr⟩ | ⟨h, hr⟩) | ⟨h, ⟨rfl, rfl⟩ | ⟨k, -, hk, hr⟩⟩ |
      (⟨h, rfl, rfl⟩ | ⟨h, ⟨rfl, rfl⟩ | ⟨k, -, hk, hr⟩⟩) | ⟨h, rfl, rfl⟩ | ⟨h, rfl, rfl⟩ | ⟨h, rfl, rfl⟩ |
      ⟨h, ⟨rfl, rfl⟩ | ⟨rfl, rfl⟩ | ⟨rfl, rfl⟩⟩ | ⟨h, ⟨hn, rfl, rfl⟩ | ⟨ht, rfl, rfl⟩⟩)
    · rw [Nat.zero_add]
      exact .low
    · rw [Nat.add_sub_cancel' hk]
      exact .kernel
    · exact .information
    · exact .map
    · exact .cmdline h hr
    · exact .loader h hr
    · exact .moduleTable h
    · exact .module h (by omega) hr
    · exact .symbolTable h
    · exact .sectionHeaders h
    · exact .section h (by omega) hr
    · exact .drives h
    · exact .configuration h.1 h.2
    · exact .apm h
    · exact .vbeControl h
    · exact .vbeMode h
    · exact .vbeInterface h
    · exact .framebuffer h hn
    · exact .palette h ht
  · intro h
    cases h with
    | low => exact .inl ⟨rfl, (Nat.zero_add _).symm⟩
    | kernel => exact .inr (.inl ⟨rfl, (Nat.add_sub_cancel' hk).symm⟩)
    | information => exact .inr (.inr (.inl ⟨rfl, rfl⟩))
    | map => exact .inr (.inr (.inr (.inl ⟨rfl, rfl⟩)))
    | cmdline h hr => simp [h, hr]
    | loader h hr => simp [h, hr]
    | moduleTable h => simp [h, Range]
    | @module s e k h hk hr =>
      have : Some (ModuleRange memory i) 0 i.modsCount s e := ⟨k, Nat.zero_le k, by omega, hr⟩
      simp [h, this]
    | symbolTable h => simp [h, Range]
    | sectionHeaders h => simp [h, Range]
    | @«section» s e k h hk hr =>
      have : Some (SectionRange memory i) 0 i.symbols0 s e := ⟨k, Nat.zero_le k, by omega, hr⟩
      simp [h, this]
    | drives h => simp [h, Range]
    | configuration h hn => simp [h, hn, Range]
    | apm h => simp [h, Range]
    | vbeControl h => simp [h, Range]
    | vbeMode h => simp [h, Range]
    | vbeInterface h => simp [h, Range]
    | framebuffer h hn => simp [h, hn, Range]
    | palette h ht => simp [h, ht, Range]

/-! ## `pmm_initialize` -/

/-- A program of `pmm_initialize` started in `b`: it wraps no sum when `P` holds, comes to an end, leaves the
allocator unusable when it fails and ends in `Q` when it succeeds. -/
def Boots (P : Prop) (b : Boot) (m : BootM α) (Q : Boot → Prop) : Prop :=
  Kept P b.wrapped (m.run b).2.wrapped ∧ (m.run b).1 ≠ .error .unfinished ∧
    (∀ e, (m.run b).1 = .error e → (m.run b).2.pmm.ready = false) ∧ ∀ a, (m.run b).1 = .ok a → Q (m.run b).2

namespace Boots

variable {Q : Boot → Prop}

lemma fail_bind {f : α → BootM β} (hr : b.pmm.ready = false) : Boots P b (Prog.fail .invalid >>= f) Q :=
  ⟨.refl, nofun, fun _ _ => hr, nofun⟩

lemma ite [Decidable c] {n : BootM α} (ht : c → Boots P b m Q) (hf : ¬c → Boots P b n Q) :
    Boots P b (if c then m else n) Q := by
  split
  · exact ht ‹_›
  · exact hf ‹_›

lemma get_bind {f : Boot → BootM α} (h : Boots P b (f b) Q) : Boots P b (Prog.get >>= f) Q := h

lemma modify (hu : ∀ b, u b = { b with pmm := g b.pmm })
    (h : ∀ b', b'.pmm = g b.pmm → Q b') : Boots P b (Prog.modify u) Q := by
  have hw : (u b).wrapped = b.wrapped := by rw [hu]
  exact ⟨hw ▸ .refl, nofun, nofun, fun _ _ => h (u b) (by rw [hu])⟩

lemma modify_bind {f : Unit → BootM α} (hu : ∀ b, u b = { b with pmm := g b.pmm })
    (h : ∀ b', b'.pmm = g b.pmm → Boots P b' (f ()) Q) : Boots P b (Prog.modify u >>= f) Q := by
  have hw : (u b).wrapped = b.wrapped := by rw [hu]
  obtain ⟨h1, h2⟩ := h (u b) (by rw [hu])
  exact ⟨hw ▸ h1, h2⟩

lemma fits_bind {f : Nat → BootM α} (hn : n < 2 ^ w) (h : Boots P b (f n) Q) : Boots P b (fit w n >>= f) Q := by
  have hrun : (fit w n >>= f).run b = (f n).run b := by
    unfold fit
    rw [if_neg (Nat.not_le.mpr hn), Nat.mod_eq_of_lt hn]
    rfl
  unfold Boots
  rw [hrun]
  exact h

lemma marks_bind {f : α → BootM β} (hm : Marks P v A m) (hr : b.pmm.ready = false)
    (hf : ∀ a b', b'.pmm.ready = false → b'.pmm.limit = b.pmm.limit → b'.pmm.allocated = b.pmm.allocated →
      b'.pages = mark v b.pages A → Boots P b' (f a) Q) : Boots P b (m >>= f) Q := by
  obtain ⟨h1, ⟨managed, h2⟩, h3, h4⟩ := hm b
  unfold Boots
  rw [bind_run]
  rcases hrun : m.run b with ⟨r, b'⟩
  rw [hrun] at h1 h2 h3 h4
  simp only at h2
  cases r with
  | error e => exact ⟨h1, fun h => h3 (by simpa using h), fun _ _ => by rw [h2]; exact hr, nofun⟩
  | ok a =>
    obtain ⟨k1, k2, k3, k4⟩ := hf a b' (by rw [h2]; exact hr) (by rw [h2]) (by rw [h2]) (h4 a rfl)
    exact ⟨h1.trans k1, k2, k3, k4⟩

end Boots

lemma usable_limit (managed : Bitmap) : (usable managed).2 ≤ physicalLimit ∧ (usable managed).2 % pageSize = 0 ∧
    ∀ page < pageCount, managed.bit page = true → page < (usable managed).2 / pageSize := by
  have key : ∀ n, ((List.range n).foldl (fun r page => if managed.bit page then (r.1 + 1, (page + 1) * pageSize) else r)
      ((0, 0) : Nat × Nat)).2 ≤ n * pageSize ∧ ((List.range n).foldl (fun r page => if managed.bit page then
      (r.1 + 1, (page + 1) * pageSize) else r) ((0, 0) : Nat × Nat)).2 % pageSize = 0 ∧
      ∀ page < n, managed.bit page = true → page < ((List.range n).foldl (fun r page => if managed.bit page then
      (r.1 + 1, (page + 1) * pageSize) else r) ((0, 0) : Nat × Nat)).2 / pageSize := by
    intro n
    induction n with
    | zero => simp
    | succ n ih =>
      rw [List.range_succ, List.foldl_append]
      simp only [List.foldl_cons, List.foldl_nil]
      generalize (List.range n).foldl (fun r page => if managed.bit page then (r.1 + 1, (page + 1) * pageSize) else r)
        ((0, 0) : Nat × Nat) = r at ih
      unfold pageSize at *
      obtain ⟨h1, h2, h3⟩ := ih
      split
      · refine ⟨by simp, by simp, fun page hp hb => ?_⟩
        simp only
        omega
      · refine ⟨h1.trans (Nat.mul_le_mul_right _ n.le_succ), h2, fun page hp hb => ?_⟩
        by_cases hn : page = n
        · subst hn
          contradiction
        · exact h3 page (by omega) hb
  have hle : pageCount * pageSize ≤ physicalLimit := Nat.div_mul_le_self physicalLimit pageSize
  unfold usable
  generalize pageCount = n at hle ⊢
  exact ⟨(key n).1.trans hle, (key n).2⟩

section measure

variable {s : Pmm} {r : Nat × Nat}

lemma Pmm.measure_managed : (s.measure r).managed = s.managed := rfl

lemma Pmm.measure_allocated : (s.measure r).allocated = s.allocated := rfl

lemma Pmm.measure_limit : (s.measure r).limit = r.2 := rfl

lemma Pmm.measure_limit_ne_zero (hp : page < pageCount) (hb : s.managed.bit page = true) :
    (s.measure (usable s.managed)).limit ≠ 0 := by
  rw [Pmm.measure_limit]
  have h := (usable_limit s.managed).2.2 page hp hb
  intro h0
  rw [h0, Nat.zero_div] at h
  exact Nat.not_lt_zero page h

end measure

/-- The page lies wholly inside one available entry of the map. -/
def Available (memory : Mem) (i : MultibootInfo) (page : Nat) : Prop :=
  ∃ o, EntryFrom memory i 0 o ∧ (mapEntry memory i o).type = 1 ∧
    Inside (mapEntry memory i o).address ((mapEntry memory i o).address + (mapEntry memory i o).length) page

/-- The page has a byte in common with a non-empty entry of another type, or with a range that is taken. -/
def Withheld (memory : Mem) (info : Nat) (i : MultibootInfo) (kernelStart kernelEnd page : Nat) : Prop :=
  (∃ o, EntryFrom memory i 0 o ∧ (mapEntry memory i o).type ≠ 1 ∧
    Meets (mapEntry memory i o).address ((mapEntry memory i o).address + (mapEntry memory i o).length) page) ∨
  ∃ start «end», Taken memory info i kernelStart kernelEnd start «end» ∧ Meets start «end» page

lemma managed_iff (hS : S = mark false (mark false (mark true ∅ (entryPages memory i true 0))
      (entryPages memory i false 0)) (blocked (Taken memory info i kernelStart kernelEnd))) :
    page ∈ S ↔ page < pageCount ∧ Available memory i page ∧ ¬Withheld memory info i kernelStart kernelEnd page := by
  rw [hS]
  simp only [mark, Bool.false_eq_true, if_false, if_true, Set.empty_union, Set.mem_sdiff, entryPages, covered, blocked,
    Available, Withheld, Set.mem_ofPred_eq]
  constructor
  · rintro ⟨⟨⟨o, h1, h2, h3, hp, h4⟩, hno⟩, htaken⟩
    refine ⟨hp, ⟨o, h1, h3.mpr trivial, h4⟩, ?_⟩
    rintro (⟨o, h1, h2, h3⟩ | ⟨start, «end», h1, h2⟩)
    · have := h3.1
      exact hno ⟨o, h1, by omega, by simp [h2], hp, h3⟩
    · exact htaken ⟨hp, start, «end», h1, h2⟩
  · rintro ⟨hp, ⟨o, h1, h2, h3⟩, hsafe⟩
    have hlen : (mapEntry memory i o).length ≠ 0 := by
      unfold Inside pageSize at h3
      omega
    refine ⟨⟨⟨o, h1, hlen, by simp [h2], hp, h3⟩, ?_⟩, ?_⟩
    · rintro ⟨o, h1, -, h3, -, h4⟩
      exact hsafe (.inl ⟨o, h1, by simpa using h3, h4⟩)
    · rintro ⟨-, start, «end», h1, h2⟩
      exact hsafe (.inr ⟨start, «end», h1, h2⟩)

lemma valid_initial {s : Pmm} (hS : ∀ page, s.managed.bit page = true → page < pageCount ∧
      lowReservedEnd / pageSize ≤ page ∧ page ∈ S) (hlimit : s.limit ≤ physicalLimit) (hmod : s.limit % pageSize = 0)
    (hsub : ∀ page < pageCount, page ∈ S → page < s.limit / pageSize) (hempty : s.allocated = .empty) :
    s.publish.Valid := by
  have hpages : ∀ page, s.managed.bit page = true → page < s.pages := fun page hp =>
    hsub page (hS page hp).1 (hS page hp).2.2
  have hle : s.pages ≤ pageCount := Nat.div_le_div_right hlimit
  refine ⟨rfl, hlimit, hmod, fun hp => ⟨(hS _ hp).2.1, hpages _ hp⟩, ?_, ?_,
    (by decide : lowReservedEnd / pageSize < pageCount), fun h => h⟩
  · intro page hp
    change s.allocated.bit page = true at hp
    rw [hempty, Bitmap.bit_empty] at hp
    cases hp
  · show (List.range s.pages).countP s.managed.bit = _
    have hfree : s.publish.free = (Finset.range s.pages).filter fun page => s.managed.bit page := by
      ext page
      simp only [Pmm.free, Pmm.publish, Pmm.isFree, hempty, Bitmap.bit_empty, Bool.not_false, Bool.and_true,
        Finset.mem_filter, Finset.mem_range]
      constructor
      · exact fun h => ⟨hpages page h.2, h.2⟩
      · exact fun h => ⟨by omega, h.2⟩
    rw [hfree, List.countP_eq_length_filter, Finset.card_def, Finset.filter_val, Finset.range_val, Multiset.range,
      Multiset.filter_coe, Multiset.coe_card]
    simp

lemma pmmInitialize_boots {info kernelStart kernelEnd : UInt32} : Boots (¬LateHeaders (.read memory info.toNat)) b
    (pmmInitialize memory info kernelStart kernelEnd) fun b' => b'.pmm.Valid ∧ ∀ page,
      b'.pmm.managed.bit page = true ↔ page < pageCount ∧ Available memory (.read memory info.toNat) page ∧
        ¬Withheld memory info.toNat (.read memory info.toNat) kernelStart.toNat kernelEnd.toNat page := by
  have hinfo : info.toNat < 2 ^ 32 := info.toNat_lt
  have hend : kernelEnd.toNat < 2 ^ 32 := kernelEnd.toNat_lt
  have hf : Fields (.read memory info.toNat) := fields_read
  have hlen := hf.mmapLength
  have haddr := hf.mmapAddr
  unfold pmmInitialize
  generalize MultibootInfo.read memory info.toNat = i at *
  refine Boots.modify_bind (g := fun s => { nextPage := s.nextPage }) (fun _ => rfl) fun b0 e0 => ?_
  have hready : b0.pmm.ready = false := by rw [e0]
  refine Boots.ite (fun _ => Boots.fail_bind hready) fun _ => ?_
  refine Boots.fits_bind (by unfold infoSize; omega) (Boots.ite (fun _ => Boots.fail_bind hready) fun _ => ?_)
  refine Boots.ite (fun _ => Boots.fail_bind hready) fun _ => Boots.fits_bind (by omega) ?_
  refine Boots.ite (fun _ => Boots.fail_bind hready) fun hmap =>
    Boots.ite (fun _ => Boots.fail_bind hready) fun hkernel => ?_
  -- the two passes over the map
  refine Boots.marks_bind (mapPass_marks hlen (by omega)) hready fun _ b1 hready _ a1 p1 => ?_
  refine Boots.marks_bind (mapPass_marks hlen (by omega)) hready fun _ b2 hready _ a2 p2 => ?_
  refine Boots.fits_bind (by unfold pageSize; omega)
    (Boots.get_bind (Boots.ite (fun _ => Boots.fail_bind hready) fun _ => ?_))
  refine Boots.modify_bind (g := fun s => s.measure (usable s.managed)) (fun _ => rfl) fun b2' e2' => ?_
  have hready : b2'.pmm.ready = false := by rw [e2', Pmm.measure, hready]
  refine Boots.get_bind (Boots.ite (fun _ => Boots.fail_bind hready) fun _ => ?_)
  -- the reservations are one program in front of the last assignment
  rw [← Prog.bind_assoc (f := fun _ => reserve _ _), ← Prog.bind_assoc, Prog.bind_assoc (m := reserve 0 _)]
  have hk : kernelStart.toNat ≤ kernelEnd.toNat := by omega
  refine Boots.marks_bind (reservations_block hf hk) hready fun _ b3 _ l3 a3 p3 =>
    Boots.modify (g := Pmm.publish) (fun _ => rfl) fun b4 e4 => ?_
  have hempty : b3.pmm.allocated = .empty := by rw [a3, e2', Pmm.measure_allocated, a2, a1, e0]
  have hsame : b2'.pages = b2.pages := by rw [Boot.pages, Boot.pages, e2', Pmm.measure_managed]
  obtain ⟨h1, h2, h3⟩ := usable_limit b2.pmm.managed
  rw [← Pmm.measure_limit (s := b2.pmm), ← e2', ← l3] at h1 h2 h3
  have hpages : ∀ page, page ∈ b3.pages ↔ page < pageCount ∧ Available memory i page ∧
      ¬Withheld memory info.toNat i kernelStart.toNat kernelEnd.toNat page := by
    intro page
    apply managed_iff
    have hnone : b0.pages = ∅ := by
      ext page
      simp [e0, Boot.pages, Bitmap.bit_empty]
    rw [p3, hsame, p2, p1, hnone]
  rw [e4]
  refine ⟨valid_initial (S := b2.pages) (fun page hp => ?_) h1 h2 h3 hempty, hpages⟩
  have hmem : page ∈ b3.pages := hp
  refine ⟨((hpages page).mp hmem).1, ?_, ?_⟩
  · by_contra hlow
    refine ((hpages page).mp hmem).2.2 (.inr ⟨_, _, .low, ?_⟩)
    unfold Meets
    unfold lowReservedEnd pageSize at *
    omega
  · rw [p3, hsame, mark, if_neg Bool.false_ne_true] at hmem
    exact hmem.1

/-! ## A sum that wraps -/

/-- Whenever the program succeeds, the record says that a sum has wrapped. -/
def Wraps (m : BootM α) : Prop := ∀ b a, (m.run b).1 = .ok a → (m.run b).2.wrapped = true

namespace Wraps

variable {f : α → BootM β}

lemma fail_bind : Wraps (Prog.fail .invalid >>= f) := fun _ => nofun

lemma ite [Decidable c] {n : BootM α} (ht : c → Wraps m) (hf : ¬c → Wraps n) : Wraps (if c then m else n) := by
  split
  · exact ht ‹_›
  · exact hf ‹_›

lemma bind (hf : ∀ a, Wraps (f a)) : Wraps (m >>= f) := by
  intro b c hc
  rw [bind_run] at hc ⊢
  generalize m.run b = r at hc ⊢
  rcases r with ⟨e | a, b'⟩
  · cases hc
  · exact hf a b' c hc

lemma fit (hn : 2 ^ w ≤ n) : Wraps (fit w n) := by
  intro b a _
  unfold Mm.fit
  rw [if_pos hn]
  rfl

end Wraps

/-- Memory with the information structure at 4096 and a map of one entry at 8192, three pages at 1 MiB. The
structure announces one section header of size 0 at `0xFFFFFFFC`. -/
def headerMemory : Mem := fun a =>
  ([(4096, 0x60), (4124, 1), (4132, 0xFC), (4133, 0xFF), (4134, 0xFF), (4135, 0xFF), (4140, 24), (4145, 0x20),
    (8192, 20), (8198, 0x10), (8205, 0x30), (8212, 1)].lookup a).getD 0

lemma headerMemory_available : (mapPass headerMemory (.read headerMemory 4096) true).run b =
    (.ok (), { b with pmm := { b.pmm with managed := b.pmm.managed.setRange 256 true 3 } }) := by
  rfl

lemma headerMemory_reserved : (mapPass headerMemory (.read headerMemory 4096) false).run b = (.ok (), b) := by
  rfl

lemma headerMemory_taken (h : b.pmm.managed = Bitmap.empty.setRange 256 true 3) : ∃ b', (do
    reserve 0 lowReservedEnd
    reserve 0x100000 0x1000
    reserveBootData headerMemory 4096 (.read headerMemory 4096)).run b = (.ok (), b') ∧ b'.wrapped = true ∧
      b'.pmm.managed.bit 257 = true ∧ b'.pmm.allocated = b.pmm.allocated := by
  refine ⟨_, rfl, rfl, ?_, rfl⟩
  simp only [Bitmap.bit_setRange, h]
  decide

/-- The program succeeds from `b`, one of its sums wraps, and the page 257 is free. -/
def Overflows (b : Boot) (m : BootM Unit) : Prop :=
  ∃ b', m.run b = (.ok (), b') ∧ b'.wrapped = true ∧ b'.pmm.isFree 257 = true

lemma Overflows.bind {a : α} {b' : Boot} {m : BootM α} {f : α → BootM Unit} (h : m.run b = (.ok a, b'))
    (hf : Overflows b' (f a)) : Overflows b (m >>= f) := by
  obtain ⟨b'', h', hw⟩ := hf
  exact ⟨b'', by rw [bind_run_ok h, h'], hw⟩

lemma Overflows.modify_bind {f : Unit → BootM Unit}
    (hu : ∀ b, u b = { b with pmm := g b.pmm }) (h : ∀ b', b'.pmm = g b.pmm → Overflows b' (f ())) :
    Overflows b (Prog.modify u >>= f) := .bind modify_run (h _ (by rw [hu]))

lemma Overflows.neg [Decidable c] {m n : BootM Unit} (hc : ¬c) (h : Overflows b n) :
    Overflows b (if c then m else n) := by
  rwa [if_neg hc]

lemma headerMemory_boots : Overflows {} (pmmInitialize headerMemory 4096 0x100000 0x101000) := by
  unfold pmmInitialize
  rw [show (4096 : UInt32).toNat = 4096 by rfl, show (0x100000 : UInt32).toNat = 0x100000 by rfl,
    show (0x101000 : UInt32).toNat = 0x101000 by rfl]
  refine .bind modify_run (.neg (by decide) (.bind (a := 4096 + infoSize) rfl (.neg (by decide) (.neg (by decide) ?_))))
  refine .bind (a := 8192 + 24) rfl (.neg (by decide) (.neg (by decide) ?_))
  refine .bind headerMemory_available (.bind headerMemory_reserved (.bind (a := 0x101000 + pageSize) rfl ?_))
  refine .bind get_run (.neg (by decide) ?_)
  refine .modify_bind (g := fun s => s.measure (usable s.managed)) (fun _ => rfl) fun b' e => .bind get_run (.neg ?_ ?_)
  · rw [e]
    exact Pmm.measure_limit_ne_zero (by decide : 256 < pageCount) (by decide)
  · rw [← Prog.bind_assoc (f := fun _ => reserve _ _), ← Prog.bind_assoc, Prog.bind_assoc (m := reserve 0 _)]
    obtain ⟨b'', h, hw, hm, ha⟩ := headerMemory_taken (b := b') (by rw [e]; rfl)
    refine .bind h ⟨_, rfl, hw, Pmm.isFree_iff.mpr ⟨hm, ?_⟩⟩
    show b''.pmm.allocated.bit 257 = false
    rw [ha, e]
    rfl

/-! ## The allocator at work -/

/-- **The page allocator.** After a successful `pmm_initialize` and any calls, the bitmaps and the counter agree. The
next call answers as the free pages demand and hands out free pages only; the pages allocated behind it are those it
hands out and those of before that it does not take back; and a page it hands out is not handed out again before a call
has taken it back. -/
theorem allocator_exact (memory : Mem) (info kernelStart kernelEnd : UInt32) (b : Boot)
    (h : ((pmmInitialize memory info kernelStart kernelEnd).run b).1 = .ok ()) (calls : List PmmCall) :
    let s := runCalls calls ((pmmInitialize memory info kernelStart kernelEnd).run b).2.pmm
    (∀ page, s.allocated.bit page = true → s.managed.bit page = true) ∧ s.freePages = s.free.card ∧
    s.nextPage < pageCount ∧ ∀ call : PmmCall, call.Answers s ∧ call.handed s ⊆ s.free ∧
      (call.next s).managed = s.managed ∧ (∀ page, (call.next s).allocated.bit page = true ↔
        page ∈ call.handed s ∨ s.allocated.bit page = true ∧ page ∉ call.returned s) ∧
      ∀ mid call', ∀ page ∈ call.handed s, page ∈ PmmCall.handed (runCalls mid (call.next s)) call' →
        ∃ pre c post, mid = pre ++ c :: post ∧ page ∈ PmmCall.returned (runCalls pre (call.next s)) c := by
  intro s
  have hv : s.Valid := runCalls_valid (pmmInitialize_boots.2.2.2 () h).1 calls
  refine ⟨fun page hp => hv.owned hp, hv.freePages, hv.next, fun call => ?_⟩
  have hs := call.step hv
  exact ⟨hs.answers, hs.handed, call.next_managed hv, fun page => call.allocated_next hv,
    fun mid call' page hp hp' => handed_twice hv call mid call' hp hp'⟩

/-- A page is allocated and freed; a second free of it is refused. -/
theorem allocator_exact_small : let s := ((pmmInitialize headerMemory 4096 0x100000 0x101000).run {}).2.pmm
    let a := s.allocatePage.1
    a ≠ 0 ∧ ((runCalls [.allocatePage] s).freePage a).1 = true ∧
      ((runCalls [.allocatePage, .freePage a] s).freePage a).1 = false := by
  obtain ⟨b', h, -, hfree⟩ := headerMemory_boots
  have hall := allocator_exact headerMemory 4096 0x100000 0x101000 {} (by rw [h])
  rw [h] at hall ⊢
  intro s a
  obtain ⟨⟨⟨hnone, -⟩, hmod, -⟩, -, -, hafter, -⟩ := (hall []).2.2.2 .allocatePage
  obtain ⟨⟨hfirst, -⟩, -, -, hgone, -⟩ := (hall [.allocatePage]).2.2.2 (.freePage a)
  obtain ⟨⟨hsecond, -⟩, -⟩ := (hall [.allocatePage, .freePage a]).2.2.2 (.freePage a)
  have ha : a ≠ 0 := fun ha =>
    Finset.notMem_empty 257 (hnone ha ▸ Finset.mem_filter.mpr ⟨Finset.mem_range.mpr (by decide), hfree⟩)
  have hrange : a / pageSize ∈ PmmCall.range a 1 := by
    rw [PmmCall.range, if_neg ha]
    simp
  have hfreed : ((runCalls [.allocatePage] s).freePage a).1 = true := hfirst.mpr ⟨hmod, (hafter _).mpr (.inl hrange)⟩
  refine ⟨ha, hfreed, Bool.eq_false_iff.mpr fun hagain => ?_⟩
  obtain hno | ⟨-, hno⟩ := (hgone _).mp (hsecond.mp hagain).2
  · exact absurd hno (Finset.notMem_empty _)
  · rw [PmmCall.returned, if_pos hfreed] at hno
    exact hno hrange

end RumKernel.Mm
