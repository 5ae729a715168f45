import RumKernel.Mm.Payloads

/-!
# What the heap keeps

The heap from its callers' side. Every call has one of a few effects on the blocks in use and their payloads; with
that, what callers have been given and not given back is, at any time, what the blocks in use are.
-/

namespace RumKernel.Mm
open Function Lib

/-- The size that a call asks a new block for. -/
def HeapCall.asks : HeapCall → Option Nat
  | kmalloc size => some size
  | kcalloc count size => some (count * size)
  | krealloc none size => some size
  | krealloc (some _) _ => none
  | kfree _ => none

namespace Arena

section calls

variable {π : Type} [Pages π] [LawfulPages π] {r r' : Arena π} {es es' : List Extent} {b n : Nat}

/-- What a call can do to the blocks in use and to their payloads. -/
inductive Effect (r : Arena π) (es : List Extent) : HeapCall → HeapAnswer → Arena π → List Extent → Prop
  | refused {call : HeapCall} {s : π} (hasks : call.asks.isSome = true ∨
      ∃ p size, call = .krealloc (some p) size ∧ (size = 0 → ∀ x ∈ live heapBase es, x.1 + headerSize ≠ p)) :
      Effect r es call (.pointer none) (r.withPages s) es
  | freedNull : Effect r es (.kfree none) (.freed true) r es
  | freedUnknown {p : Nat} (hp : ∀ x ∈ live heapBase es, x.1 + headerSize ≠ p) :
      Effect r es (.kfree (some p)) (.freed false) r es
  | obtained {call : HeapCall} {size b d : Nat} {r' : Arena π} {es' : List Extent} (hasks : call.asks = some size)
      (hroom : size ≤ d) (hlive : ∀ x, x ∈ live heapBase es' ↔ x ∈ live heapBase es ∨ x = (b, d))
      (hfresh : ∀ n, (b, n) ∉ live heapBase es) (hkept : r.Kept (live heapBase es) r') :
      Effect r es call (.pointer (some (b + headerSize))) r' es'
  | released {call : HeapCall} {answer : HeapAnswer} {b n : Nat} {r' : Arena π} {es' : List Extent}
      (hcall : call = .kfree (some (b + headerSize)) ∧ answer = .freed true ∨
        call = .krealloc (some (b + headerSize)) 0 ∧ answer = .pointer none) (hb : (b, n) ∈ live heapBase es)
      (hlive : ∀ x, x ∈ live heapBase es' ↔ x ∈ live heapBase es ∧ x.1 ≠ b) (hkept : r.Kept (live heapBase es) r') :
      Effect r es call answer r' es'
  | resized {size b n b' d : Nat} {r' : Arena π} {es' : List Extent} (hb : (b, n) ∈ live heapBase es)
      (hwanted : size ≤ aligned size) (hres : Resized r es b n (aligned size) r' es' b' d) :
      Effect r es (.krealloc (some (b + headerSize)) size) (.pointer (some (b' + headerSize))) r' es'

lemma tiled_withPages {s : π} (ht : r.view.Tiled es) (hs : LawfulPages.Same r.pages s) :
    (r.withPages s).view.Tiled es :=
  ht.unchanged ⟨s, rfl, hs⟩

lemma allocate_effect (ht : r.view.Tiled es) (hready : r.ready = true) {call : HeapCall} {size : Nat}
    (hasks : call.asks = some size) : ∃ es', (r.allocate size).2.view.Tiled es' ∧
      Effect r es call (.pointer (r.allocate size).1) (r.allocate size).2 es' := by
  rcases allocate_spec ht hready size with ⟨s, ha, hsame, -⟩ | ⟨r', es', b, d, ha, ht', hd, hlive, hfresh, hkept⟩
  · rw [ha]
    exact ⟨es, tiled_withPages ht hsame, .refused (.inl (by rw [hasks]; rfl))⟩
  · rw [ha]
    exact ⟨es', ht', .obtained hasks hd hlive hfresh hkept⟩

lemma kcalloc_effect (ht : r.view.Tiled es) (hready : r.ready = true) (count size : Nat) :
    ∃ es', (r.kcalloc count size).2.view.Tiled es' ∧
      Effect r es (.kcalloc count size) (.pointer (r.kcalloc count size).1) (r.kcalloc count size).2 es' := by
  unfold Arena.kcalloc Arena.kmalloc
  split
  · exact ⟨es, ht, .refused (s := r.pages) (.inl rfl)⟩
  · rcases allocate_spec ht hready (count * size) with
      ⟨s, ha, hsame, -⟩ | ⟨r', es', b, d, ha, ht', hd, hlive, hfresh, hkept⟩
    · rw [ha]
      exact ⟨es, tiled_withPages ht hsame, .refused (.inl rfl)⟩
    · rw [ha]
      have hnew : (b, d) ∈ live heapBase es' := (hlive _).mpr (.inr rfl)
      dsimp only
      have hfit : b + headerSize + count * size ≤ b + headerSize + d := by omega
      refine ⟨es', fill_spec ht' hnew (Nat.le_refl _) hfit,
        .obtained rfl hd hlive hfresh ⟨hkept.ready, fun x hx i hi => ?_⟩⟩
      have hne : x.1 ≠ b := fun e => hfresh x.2 (e ▸ (show (x.1, x.2) ∈ _ from hx))
      have hx' : (x.1, x.2) ∈ live heapBase es' := (hlive _).mpr (.inl hx)
      exact (memory_fill (r := r') hnew (Nat.le_refl _) hfit hx' hne hi).trans (hkept.bytes x hx i hi)

lemma live_or_not (es : List Extent) (p : Nat) :
    (∃ b n, p = b + headerSize ∧ (b, n) ∈ live heapBase es) ∨ ∀ x ∈ live heapBase es, x.1 + headerSize ≠ p := by
  by_cases h : ∃ x ∈ live heapBase es, x.1 + headerSize = p
  · obtain ⟨x, hx, rfl⟩ := h
    exact .inl ⟨x.1, x.2, rfl, hx⟩
  · exact .inr fun x hx he => h ⟨x, hx, he⟩

lemma kfree_effect (ht : r.view.Tiled es) (pointer : Option Nat) : ∃ es', (r.kfree pointer).2.view.Tiled es' ∧
    Effect r es (.kfree pointer) (.freed (r.kfree pointer).1) (r.kfree pointer).2 es' := by
  cases pointer with
  | none => exact ⟨es, ht, .freedNull⟩
  | some p =>
    unfold Arena.kfree
    dsimp only
    rcases live_or_not es p with ⟨b, n, rfl, hb⟩ | hp
    · rw [find_live ht hb]
      obtain ⟨es', ht', hlive, hkept⟩ := release_spec ht hb
      exact ⟨es', ht', .released (.inl ⟨rfl, rfl⟩) hb hlive hkept⟩
    · rw [find_unused ht hp]
      exact ⟨es, ht, .freedUnknown hp⟩

lemma krealloc_effect (ht : r.view.Tiled es) (hready : r.ready = true) (pointer : Option Nat) (size : Nat) :
    ∃ es', (r.krealloc pointer size).2.view.Tiled es' ∧
      Effect r es (.krealloc pointer size) (.pointer (r.krealloc pointer size).1) (r.krealloc pointer size).2 es' := by
  cases pointer with
  | none => exact allocate_effect ht hready rfl
  | some p =>
    unfold Arena.krealloc
    dsimp only
    rcases live_or_not es p with ⟨b, n, rfl, hb⟩ | hp
    · by_cases h0 : size = 0
      · subst h0
        unfold Arena.kfree
        rw [if_pos rfl]
        dsimp only
        rw [find_live ht hb]
        obtain ⟨es', ht', hlive, hkept⟩ := release_spec ht hb
        exact ⟨es', ht', .released (.inr ⟨rfl, rfl⟩) hb hlive hkept⟩
      · rw [if_neg h0, find_live ht hb]
        dsimp only
        split
        · exact ⟨es, ht, .refused (s := r.pages) (.inr ⟨_, _, rfl, fun h => absurd h h0⟩)⟩
        · rename_i hw
          rcases resize_spec ht hready hb (Heap.aligned_mod size) with ⟨s, hr, hsame⟩ | ⟨r', es', b', d, hr, hres⟩
          · rw [hr]
            exact ⟨es, tiled_withPages ht hsame, .refused (.inr ⟨_, _, rfl, fun h => absurd h h0⟩)⟩
          · rw [hr]
            exact ⟨es', hres.tiled, .resized hb (le_aligned hw) hres⟩
    · have hnone := find_unused ht hp
      by_cases h0 : size = 0
      · subst h0
        unfold Arena.kfree
        rw [if_pos rfl]
        dsimp only
        rw [hnone]
        exact ⟨es, ht, .refused (s := r.pages) (.inr ⟨_, _, rfl, fun _ => hp⟩)⟩
      · rw [if_neg h0, hnone]
        exact ⟨es, ht, .refused (s := r.pages) (.inr ⟨_, _, rfl, fun _ => hp⟩)⟩

lemma perform_effect (ht : r.view.Tiled es) (hready : r.ready = true) (call : HeapCall) :
    ∃ es', (r.perform call).2.view.Tiled es' ∧ Effect r es call (r.perform call).1 (r.perform call).2 es' := by
  cases call with
  | kmalloc size => exact allocate_effect ht hready rfl
  | kcalloc count size => exact kcalloc_effect ht hready count size
  | krealloc pointer size => exact krealloc_effect ht hready pointer size
  | kfree pointer => exact kfree_effect ht pointer

end calls

end Arena

/-! ## Callers -/

/-- The heap with what its callers know of it: the size that was asked for with every pointer they have. -/
structure Client where
  arena : Arena Supply
  requested : Nat → Option Nat

/-- What happens to the heap: a call, with the answers for the pages it asks for, or a byte that is written to an
allocation. -/
inductive HeapEvent
  | call (call : HeapCall) (answers : List PageAnswer)
  | store (pointer offset : Nat) (value : UInt8)

/-- What callers know behind a call. -/
def HeapCall.record (requested : Nat → Option Nat) (call : HeapCall) (answer : HeapAnswer) : Nat → Option Nat :=
  match call, answer with
  | kmalloc size, .pointer (some p) => update requested p (some size)
  | kcalloc count size, .pointer (some p) => update requested p (some (count * size))
  | krealloc none size, .pointer (some p) => update requested p (some size)
  | krealloc (some old) size, .pointer (some p) => update (update requested old none) p (some size)
  | krealloc (some old) 0, .pointer none => update requested old none
  | kfree (some old), .freed true => update requested old none
  | _, _ => requested

/-- The allocation that a call is about. -/
def HeapCall.operand : HeapCall → Option Nat
  | krealloc pointer _ => pointer
  | kfree pointer => pointer
  | _ => none

namespace Client

/-- A call, with the answers for the pages it asks for. -/
def perform (c : Client) (call : HeapCall) (answers : List PageAnswer) : HeapAnswer × Arena Supply :=
  (c.arena.withPages { c.arena.pages with answers }).perform call

/-- The heap and its callers behind a call. -/
def after (c : Client) (call : HeapCall) (answers : List PageAnswer) : Client :=
  ⟨(c.perform call answers).2, call.record c.requested (c.perform call answers).1⟩

/-- The bytes of an allocation, those in front of the next header included. -/
def payload (c : Client) (pointer : Nat) : Nat := (c.arena.header (pointer - headerSize)).size

/-- An event. Callers write only inside an allocation they have. -/
def step (c : Client) : HeapEvent → Client
  | .call call answers => c.after call answers
  | .store pointer offset value =>
    if (c.requested pointer).isSome ∧ offset < c.payload pointer then
      { c with arena := c.arena.fill (pointer + offset) 1 fun _ => .byte value }
    else c

def run (c : Client) (events : List HeapEvent) : Client := events.foldl step c

/-- What callers know is what the blocks in use are. -/
structure Grants (requested : Nat → Option Nat) (M : Nat × Nat → Prop) : Prop where
  granted : ∀ {p k}, requested p = some k → ∃ b n, p = b + headerSize ∧ M (b, n) ∧ k ≤ n
  known : ∀ {b n}, M (b, n) → ∃ k, requested (b + headerSize) = some k

/-- The heap is in order and its callers are right. -/
structure Sound (c : Client) (es : List Extent) : Prop where
  tiled : c.arena.view.Tiled es
  ready : c.arena.ready = true
  grants : Grants c.requested (· ∈ live heapBase es)

section grants

variable {requested : Nat → Option Nat} {M M' : Nat × Nat → Prop} {b d size p : Nat}

lemma Grants.obtained (hg : Grants requested M) (hroom : size ≤ d) (hM : ∀ x, M' x ↔ M x ∨ x = (b, d))
    (hfresh : ∀ n, ¬M (b, n)) : Grants (update requested (b + headerSize) (some size)) M' where
  granted {p k} hp := by
    rcases eq_or_ne p (b + headerSize) with rfl | hne
    · rw [update_self] at hp
      cases hp
      exact ⟨b, d, rfl, (hM _).mpr (.inr rfl), hroom⟩
    · rw [update_of_ne hne] at hp
      obtain ⟨a, n, rfl, ha, hk⟩ := hg.granted hp
      exact ⟨a, n, rfl, (hM _).mpr (.inl ha), hk⟩
  known {a n} ha := by
    rcases (hM _).mp ha with ha | ha
    · have hne : a + headerSize ≠ b + headerSize := fun e => hfresh n (Nat.add_right_cancel e ▸ ha)
      obtain ⟨k, hk⟩ := hg.known ha
      exact ⟨k, by rw [update_of_ne hne, hk]⟩
    · cases ha
      exact ⟨size, update_self ..⟩

lemma Grants.released (hg : Grants requested M) (hM : ∀ x, M' x ↔ M x ∧ x.1 ≠ b) :
    Grants (update requested (b + headerSize) none) M' where
  granted {p k} hp := by
    rcases eq_or_ne p (b + headerSize) with rfl | hne
    · rw [update_self] at hp
      cases hp
    · rw [update_of_ne hne] at hp
      obtain ⟨a, n, rfl, ha, hk⟩ := hg.granted hp
      exact ⟨a, n, rfl, (hM _).mpr ⟨ha, fun e => hne (congrArg (· + headerSize) e)⟩, hk⟩
  known {a n} ha := by
    obtain ⟨ha, hne⟩ := (hM _).mp ha
    obtain ⟨k, hk⟩ := hg.known ha
    exact ⟨k, by rw [update_of_ne (fun e => hne (Nat.add_right_cancel e)), hk]⟩

lemma Grants.none (hg : Grants requested M) (hp : ∀ x, M x → x.1 + headerSize ≠ p) : requested p = none := by
  cases hk : requested p with
  | none => rfl
  | some k =>
    obtain ⟨b, n, rfl, hb, -⟩ := hg.granted hk
    exact absurd rfl (hp _ hb)

end grants

variable {c : Client} {es es' : List Extent} {call : HeapCall} {answer : HeapAnswer} {answers : List PageAnswer}
  {r' : Arena Supply} {p k b n : Nat}

lemma Sound.effect (hc : c.Sound es) (call : HeapCall) (answers : List PageAnswer) : ∃ es',
    (c.perform call answers).2.view.Tiled es' ∧
    (c.arena.withPages { c.arena.pages with answers }).Effect es call (c.perform call answers).1
        (c.perform call answers).2 es' := by
  have hsame : LawfulPages.Same c.arena.pages { c.arena.pages with answers } := ⟨rfl, rfl⟩
  exact Arena.perform_effect (Arena.tiled_withPages hc.tiled hsame) hc.ready call

lemma record_refused (hc : c.Sound es) (hasks : call.asks.isSome = true ∨
    ∃ p size, call = .krealloc (some p) size ∧ (size = 0 → ∀ x ∈ live heapBase es, x.1 + headerSize ≠ p)) :
    call.record c.requested (.pointer none) = c.requested := by
  rcases hasks with hasks | ⟨p, size, rfl, hzero⟩
  · cases call with
    | kmalloc size => rfl
    | kcalloc count size => rfl
    | krealloc pointer size =>
      cases pointer with
      | none => rfl
      | some p => cases hasks
    | kfree pointer => cases hasks
  · cases size with
    | zero => exact update_eq_self_iff.mpr (hc.grants.none (hzero rfl)).symm
    | succ size => rfl

lemma record_obtained {size : Nat} (hasks : call.asks = some size) :
    call.record c.requested (.pointer (some p)) = update c.requested p (some size) := by
  cases call with
  | kmalloc size => cases hasks; rfl
  | kcalloc count size => cases hasks; rfl
  | krealloc pointer size =>
    cases pointer with
    | none => cases hasks; rfl
    | some p => cases hasks
  | kfree pointer => cases hasks

lemma record_released
    (hcall : call = .kfree (some p) ∧ answer = .freed true ∨ call = .krealloc (some p) 0 ∧ answer = .pointer none) :
    call.record c.requested answer = update c.requested p none := by
  rcases hcall with ⟨rfl, rfl⟩ | ⟨rfl, rfl⟩
  · rfl
  · rfl

lemma Sound.after (hc : c.Sound es) (call : HeapCall) (answers : List PageAnswer) : ∃ es',
    (c.after call answers).Sound es' := by
  obtain ⟨es', ht, heff⟩ := hc.effect call answers
  refine ⟨es', ?_⟩
  unfold Client.after
  generalize c.perform call answers = q at ht heff
  obtain ⟨answer, r'⟩ := q
  dsimp only at ht heff ⊢
  cases heff with
  | refused hasks =>
    rw [record_refused hc hasks]
    exact ⟨ht, hc.ready, hc.grants⟩
  | freedNull => exact ⟨ht, hc.ready, hc.grants⟩
  | freedUnknown hp => exact ⟨ht, hc.ready, hc.grants⟩
  | obtained hasks hroom hlive hfresh hkept =>
    rw [record_obtained hasks]
    exact ⟨ht, hkept.ready.trans hc.ready, hc.grants.obtained hroom hlive hfresh⟩
  | released hcall hb hlive hkept =>
    rw [record_released hcall]
    exact ⟨ht, hkept.ready.trans hc.ready, hc.grants.released hlive⟩
  | resized _ hwanted hres =>
    refine ⟨ht, hres.kept.ready.trans hc.ready,
      (hc.grants.released fun _ => .rfl).obtained (hwanted.trans hres.room) hres.live fun n hn => ?_⟩
    rcases hres.fresh with rfl | hfresh
    · exact hn.2 rfl
    · exact hfresh n hn.1

lemma Sound.payload (hc : c.Sound es) (hp : c.requested p = some k) :
    ∃ b, p = b + headerSize ∧ (b, c.payload p) ∈ live heapBase es ∧ k ≤ c.payload p := by
  obtain ⟨b, n, rfl, hb, hle⟩ := hc.grants.granted hp
  have hn : c.payload (b + headerSize) = n := by
    unfold Client.payload
    rw [Nat.add_sub_cancel]
    exact congrArg Extent.size (Arena.header_live hc.tiled hb)
  rw [hn]
  exact ⟨b, rfl, hb, hle⟩

lemma Sound.step (hc : c.Sound es) (event : HeapEvent) : ∃ es', (c.step event).Sound es' := by
  cases event with
  | call call answers => exact hc.after call answers
  | store pointer offset value =>
    refine ⟨es, ?_⟩
    unfold Client.step
    dsimp only
    split
    · rename_i h
      obtain ⟨k, hk⟩ := Option.isSome_iff_exists.mp h.1
      obtain ⟨b, hp, hb, -⟩ := hc.payload hk
      have hlow : b + headerSize ≤ pointer + offset := by omega
      have hhigh : pointer + offset + 1 ≤ b + headerSize + c.payload pointer := by omega
      have ht : (c.arena.fill (pointer + offset) 1 fun _ => .byte value).view.Tiled es :=
        Arena.fill_spec hc.tiled hb hlow hhigh
      exact ⟨ht, hc.ready, hc.grants⟩
    · exact hc

lemma Sound.run (hc : c.Sound es) (events : List HeapEvent) : ∃ es', (c.run events).Sound es' := by
  induction events generalizing c es with
  | nil => exact ⟨es, hc⟩
  | cons event events ih =>
    obtain ⟨es', hc'⟩ := hc.step event
    exact ih hc'

end Client

/-! ## Pages -/

namespace Supply

variable {s : Supply}

lemma addPages_mapped {start fuel added : Nat} (hw : ∀ i, added ≤ i → s.window (start + i * pageSize) = none)
    (ha : ∀ i < fuel, ∃ physical, physical ≠ 0 ∧ s.answers[i]? = some (.mapped physical)) :
    (addPages start fuel added s).1 = added + fuel := by
  induction fuel generalizing added s with
  | zero => rfl
  | succ fuel ih =>
    obtain ⟨physical, hp, hfirst⟩ := ha 0 (Nat.succ_pos _)
    obtain ⟨answers, window, owned⟩ := s
    cases answers with
    | nil => cases hfirst
    | cons answer rest =>
      cases hfirst
      have halloc : Pages.allocatePage (⟨.mapped physical :: rest, window, owned⟩ : Supply) =
          (physical, ⟨.mapped physical :: rest, window, physical :: owned⟩) := if_neg hp
      have hmap : Pages.mapPage (⟨.mapped physical :: rest, window, physical :: owned⟩ : Supply)
          (start + added * pageSize)
          physical = (true, ⟨rest, update window (start + added * pageSize) (some physical), physical :: owned⟩) :=
        if_neg (by
          dsimp only
          rw [show window (start + added * pageSize) = none from hw added (Nat.le_refl _)]
          exact Bool.false_ne_true)
      have hrest := @ih ⟨rest, update window (start + added * pageSize) (some physical), physical :: owned⟩ (added + 1)
        (fun i hi => by
          have hne : start + i * pageSize ≠ start + added * pageSize := by
            simp only [pageSize]
            omega
          dsimp only
          rw [update_of_ne hne]
          exact hw i (by omega))
        fun i hi => ha (i + 1) (by omega)
      rw [addPages, halloc]
      dsimp only
      rw [if_neg hp, hmap]
      dsimp only
      rw [if_pos rfl, hrest]
      omega

end Supply

namespace Client

variable {c : Client} {es : List Extent} {call : HeapCall} {answers : List PageAnswer} {p k size : Nat}

section
variable (hc : c.Sound es)
include hc

lemma Sound.blocks : c.arena.blocks = (place heapBase es).map fun x => (x.1, c.arena.view.headers x.1) := by
  change c.arena.blockLoop Heap.walkFuel c.arena.view.first = _
  rw [(Arena.safe_slots hc.tiled Arena.covered_live).blockLoop Heap.walkFuel hc.tiled.first_slot]
  exact hc.tiled.holds.blocks hc.tiled.bounded

lemma Sound.one_block (hnone : ∀ p, c.requested p = none) :
    c.arena.blocks = [(heapBase, { size := c.arena.mapped - headerSize, free := true })] := by
  have hfree : ∀ e ∈ es, e.free = true := fun e he => by
    cases hf : e.free with
    | true => rfl
    | false =>
      obtain ⟨xs, ys, rfl⟩ := List.append_of_mem he
      obtain ⟨k, hk⟩ := hc.grants.known (@Heap.mem_live xs ys e hf)
      rw [hnone] at hk
      cases hk
  have hone : ∃ e, es = [e] := by
    have happ := hc.tiled.proper.apart
    cases es with
    | nil => exact absurd rfl (hc.tiled.nonempty hc.ready)
    | cons e es =>
      cases es with
      | nil => exact ⟨e, rfl⟩
      | cons d es =>
        exact absurd ⟨hfree e (.head _), hfree d (.tail _ (.head _))⟩ (List.isChain_cons_cons.mp happ).1
  obtain ⟨e, rfl⟩ := hone
  obtain ⟨h1, h2, h3, -⟩ := Heap.row_cons.mp hc.tiled.holds.row
  have hsize : (c.arena.view.headers heapBase).size = c.arena.mapped - headerSize := by
    have hm : c.arena.mapped = span [e] := hc.tiled.holds.mapped
    rw [size_of_extent h1, hm, span_cons, span_nil]
    omega
  have hf : (c.arena.view.headers heapBase).free = true :=
    (congrArg Extent.free h1).trans (hfree e (.head _))
  rw [hc.blocks]
  change [(heapBase, c.arena.view.headers heapBase)] = _
  generalize c.arena.view.headers heapBase = block at h2 h3 hsize hf
  obtain ⟨size, previous, next, free⟩ := block
  dsimp only at h2 h3 hsize hf
  rw [hsize, h2, hf, show next = none from h3]

lemma Sound.kfree_iff (pointer : Option Nat) :
    (c.arena.kfree pointer).1 = true ↔ pointer = none ∨ ∃ p size, pointer = some p ∧ c.requested p = some size := by
  cases pointer with
  | none => exact iff_of_true rfl (.inl rfl)
  | some p =>
    unfold Arena.kfree
    dsimp only
    rcases Arena.live_or_not es p with ⟨b, n, rfl, hb⟩ | hp
    · rw [Arena.find_live hc.tiled hb]
      obtain ⟨k, hk⟩ := hc.grants.known hb
      exact iff_of_true rfl (.inr ⟨_, k, rfl, hk⟩)
    · rw [Arena.find_unused hc.tiled hp]
      refine iff_of_false Bool.false_ne_true ?_
      rintro (h | ⟨q, size, h, hq⟩)
      · cases h
      · cases h
        rw [hc.grants.none hp] at hq
        cases hq

lemma Sound.others (hp : c.requested p = some size) (hcall : call.operand ≠ some p) :
    (c.after call answers).requested p = some size ∧
    ∀ i < c.payload p, (c.after call answers).arena.memory (p + i) = c.arena.memory (p + i) := by
  obtain ⟨es', -, heff⟩ := hc.effect call answers
  obtain ⟨a, rfl, ha, -⟩ := hc.payload hp
  unfold Client.after
  generalize c.perform call answers = q at heff
  obtain ⟨answer, r'⟩ := q
  dsimp only at heff ⊢
  cases heff with
  | refused hasks =>
    rw [record_refused hc hasks]
    exact ⟨hp, fun _ _ => rfl⟩
  | freedNull => exact ⟨hp, fun _ _ => rfl⟩
  | freedUnknown _ => exact ⟨hp, fun _ _ => rfl⟩
  | @obtained _ _ b _ _ _ hasks _ _ hfresh hkept =>
    have hne : a + headerSize ≠ b + headerSize := fun e => hfresh _ (Nat.add_right_cancel e ▸ ha)
    rw [record_obtained hasks, update_of_ne hne]
    exact ⟨hp, fun i hi => hkept.bytes _ ha i hi⟩
  | @released _ _ b _ _ _ hrel _ _ hkept =>
    have hne : a + headerSize ≠ b + headerSize := fun e => by
      rcases hrel with ⟨rfl, -⟩ | ⟨rfl, -⟩
      · exact hcall (congrArg some e.symm)
      · exact hcall (congrArg some e.symm)
    rw [record_released hrel, update_of_ne hne]
    exact ⟨hp, fun i hi => hkept.bytes _ ha i hi⟩
  | @resized _ b _ b' _ _ _ _ _ hres =>
    have hne : a ≠ b := fun e => hcall (congrArg some (e ▸ rfl))
    have hne' : a ≠ b' := fun e => by
      rcases hres.fresh with rfl | hfresh
      · exact hne e
      · exact hfresh _ (e ▸ ha)
    refine ⟨?_, fun i hi => hres.kept.bytes _ (Arena.mem_others.mpr ⟨ha, hne⟩) i hi⟩
    change update (update c.requested (b + headerSize) none) (b' + headerSize) _ (a + headerSize) = _
    rw [update_of_ne (fun e => hne' (Nat.add_right_cancel e)), update_of_ne (fun e => hne (Nat.add_right_cancel e)), hp]

lemma Sound.moved {old q : Nat} (hp : c.requested p = some old)
    (hq : (c.perform (.krealloc (some p) size) answers).1 = .pointer (some q)) :
    ∀ i < min old size, (c.perform (.krealloc (some p) size) answers).2.memory (q + i) = c.arena.memory (p + i) := by
  obtain ⟨es', -, heff⟩ := hc.effect (.krealloc (some p) size) answers
  obtain ⟨a, n, rfl, ha, hle⟩ := hc.grants.granted hp
  rw [hq] at heff
  generalize (c.perform (.krealloc (some (a + headerSize)) size) answers).2 = r' at heff ⊢
  cases heff with
  | obtained hasks => cases hasks
  | released hcall =>
    rcases hcall with ⟨h, -⟩ | ⟨-, h⟩
    · cases h
    · cases h
  | resized hb hwanted hres =>
    intro i hi
    have hm := Heap.live_size hb ha
    exact hres.bytes i (by omega) (by omega)

lemma Sound.failed {old : Nat} (hp : c.requested p = some old) (hsize : 0 < size)
    (hq : (c.perform (.krealloc (some p) size) answers).1 = .pointer none) :
    (c.after (.krealloc (some p) size) answers).requested p = some old ∧
    ∀ i < c.payload p, (c.after (.krealloc (some p) size) answers).arena.memory (p + i) = c.arena.memory (p + i) := by
  obtain ⟨es', -, heff⟩ := hc.effect (.krealloc (some p) size) answers
  unfold Client.after
  rw [hq] at heff ⊢
  generalize (c.perform (.krealloc (some p) size) answers).2 = r' at heff ⊢
  dsimp only
  cases heff with
  | refused hasks =>
    rw [record_refused hc hasks]
    exact ⟨hp, fun _ _ => rfl⟩
  | released hcall =>
    rcases hcall with ⟨h, -⟩ | ⟨h, -⟩
    · cases h
    · cases h
      exact absurd hsize (Nat.lt_irrefl 0)

end

lemma aligned_ne_zero (hpos : 0 < size) (hle : size ≤ heapLimit - headerSize) : aligned size ≠ 0 := by
  unfold aligned
  rw [if_neg (by omega)]
  unfold heapAlignment
  omega

lemma growth_div (bytes : Nat) : growth bytes / pageSize * pageSize = growth bytes := by
  unfold growth
  rw [Nat.mul_div_cancel _ (by decide)]

lemma Sound.stuck (hc : c.Sound es) {bytes : Nat} (h : (c.arena.withPages { c.arena.pages with answers }).Stuck bytes) :
    heapLimit - c.arena.mapped < growth bytes ∨
    ∃ i < growth bytes / pageSize, ¬∃ physical, physical ≠ 0 ∧ answers[i]? = some (.mapped physical) := by
  rcases h with h | h
  · exact .inl h
  · right
    by_contra hall
    push Not at hall
    refine h ?_
    have hadd := @Supply.addPages_mapped { c.arena.pages with answers } (heapBase + c.arena.mapped)
      (growth bytes / pageSize) 0 (fun i _ => by
        have hb : c.arena.pages.Backs c.arena.mapped := hc.tiled.backed
        rw [Nat.add_assoc]
        exact hb.none (Nat.le_add_right ..)) hall
    rw [Nat.zero_add] at hadd
    exact (congrArg (· * pageSize) hadd).trans (growth_div bytes)

lemma Sound.complete (hc : c.Sound es) (hpos : 0 < size) (hle : size ≤ heapLimit - headerSize)
    (hfail : (c.perform (.kmalloc size) answers).1 = .pointer none) :
    (∀ x ∈ c.arena.blocks, x.2.free = true → x.2.size < aligned size) ∧
    ∃ x ∈ c.arena.blocks.getLast?, heapLimit - c.arena.mapped < growth (needed x.2.extent (aligned size)) ∨
      ∃ i < growth (needed x.2.extent (aligned size)) / pageSize,
        ¬∃ physical, physical ≠ 0 ∧ answers[i]? = some (.mapped physical) := by
  have hsame : LawfulPages.Same c.arena.pages { c.arena.pages with answers } := ⟨rfl, rfl⟩
  have hspec := Arena.allocate_spec (Arena.tiled_withPages hc.tiled hsame) hc.ready size
  have hrow : ∀ x ∈ c.arena.blocks, (x.1, x.2.extent) ∈ place heapBase es := by
    rw [hc.blocks]
    exact hc.tiled.holds.row.extent
  rcases hspec with ⟨s, -, -, h0 | ⟨hsmall, hstuck⟩⟩ | ⟨r', es', b, d, ha, -⟩
  · exact absurd h0 (aligned_ne_zero hpos hle)
  · refine ⟨fun x hx hf => ?_, ?_⟩
    · obtain ⟨xs, ys, hes, -⟩ := exists_of_mem_place (hrow x hx)
      exact hsmall x.2.extent (by rw [hes]; simp) hf
    · obtain ⟨xs, d, rfl⟩ := hc.tiled.exists_last hc.ready
      have hlast : (Heap.behind xs, c.arena.view.headers (Heap.behind xs)) ∈ c.arena.blocks.getLast? := by
        rw [hc.blocks, List.getLast?_map, place_append, List.getLast?_append]
        rfl
      refine ⟨_, hlast, ?_⟩
      rw [hc.tiled.holds.header]
      exact hc.stuck (hstuck xs d rfl)
  · have hok : (c.perform (.kmalloc size) answers).1 = .pointer (some (b + headerSize)) :=
      congrArg (fun q : Option Nat × Arena Supply => HeapAnswer.pointer q.1) ha
    rw [hok] at hfail
    cases hfail

/-- What the heap keeps for its callers. -/
structure Contents (c : Client) : Prop where
  /-- An allocation has room for what was asked for. -/
  room : ∀ {p size}, c.requested p = some size → size ≤ c.payload p
  /-- A resized allocation has the bytes of the old one. -/
  moved : ∀ {p old size q answers}, c.requested p = some old →
    (c.perform (.krealloc (some p) size) answers).1 = .pointer (some q) →
    ∀ i < min old size, (c.after (.krealloc (some p) size) answers).arena.memory (q + i) = c.arena.memory (p + i)
  /-- An allocation that could not be resized is still there. -/
  failed : ∀ {p old size answers}, c.requested p = some old → 0 < size →
    (c.perform (.krealloc (some p) size) answers).1 = .pointer none →
    ((c.after (.krealloc (some p) size) answers).arena.kfree (some p)).1 = true ∧
      (c.after (.krealloc (some p) size) answers).requested p = some old ∧
      ∀ i < c.payload p, (c.after (.krealloc (some p) size) answers).arena.memory (p + i) = c.arena.memory (p + i)
  /-- A call leaves every other allocation alone. -/
  others : ∀ {p size call answers}, c.requested p = some size → call.operand ≠ some p →
    (c.after call answers).requested p = some size ∧
      ∀ i < c.payload p, (c.after call answers).arena.memory (p + i) = c.arena.memory (p + i)
  /-- `kfree` knows what an allocation is. -/
  freed : ∀ pointer, (c.arena.kfree pointer).1 = true ↔
    pointer = none ∨ ∃ p size, pointer = some p ∧ c.requested p = some size
  /-- `kmalloc` fails only for want of a free block and of pages. -/
  complete : ∀ {size answers}, 0 < size → size ≤ heapLimit - headerSize →
    (c.perform (.kmalloc size) answers).1 = .pointer none →
    (∀ x ∈ c.arena.blocks, x.2.free = true → x.2.size < aligned size) ∧
      ∃ x ∈ c.arena.blocks.getLast?, heapLimit - c.arena.mapped < growth (needed x.2.extent (aligned size)) ∨
        ∃ i < growth (needed x.2.extent (aligned size)) / pageSize,
          ¬∃ physical, physical ≠ 0 ∧ answers[i]? = some (.mapped physical)
  /-- The blocks in the memory of the window are in order. -/
  structured : c.arena.view.Structured
  /-- One block is left when every allocation has been freed. -/
  empty : (∀ p, c.requested p = none) →
    c.arena.blocks = [(heapBase, { size := c.arena.mapped - headerSize, free := true })]

lemma Sound.contents (hc : c.Sound es) : c.Contents where
  room hp := by
    obtain ⟨b, -, -, hle⟩ := hc.payload hp
    exact hle
  moved := hc.moved
  failed {p old size answers} hp hsize hq := by
    obtain ⟨h1, h2⟩ := hc.failed hp hsize hq
    obtain ⟨es', hc'⟩ := hc.after (.krealloc (some p) size) answers
    exact ⟨(hc'.kfree_iff _).mpr (.inr ⟨p, old, rfl, h1⟩), h1, h2⟩
  others := hc.others
  freed := hc.kfree_iff
  complete := hc.complete
  structured := hc.tiled.structured
  empty := hc.one_block

end Client

namespace Arena

/-- The heap before `heap_initialize`, whatever the bytes of the window are. -/
def initial (memory : Nat → Cell) (decode : List Cell → Block) (answers : List PageAnswer) : Arena Supply :=
  { memory, decode, pages := { answers } }

variable {memory : Nat → Cell} {decode : List Cell → Block} {answers : List PageAnswer}

lemma tiled_initial : (initial memory decode answers).view.Tiled [] :=
  (Heap.tiled_initial answers).congr (fun a ha => by cases ha) rfl rfl rfl rfl rfl

lemma sound_initial (h : (initial memory decode answers).heapInitialize.1 = true) :
    ∃ es, (Client.mk (initial memory decode answers).heapInitialize.2 fun _ => none).Sound es := by
  revert h
  unfold Arena.heapInitialize
  rw [if_neg (show ¬(initial memory decode answers).ready = true from Bool.false_ne_true)]
  have ht0 : (initial memory decode answers).view.Tiled [] := tiled_initial
  have hpos : 0 < pageSize := by decide
  rcases grow_spec ht0 hpos with ⟨s, hg, -, -⟩ | ⟨r', g, hg, -, -, ht, -⟩
  · rw [hg]
    intro h
    cases h
  · rw [hg]
    intro _
    refine ⟨[⟨g - headerSize, true⟩],
      ⟨⟨ht.holds.row, ht.holds.first, ht.holds.last, ht.holds.mapped⟩, ht.proper, ht.bounded,
      ht.paged, ht.backed, fun _ => List.cons_ne_nil _ _⟩, rfl, fun hp => ?_, fun hb => ?_⟩
    · cases hp
    · cases hb

end Arena

/-- **What the heap keeps.** Behind `heap_initialize` and any sequence of calls and of writes to what was asked for,
whatever pages the calls find and whatever bytes were in the window, `krealloc` keeps the bytes of the allocation or
leaves it as it is, no call changes another allocation, `kfree` takes exactly the pointers that are allocations,
`kmalloc` fails only for want of room, the blocks stay in order, and one free block is left when nothing is
allocated. -/
theorem heap_contents (memory : Nat → Cell) (decode : List Cell → Block) (answers : List PageAnswer)
    (hinit : (Arena.initial memory decode answers).heapInitialize.1 = true) (events : List HeapEvent) :
    ((Client.mk (Arena.initial memory decode answers).heapInitialize.2 fun _ => none).run events).Contents := by
  obtain ⟨es, hc⟩ := Arena.sound_initial hinit
  obtain ⟨es', hc'⟩ := hc.run events
  exact hc'.contents

theorem heap_contents_page :
    ((Client.mk (Arena.initial (fun _ => .byte 0) (fun _ => {}) [.mapped 1]).heapInitialize.2 fun _ => none).run
      [.call (.kmalloc 5) [], .store (heapBase + 16) 4 7]).Contents :=
  heap_contents _ _ _ (by decide) _

end RumKernel.Mm
