import RumKernel.Fat16.Commit
import RumKernel.Fat16.Entries

/-!
# Preparing a slot for an entry

Before an entry is written its clusters are allocated and filled, the directory has grown if it was full,
and an end marker stands behind the slot. `Placement` says all this of a plan; it is established here for
the three places `find_target` returns.
-/

namespace RumKernel.Fat16
open Lib Fs

variable {g : Geometry} {fat fat' fat'' content : Mem} {c d i k n last : Nat} {e : Entry}
  {new grow pre post taken : List Nat} {x y : Image} {p : Plan}
variable {name : Name} {cs : List Nat} {parent : Nat}

/-! ## Allocation -/

/-- `fat'` is `fat` with the free clusters `new` linked into one chain, and each of `grow` ending its own. -/
structure Reserved (g : Geometry) (fat fat' : Mem) (new grow : List Nat) : Prop where
  free : ∀ c, c ∈ new ∨ c ∈ grow → validCluster g c = true ∧ nextCluster fat c = 0
  used : ∀ c, c ∈ new ∨ c ∈ grow → nextCluster fat' c ≠ 0
  other : ∀ c, c ∉ new → c ∉ grow → nextCluster fat' c = nextCluster fat c
  chain : ∀ c tl, new = c :: tl → IsChain g fat' c new
  ends : ∀ c ∈ grow, firstEnd ≤ nextCluster fat' c
  nodup : new.Nodup
  disjoint : ∀ c ∈ grow, c ∉ new

lemma Allocated.ends (h : Allocated g fat fat' taken) (hl : taken.getLast? = some n) :
    firstEnd ≤ nextCluster fat' n := by
  cases taken with
  | nil => simp at hl
  | cons c tl => exact Chain.stop_getLast (h.chain c tl rfl) hl

lemma Allocated.reserved (h : Allocated g fat fat' taken) : Reserved g fat fat' taken [] where
  free c hc := by
    have hc : c ∈ taken := by simpa using hc
    exact ⟨h.valid c hc, h.free c hc⟩
  used c hc := h.next_ne_zero (by simpa using hc)
  other c hc _ := h.next_other hc
  chain := h.chain
  ends := by simp
  nodup := h.nodup
  disjoint := by simp

lemma Reserved.more (h : Reserved g fat fat' new []) (h' : Allocated g fat' fat'' [n]) :
    Reserved g fat fat'' new [n] := by
  have hn : n ∉ new := fun hm => h.used n (.inl hm) (h'.free n (by simp))
  have hkeep : ∀ c, c ≠ n → nextCluster fat'' c = nextCluster fat' c := fun c hc => h'.next_other (by simpa using hc)
  have hne : ∀ c ∈ new, c ≠ n := fun c hc e => hn (e ▸ hc)
  refine ⟨?_, ?_, ?_, ?_, ?_, h.nodup, ?_⟩
  · rintro c (hc | hc)
    · exact h.free c (.inl hc)
    · obtain rfl := List.mem_singleton.mp hc
      refine ⟨h'.valid c (by simp), ?_⟩
      rw [← h.other c hn (by simp)]
      exact h'.free c (by simp)
  · rintro c (hc | hc)
    · rw [hkeep c (hne c hc)]
      exact h.used c (.inl hc)
    · exact h'.next_ne_zero hc
  · intro c hc hg
    rw [hkeep c (by simpa using hg), h.other c hc (by simp)]
  · intro c tl e
    exact (h.chain c tl e).congr fun y hy => hkeep y (hne y hy)
  · intro c hc
    obtain rfl := List.mem_singleton.mp hc
    exact h'.ends rfl
  · intro c hc
    rwa [List.mem_singleton.mp hc]

lemma Allocated.split (h : Allocated g fat fat' (n :: grow)) (hg : grow.length ≤ 1) :
    Reserved g fat (setCluster fat' n 0xffff) [n] grow := by
  have hv := h.valid n (by simp)
  have hnd := List.nodup_cons.mp h.nodup
  have hself : nextCluster (setCluster fat' n 0xffff) n = 0xffff := nextCluster_setCluster_same (by omega)
  have hkeep : ∀ c, c ≠ n → nextCluster (setCluster fat' n 0xffff) c = nextCluster fat' c :=
    fun c hc => nextCluster_setCluster_other hc
  refine ⟨?_, ?_, ?_, ?_, ?_, by simp, ?_⟩
  · intro c hc
    have hc : c ∈ n :: grow := by simpa using hc
    exact ⟨h.valid c hc, h.free c hc⟩
  · intro c hc
    by_cases e : c = n
    · rw [e, hself]
      decide
    · rw [hkeep c e]
      exact h.next_ne_zero (by simpa [e] using hc)
  · intro c hc hg
    rw [hkeep c (by simpa using hc)]
    exact h.next_other (by simpa using ⟨by simpa using hc, hg⟩)
  · intro c tl e
    obtain ⟨rfl, rfl⟩ : n = c ∧ [] = tl := by simpa using e
    refine Chain.last hv ?_
    rw [hself]
    decide
  · intro c hc
    obtain rfl : grow = [c] := by
      match grow, hg with
      | [a], _ => rw [List.mem_singleton.mp hc]
    rw [hkeep c fun e => hnd.1 (by simp [e])]
    exact h.ends rfl
  · intro c hc e
    exact hnd.1 (by simpa [List.mem_singleton.mp e] using hc)

/-! ## Filling the clusters -/

/-- The writes that fill the chain with `content` and empty the clusters a directory grows by. -/
def fill (g : Geometry) (content : Mem) (new grow : List Nat) : List Write :=
  contentWrites g content new 0 ++ contentWrites g (firstSector 0 0) grow 0

lemma mem_fill {w : Write} (h : w ∈ fill g content new grow) :
    ∃ c ∈ new ++ grow, ∃ i < g.perCluster, w.1 = clusterSector g c + i := by
  rcases List.mem_append.mp h with h | h
  · obtain ⟨c, hc, hw⟩ := mem_contentWrites h
    exact ⟨c, List.mem_append_left _ hc, hw⟩
  · obtain ⟨c, hc, hw⟩ := mem_contentWrites h
    exact ⟨c, List.mem_append_right _ hc, hw⟩

lemma fill_other {m : Mem} {a : Nat}
    (ha : ∀ c, c ∈ new ∨ c ∈ grow → ¬(clusterBase g c ≤ a ∧ a < clusterBase g c + g.clusterBytes)) :
    applyWrites m (fill g content new grow) a = m a := by
  refine applyWrites_other fun w hm e => ?_
  obtain ⟨c, hc, i, hi, e'⟩ := mem_fill hm
  exact ha c (List.mem_append.mp hc) (sector_in_cluster hi (e.trans e'))

namespace Reserved

/-- The image with the reserved clusters filled. -/
def image (x : Image) (fat' content : Mem) (new grow : List Nat) : Image :=
  ⟨x.geo, fat', applyWrites x.medium (fill x.geo content new grow)⟩

section
variable (h : Reserved x.geo x.fat fat' new grow)
include h

lemma not_owned (hc : c ∈ new ∨ c ∈ grow) : ¬x.Owned c :=
  fun ho => ho.next_ne_zero (h.free c hc).2

lemma agree (content : Mem) : Image.Agree x (image x fat' content new grow) where
  geo := rfl
  root a _ h2 := fill_other fun c hc h3 => by
    have := clusterBase_bounds (h.free c hc).1
    omega
  data c ho a h1 h2 := fill_other fun c' hc h3 => by
    obtain rfl := cluster_unique ho.valid (h.free c' hc).1 h1 h2 h3.1 h3.2
    exact h.not_owned hc ho
  next c ho := h.other c (fun hc => h.not_owned (.inl hc) ho) fun hc => h.not_owned (.inr hc) ho

lemma content_eq {off : Nat} (hk : k < new.length)
    (ho : off < x.geo.clusterBytes) : (image x fat' content new grow).medium (clusterBase x.geo new[k] + off) =
      content (k * x.geo.clusterBytes + off) := by
  have hm := List.getElem_mem hk
  show applyWrites x.medium (fill x.geo content new grow) _ = _
  rw [fill, applyWrites_append, contentWrites_other (fun _ hw => hw),
    contentWrites_apply h.nodup (fun c hc => (h.free c (.inl hc)).1) hk ho, Nat.zero_add]
  intro c hc h3
  have hb := x.geo.clusterBytes_ge
  have e := cluster_unique (h.free _ (.inl hm)).1 (h.free c (.inr hc)).1 (by omega) (by omega) h3.1 h3.2
  exact h.disjoint c hc (e ▸ hm)

end

lemma zero_eq (h : Reserved x.geo x.fat fat' new [n]) (content : Mem) (hi : i ∈ clusterSlots x.geo n) (hj : k < 32) :
    (image x fat' content new [n]).entry i k = 0 := by
  have hb := slotBase_cluster hi
  have hv := (h.free n (by simp)).1
  have e : slotBase i + k = clusterBase x.geo [n][0] + (slotBase i + k - clusterBase x.geo n) := by
    rw [List.getElem_singleton]
    omega
  unfold Image.entry
  rw [slice_apply hj]
  show applyWrites x.medium (fill x.geo content new [n]) _ = _
  rw [fill, applyWrites_append, e, contentWrites_apply (by simp) (by simpa using hv) (by simp) (by omega)]
  simp [firstSector]

lemma taken_iff (h : Reserved g fat fat' new grow) :
    nextCluster fat' c ≠ 0 ↔ nextCluster fat c ≠ 0 ∨ c ∈ new ∨ c ∈ grow := by
  by_cases hc : c ∈ new ∨ c ∈ grow
  · exact ⟨fun _ => .inr hc, fun _ => h.used c hc⟩
  · have hn := not_or.mp hc
    rw [h.other c hn.1 hn.2]
    exact ⟨.inl, fun ho => ho.resolve_right hc⟩

end Reserved

/-- The plan's clusters are allocated and filled, and nothing in the tree has changed; a directory may have
grown by `grow`. -/
structure Grounded (p : Plan) (x : Image) (new grow : List Nat) (content : Mem) : Prop where
  sound : x.Sound
  reserved_eq : p.reserved = new ++ grow
  data_eq : p.data = fill x.geo content new grow
  free : ∀ c, c ∈ new ∨ c ∈ grow → validCluster x.geo c = true ∧ nextCluster x.fat c = 0
  disjoint : ∀ c ∈ grow, c ∉ new
  prepared : Image.Quiet x (p.prepared x)
  owned : ∀ c, (p.prepared x).Owned c ↔ x.Owned c ∨ c ∈ grow
  taken : ∀ c, nextCluster p.fat1 c ≠ 0 ↔ nextCluster x.fat c ≠ 0 ∨ c ∈ new ∨ c ∈ grow
  chain : ∀ c tl, new = c :: tl → IsChain x.geo p.fat1 c new
  content_eq : ∀ k (hk : k < new.length) off, off < x.geo.clusterBytes →
    (p.prepared x).medium (clusterBase x.geo new[k] + off) = content (k * x.geo.clusterBytes + off)

lemma Grounded.fresh (h : Grounded p x new grow content) (hc : c ∈ new) : ¬(p.prepared x).Owned c := by
  rw [h.owned c]
  rintro (ho | hg)
  · exact ho.next_ne_zero (h.free c (.inl hc)).2
  · exact h.disjoint c hg hc

lemma Reserved.grounded (hs : x.Sound) (hr : Reserved x.geo x.fat p.fat1 new []) (h1 : p.reserved = new ++ [])
    (h2 : p.data = fill x.geo content new []) : Grounded p x new [] content ∧ Image.Agree x (p.prepared x) := by
  have e : p.prepared x = Reserved.image x p.fat1 content new [] := by
    unfold Plan.prepared Reserved.image
    rw [h2]
  have ha : Image.Agree x (p.prepared x) := e ▸ hr.agree content
  refine ⟨⟨hs, h1, h2, hr.free, by simp, ha.quiet hs, fun c => ?_, fun c => hr.taken_iff, hr.chain, ?_⟩, ha⟩
  · simpa using ha.owned hs
  · intro k hk off ho
    rw [e]
    exact hr.content_eq hk ho

lemma Full.growth (hf : Full x d name cs) (hs : x.Sound)
    (hd : x.forest.Reach d) (hr : Reserved x.geo x.fat fat' new [n]) (hl : cs.getLast? = some last)
    (content : Mem) : Image.Growth (Reserved.image x fat' content new [n]) d cs last n := by
  have ha := hr.agree content
  have hsame := ha.same hs
  have howned : ∀ c ∈ cs, x.Owned c := by
    rcases hs.dir_cases hd with rfl | ⟨p, s, f, cs', ho, hk, he, hh, hc⟩
    · have := validCluster_range (hf.chain.valid hf.chain.head_mem)
      omega
    · obtain rfl := hf.chain.det hc
      exact fun c hc => ⟨p, s, f, cs, ho, hh, hc⟩
  refine ⟨hsame.reach.mpr hd, ha.isChain hf.chain howned, hl, (hr.free n (by simp)).1, ?_, hr.ends n (by simp),
    fun i hi => hr.zero_eq content hi (by omega), ?_, hf.limit⟩
  · rw [ha.owned hs]
    exact hr.not_owned (by simp)
  · intro q hq
    obtain ⟨i, hi, rfl⟩ := List.mem_map.mp hq
    rw [ha.slots hs hd] at hi
    simp only
    rw [ha.entry hs hd hi]
    exact hf.full (i, x.entry i) (List.mem_map.mpr ⟨i, hi, rfl⟩)

lemma Reserved.grounded_grown (hs : x.Sound) (hd : x.forest.Reach d)
    (hf : Full x d name cs) (hr : Reserved x.geo x.fat fat' new [n]) (hl : cs.getLast? = some last)
    (h0 : p.fat1 = setCluster fat' last n) (h1 : p.reserved = new ++ [n])
    (h2 : p.data = fill x.geo content new [n]) : Grounded p x new [n] content := by
  have hg := hf.growth hs hd hr hl content
  have ha := hr.agree content
  have hs' := ha.sound hs
  have e : p.prepared x = (Reserved.image x fat' content new [n]).grown last n := by
    unfold Plan.prepared Reserved.image Image.grown
    rw [h2, h0]
  have hlast : x.Owned last := (ha.owned hs).mp (hg.owned_cs hs' hg.last_mem)
  have hnl : last ∉ new := fun hm => hr.not_owned (.inl hm) hlast
  have hv := validCluster_range hg.valid
  refine ⟨hs, h1, h2, hr.free, hr.disjoint, e ▸ (ha.quiet hs).trans (hg.quiet hs'), fun c => ?_, fun c => ?_,
    fun c tl ec => ?_, fun k hk off ho => ?_⟩
  · rw [e, hg.owned hs', ha.owned hs, List.mem_singleton]
  · rw [h0]
    by_cases hc : c = last
    · subst hc
      rw [nextCluster_setCluster_same (by omega)]
      exact ⟨fun _ => .inl hlast.next_ne_zero, fun _ => by omega⟩
    · rw [nextCluster_setCluster_other hc]
      exact hr.taken_iff
  · rw [h0]
    exact (hr.chain c tl ec).congr fun y hy => nextCluster_setCluster_other fun e => hnl (e ▸ hy)
  · rw [e]
    exact hr.content_eq hk ho

/-! ## The slot -/

lemma Image.Editable.of_agree (h : Image.Editable x d i pre post) (hs : x.Sound) (ha : Image.Agree x y) :
    Image.Editable y d i pre post := by
  have hread : ∀ j ∈ pre ++ i :: post, y.entry j = x.entry j := fun j hj =>
    ha.entry hs h.reach (by rwa [h.slots])
  refine ⟨⟨(ha.same hs).reach.mpr h.reach, (ha.slots hs h.reach).trans h.slots⟩, fun j hj => ?_, h.depth,
    fun h0 => ?_⟩
  · rw [hread j (by simp [hj])]
    exact h.before j hj
  · rw [hread i (by simp)] at h0
    have e : y.read post = x.read post := List.map_congr_left fun j hj => by rw [hread j (by simp [hj])]
    rw [e]
    exact h.behind h0

lemma Image.Quiet.owned_withSlot (h : Image.Quiet x (x.withSlot i e)) : (x.withSlot i e).Owned c ↔ x.Owned c := by
  constructor
  · rintro ⟨d, s, f, cs, ho, hh, hc⟩
    exact ⟨d, s, f, cs, h.same.obj.mp ho, Image.holds_withSlot.mp hh, hc⟩
  · rintro ⟨d, s, f, cs, ho, hh, hc⟩
    exact ⟨d, s, f, cs, h.same.obj.mpr ho, Image.holds_withSlot.mpr hh, hc⟩

/-- The plan has seen to everything before the entry. -/
structure Placement (p : Plan) (x : Image) (d : Nat) (pre post new grow : List Nat) (content : Mem) : Prop
    extends Grounded p x new grow content where
  cleared : Image.Quiet (p.prepared x) (p.cleared x)
  clear_at : ∀ j, p.clear = some j → slotOffset x.geo j = some (slotBase j)
  slot_at : slotOffset x.geo p.slot = some (slotBase p.slot)
  editable : Image.Editable (p.cleared x) d p.slot pre post
  owned_cleared : ∀ c, (p.cleared x).Owned c ↔ (p.prepared x).Owned c
  new_kept : ∀ c ∈ new, ∀ a, clusterBase x.geo c ≤ a → a < clusterBase x.geo c + x.geo.clusterBytes →
    (p.cleared x).medium a = (p.prepared x).medium a

lemma Grounded.place (h : Grounded p x new grow content) (hc : p.clear = none)
    (he : Image.Editable (p.prepared x) d p.slot pre post) : Placement p x d pre post new grow content := by
  have e : p.cleared x = p.prepared x := by
    unfold Plan.cleared
    rw [hc]
  refine ⟨h, ?_, by simp [hc], ?_, e ▸ he, by simp [e], by simp [e]⟩
  · rw [e]
    exact ⟨⟨rfl, rfl, fun _ _ => rfl, fun _ _ _ _ => rfl⟩, h.prepared.sound, fun _ _ _ _ _ => rfl⟩
  · exact h.prepared.sound.slotOffset he.reach he.mem

lemma Grounded.place_end {needed : Prop} (h : Grounded p x new grow content)
    (hat : Image.SlotAt (p.prepared x) d p.slot pre post) (hbefore : ∀ j ∈ pre, (p.prepared x).entry j 0 ≠ 0)
    (hdepth : d ≠ 0 → 2 ≤ pre.length) (h0 : (p.prepared x).entry p.slot 0 = 0)
    (hneed : ¬needed → post = []) (hb : Behind (p.prepared x) post needed p.clear) :
    Placement p x d pre post new grow content ∧ (p.cleared x).entry p.slot 0 = 0 ∧
      ∀ k ∈ pre, (p.cleared x).entry k = (p.prepared x).entry k := by
  have hs := h.prepared.sound
  cases hclear : p.clear with
  | none =>
    have e : p.cleared x = p.prepared x := by
      unfold Plan.cleared
      rw [hclear]
    refine ⟨h.place hclear ⟨hat, hbefore, hdepth, fun _ => ?_⟩, e ▸ h0, fun k _ => by rw [e]⟩
    cases post with
    | nil => rfl
    | cons j tl =>
      rw [hclear] at hb
      cases hb with
      | keep hk =>
        have hn : needed := by
          by_contra hn
          simpa using hneed hn
        have hz : ((p.prepared x).entry j 0 != 0) = false := by simp [hk hn j tl rfl]
        exact List.takeWhile_cons_of_neg (by simp [hz])
  | some j =>
    rw [hclear] at hb
    have e : p.cleared x = (p.prepared x).withSlot j fun _ => 0 := by
      unfold Plan.cleared
      rw [hclear]
    cases hb with
    | @clear _ tl hn hpost =>
      subst hpost
      have hat' : Image.SlotAt (p.prepared x) d j (pre ++ [p.slot]) tl := ⟨hat.reach, by simp [hat.slots]⟩
      have hdepth' : d ≠ 0 → 2 ≤ (pre ++ [p.slot]).length := fun hd => by
        have := hdepth hd
        simp only [List.length_append, List.length_singleton]
        omega
      have hz : slice (fun _ => 0 : Entry) 0 32 = fun _ => 0 := by
        funext k
        simp [slice]
      have hq : Image.Quiet (p.prepared x) ((p.prepared x).withSlot j fun _ => 0) :=
        hat'.quiet hs hz hdepth' ⟨p.slot, by simp, h0⟩
      have hne : ∀ k ∈ pre ++ [p.slot], k ≠ j := fun k hk e => (hat'.not_mem hs).1 (e ▸ hk)
      have hkeep : ∀ k ∈ pre ++ [p.slot], ((p.prepared x).withSlot j fun _ => 0).entry k = (p.prepared x).entry k :=
        fun k hk => hat'.entry_other hs hat'.reach (by rw [hat'.slots]; exact List.mem_append_left _ hk) (hne k hk)
      refine ⟨⟨h, e ▸ hq, ?_, ?_, ?_, fun c => ?_, fun c hc a h1 h2 => ?_⟩, ?_, fun k hk => ?_⟩
      · intro k hk
        obtain rfl : j = k := by simpa [hclear] using hk
        exact hs.slotOffset hat'.reach hat'.mem
      · exact hs.slotOffset hat.reach hat.mem
      · rw [e]
        refine ⟨⟨hq.same.reach.mpr hat.reach, hat.slots⟩, fun k hk => ?_, hdepth, fun _ => ?_⟩
        · rw [hkeep k (by simp [hk])]
          exact hbefore k hk
        · show ((j, _) :: _ : List (Nat × Entry)).takeWhile _ = []
          rw [Image.entry_withSlot_same hz]
          exact List.takeWhile_cons_of_neg (by simp)
      · rw [e]
        exact hq.owned_withSlot
      · rw [e]
        refine hat'.byte_outside (e := fun _ => 0) hs (h.free c (.inl hc)).1 (fun hm => ?_) h1 h2
        exact h.fresh hc (hs.clusters_owned hat'.reach hm)
      · rw [e, hkeep p.slot (by simp)]
        exact h0
      · rw [e]
        exact hkeep k (by simp [hk])

lemma Full.editable (hf : Full x d name cs) (hs : x.Sound)
    (hd : x.forest.Reach d) (hr : Reserved x.geo x.fat fat' new [n]) (hl : cs.getLast? = some last)
    (content : Mem) : (∃ rest, Image.Editable ((Reserved.image x fat' content new [n]).grown last n) d
      (clusterSector x.geo n * 16 + 2) (x.slots d) rest) ∧
      ∀ j ∈ x.slots d, ((Reserved.image x fat' content new [n]).grown last n).entry j = x.entry j := by
  have ha := hr.agree content
  have hs' := ha.sound hs
  have hg := hf.growth hs hd hr hl content
  obtain ⟨rest, hrest⟩ : ∃ rest, clusterSlots x.geo n = (clusterSector x.geo n * 16 + 2) :: rest := by
    obtain ⟨rest, e⟩ := clusterSlots_cons (g := x.geo) (c := n)
    exact ⟨_, e⟩
  have hsl := hg.slots_self hs'
  rw [show clusterSlots (Reserved.image x fat' content new [n]).geo n = _ from hrest, ha.slots hs hd] at hsl
  have hkeep : ∀ j ∈ x.slots d, ((Reserved.image x fat' content new [n]).grown last n).entry j = x.entry j :=
    fun j hj => ha.entry hs hd hj
  refine ⟨⟨rest, ⟨(hg.same hs').reach.mpr hg.reach, hsl⟩, fun j hj => ?_, fun hd0 => ?_, fun _ => ?_⟩, hkeep⟩
  · rw [hkeep j hj]
    exact hf.full (j, x.entry j) (List.mem_map.mpr ⟨j, hj, rfl⟩)
  · rcases hs.dir_cases hd with rfl | ⟨q, s, f, cs', ho, hk, he, -, -⟩
    · exact absurd rfl hd0
    · obtain ⟨a, b, tl, hl, -⟩ := hs.dots ho hk
      rw [he] at hl
      simp [hl]
  · cases rest with
    | nil => rfl
    | cons j tl =>
      have hz := hg.zero j (by
        rw [show clusterSlots (Reserved.image x fat' content new [n]).geo n = _ from hrest]
        simp)
      exact List.takeWhile_cons_of_neg (by
        simp [show ((Reserved.image x fat' content new [n]).grown last n).entry j 0 = 0 from hz])

/-! ## The entry -/

namespace Placement

variable {old : List Nat}

section
variable (h : Placement p x d pre post new grow content)
include h

lemma fresh_cleared (hc : c ∈ new) : ¬(p.cleared x).Owned c := by
  rw [h.owned_cleared]
  exact h.fresh hc

section
variable (hclip : slice p.entry 0 32 = p.entry)
  (old_none : Image.liveOption ((p.cleared x).entry p.slot) = none → old = [])
  (freed : ∀ c, nextCluster p.fat2 c = if c ∈ old then 0 else nextCluster p.fat1 c)
include hclip old_none freed

lemma valid (h0 : p.entry 0 ≠ 0)
    (old_leaf : ∀ f, Image.liveOption ((p.cleared x).entry p.slot) ≠ none →
      subdirectory ((p.cleared x).entry p.slot) = some f → (p.cleared x).live f = [])
    (new_leaf : ∀ f, Image.liveOption p.entry ≠ none → subdirectory p.entry = some f →
      (p.published x).live f = [] ∧ ¬(p.cleared x).forest.Reach f)
    (new_holds : Image.liveOption p.entry ≠ none → (p.cleared x).Holds p.entry new)
    (new_dots : Image.liveOption p.entry ≠ none → entryKind p.entry = .directory →
      (p.published x).Dots (entryFirst p.entry) d) (new_live : new ≠ [] → Image.liveOption p.entry ≠ none)
    (old_holds : ∀ f, Image.liveOption ((p.cleared x).entry p.slot) = some f → (p.cleared x).Holds f old) :
    p.Valid x d pre post new grow old where
  sound := h.sound
  free c hc := h.free c (by rwa [h.reserved_eq, List.mem_append] at hc)
  filled w hw := by
    rw [h.data_eq] at hw
    rw [h.reserved_eq]
    exact mem_fill hw
  prepared := h.prepared
  cleared := h.cleared
  clear_at := h.clear_at
  slot_at := h.slot_at
  put := ⟨h.editable, h.cleared.sound, hclip, h0, old_leaf, new_leaf, new_holds,
    fun _ hc => h.fresh_cleared hc, new_dots⟩
  old_holds := old_holds
  old_none := old_none
  freed := freed
  owned c := (h.owned_cleared c).trans (h.owned c)
  new_live := new_live
  taken := h.taken
  reserved_mem c := by rw [h.reserved_eq, List.mem_append]

lemma valid_file (h0 : p.entry 0 ≠ 0) (hlive : liveEntry p.entry = true) (hkind : entryKind p.entry = .file)
    (hlen : new.length = clustersFor x.geo (entrySize p.entry)) (hfirst : entryFirst p.entry = new.head?.getD 0)
    (old_file : ∀ f, Image.liveOption ((p.cleared x).entry p.slot) = some f →
      entryKind f = .file ∧ (p.cleared x).Holds f old) : p.Valid x d pre post new grow old := by
  have hl : Image.liveOption p.entry ≠ none := by simp [Image.liveOption, h0, hlive]
  have hnosub : subdirectory p.entry = none := by simp [subdirectory, hkind]
  refine h.valid hclip old_none freed h0 ?_ (by simp [hnosub]) (fun _ => ?_) (by simp [hkind]) (fun _ => hl)
    fun f hf => (old_file f hf).2
  · intro f hne hsub
    obtain ⟨e', he'⟩ := Option.ne_none_iff_exists'.mp hne
    obtain ⟨rfl, -⟩ := Image.liveOption_some.mp he'
    simp [subdirectory, (old_file _ he').1] at hsub
  · cases new with
    | nil =>
      have hz := clustersFor_le.mp (Nat.le_of_eq hlen.symm)
      refine .empty hkind (by simpa using hz) (by simpa using hfirst)
    | cons c tl =>
      have hfirst' : entryFirst p.entry = c := by simpa using hfirst
      refine .file hkind ?_ ?_ (by rw [Plan.cleared_geo]; exact hlen)
      · intro hz
        have : clustersFor x.geo 0 ≤ 0 := clustersFor_le.mpr (by omega)
        rw [hz] at hlen
        simp only [List.length_cons] at hlen
        omega
      · rw [hfirst', Plan.cleared_geo, Plan.cleared_fat]
        exact h.chain c tl rfl

lemma valid_deleted (hnew : new = []) (h5 : p.entry 0 = 0xe5)
    (old_leaf : ∀ f, Image.liveOption ((p.cleared x).entry p.slot) ≠ none →
      subdirectory ((p.cleared x).entry p.slot) = some f → (p.cleared x).live f = [])
    (old_holds : ∀ f, Image.liveOption ((p.cleared x).entry p.slot) = some f → (p.cleared x).Holds f old) :
    p.Valid x d pre post new grow old := by
  have hl : Image.liveOption p.entry = none := by simp [Image.liveOption, liveEntry, h5]
  exact h.valid hclip old_none freed (by rw [h5]; decide) old_leaf (by simp [hl]) (by simp [hl]) (by simp [hl])
    (by simp [hnew]) old_holds

end

end

lemma slots_new (h : Placement p x d pre post [n] grow content) :
    (p.published x).slots n = clusterSlots x.geo n := by
  have hc : IsChain (p.published x).geo (p.published x).fat n [n] := by
    rw [Plan.published_geo, Plan.published_fat]
    exact h.chain n [] rfl
  rw [Image.slots_chain hc, Plan.published_geo]
  simp

lemma published_content (h : Placement p x d pre post new grow content) (off : Nat) (hk : k < new.length)
    (ho : off < x.geo.clusterBytes) :
    (p.published x).medium (clusterBase x.geo new[k] + off) = content (k * x.geo.clusterBytes + off) := by
  have hm := List.getElem_mem hk
  have hv := (h.free _ (.inl hm)).1
  rw [← h.content_eq k hk off ho, ← h.new_kept _ hm _ (by omega) (by omega)]
  refine h.editable.byte_outside (e := p.entry) h.cleared.sound (c := new[k])
    (by rw [Plan.cleared_geo]; exact hv) (fun hc => ?_) (by rw [Plan.cleared_geo]; omega)
    (by rw [Plan.cleared_geo]; omega)
  exact h.fresh_cleared hm (h.cleared.sound.clusters_owned h.editable.reach hc)

lemma bytes_new (h : Placement p x d pre post new grow content)
    (hlen : new.length = clustersFor x.geo (entrySize p.entry)) (hfirst : entryFirst p.entry = new.head?.getD 0) :
    (p.published x).bytes p.entry = (List.range (entrySize p.entry)).map content := by
  have hcb := x.geo.clusterBytes_ge
  have hsize := clustersFor_le.mp (Nat.le_of_eq hlen.symm)
  unfold Image.bytes
  refine List.map_congr_left fun k hk => ?_
  have hk := List.mem_range.mp hk
  have hlt : k / x.geo.clusterBytes < new.length := by
    rw [Nat.div_lt_iff_lt_mul (by omega)]
    omega
  have hch : IsChain (p.published x).geo (p.published x).fat (entryFirst p.entry) new := by
    rw [Plan.published_geo, Plan.published_fat]
    cases new with
    | nil => simp at hlt
    | cons c tl =>
      rw [hfirst]
      exact h.chain c tl rfl
  rw [Image.clusters_eq hch, Plan.published_geo, List.getD_eq_getElem _ _ hlt,
    h.published_content _ hlt (Nat.mod_lt _ (by omega)), Nat.div_add_mod']

lemma entry_new (h : Placement p x d pre post [n] grow content) (hi : i ∈ clusterSlots x.geo n) :
    (p.published x).entry i = slice content (slotBase i - clusterBase x.geo n) 32 := by
  have hb := slotBase_cluster hi
  funext j
  unfold Image.entry slice
  split
  · rename_i hj
    have e := h.published_content (k := 0) (slotBase i - clusterBase x.geo n + j) (by simp) (by omega)
    rw [List.getElem_singleton, Nat.zero_mul, Nat.zero_add] at e
    rw [← e]
    congr 1
    omega
  · rfl

lemma dots_new (h : Placement p x d pre post [n] grow (firstSector n parent))
    (hp : parent < 65536) : (p.published x).Dots n parent := by
  have hv := validCluster_range (h.free n (by simp)).1
  obtain ⟨rest, hrest⟩ := clusterSlots_cons (g := x.geo) (c := n)
  have ha := h.entry_new (i := clusterSector x.geo n * 16 + 2) (by simp [hrest])
  have hb := h.entry_new (i := clusterSector x.geo n * 16 + 3) (by simp [hrest])
  have ea : slice (firstSector n parent) (slotBase (clusterSector x.geo n * 16 + 2) - clusterBase x.geo n) 32 =
      slice (dotSlot false n) 0 32 := by
    rw [show slotBase (clusterSector x.geo n * 16 + 2) - clusterBase x.geo n = 0 by
      unfold slotBase clusterBase; omega]
    refine slice_congr fun j hj => ?_
    unfold firstSector
    rw [if_pos (by omega), if_pos (by omega)]
  have eb : slice (firstSector n parent) (slotBase (clusterSector x.geo n * 16 + 3) - clusterBase x.geo n) 32 =
      slice (dotSlot true parent) 0 32 := by
    rw [show slotBase (clusterSector x.geo n * 16 + 3) - clusterBase x.geo n = 32 by
      unfold slotBase clusterBase; omega]
    funext j
    unfold slice firstSector
    split
    · rw [if_pos (by omega), if_neg (by omega), if_pos (by omega)]
      congr 1
      omega
    · rfl
  refine ⟨_, _, rest, (h.slots_new).trans hrest, ?_, ?_⟩
  · rw [ha, ea, dotsOk_slice]
    exact dotSlot_ok (by omega)
  · rw [hb, eb, dotsOk_slice]
    exact dotSlot_ok hp

lemma live_new (h : Placement p x d pre post [n] grow (firstSector n parent)) : (p.published x).live n = [] := by
  have hv := validCluster_range (h.free n (by simp)).1
  obtain ⟨rest, hrest⟩ := clusterSlots_cons (g := x.geo) (c := n)
  have hzero : ∀ i ∈ rest, (p.published x).entry i 0 = 0 := by
    intro i hi
    have hm : i ∈ clusterSlots x.geo n := by simp [hrest, hi]
    have hnd := clusterSlots_nodup (g := x.geo) (c := n)
    rw [hrest] at hnd
    simp only [List.nodup_cons, List.mem_cons, not_or] at hnd
    obtain ⟨j, hj, rfl⟩ := mem_clusterSlots.mp hm
    have h0 : j ≠ 0 := fun e => hnd.1.2 (by simpa [e] using hi)
    have h1 : j ≠ 1 := fun e => hnd.2.1 (by simpa [e] using hi)
    rw [h.entry_new hm, slice_apply (by omega)]
    refine firstSector_zero ?_
    unfold slotBase clusterBase
    omega
  have hstop : ((p.published x).read rest).takeWhile (fun q => q.2 0 != 0) = [] := by
    cases rest with
    | nil => rfl
    | cons j tl => exact List.takeWhile_cons_of_neg (by simp [hzero j (by simp)])
  unfold Image.live Image.scan
  rw [if_neg (by omega), Image.listing_eq, h.slots_new, hrest]
  show ((List.takeWhile _ (_ :: _ :: (p.published x).read rest)).drop 2).filter _ = []
  rw [List.takeWhile_cons]
  split
  · rw [List.takeWhile_cons]
    split
    · rw [hstop]
      rfl
    · rfl
  · rfl

lemma valid_directory (h : Placement p x d pre post [n] grow (firstSector n d)) (hd : d < 65536)
    (hclip : slice p.entry 0 32 = p.entry) (h0 : p.entry 0 ≠ 0) (hlive : liveEntry p.entry = true)
    (hkind : entryKind p.entry = .directory) (hsize : entrySize p.entry = 0) (hfirst : entryFirst p.entry = n)
    (hold : Image.liveOption ((p.cleared x).entry p.slot) = none) (hfree : p.fat2 = p.fat1) :
    p.Valid x d pre post [n] grow [] := by
  have hl : Image.liveOption p.entry ≠ none := by simp [Image.liveOption, h0, hlive]
  have hv := validCluster_range (h.free n (by simp)).1
  refine h.valid hclip (fun _ => rfl) (by simp [hfree]) h0 (by simp [hold]) (fun f _ hf => ?_) (fun _ => ?_)
    (fun _ _ => ?_) (fun _ => hl) (by simp [hold])
  · obtain ⟨-, rfl⟩ := Image.subdirectory_eq_some.mp hf
    rw [hfirst]
    refine ⟨h.live_new, fun hr => ?_⟩
    rcases h.cleared.sound.reach_owned hr with e | ho
    · omega
    · exact h.fresh_cleared (by simp) ho
  · refine .directory hkind hsize ?_
    rw [hfirst, Plan.cleared_geo, Plan.cleared_fat]
    exact h.chain n [] rfl
  · rw [hfirst]
    exact h.dots_new hd

end Placement

end RumKernel.Fat16
