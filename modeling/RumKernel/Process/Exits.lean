import RumKernel.Process.Returns

/-!
# Exits

The invariant of the console state, and `console_member_exit`: the loops over the entries of a session, the exit of
a root, which closes the session, and the exit of another member, which is spliced out of the return links.
-/

namespace RumKernel.Process
open Function Lib

namespace Console

variable {ρ : Type} {s t : Console ρ} {m x y : ρ} {σ τ i j : Slot}

def entries (s : Console ρ) (σ i : Slot) : Option ρ := (s.sessions σ).members i

/-- The invariant of `session.c`: exact counters, sound links, entries that agree with the session fields of the
records, and a cleared record for each session that is not in use. -/
structure Valid (s : Console ρ) : Prop where
  exact : s.Exact
  sound : s.links.Sound
  session_of_entry : ∀ {σ i x}, s.entries σ i = some x → s.links.session x = some σ
  entry_of_session : ∀ {σ x}, s.links.session x = some σ → ∃ i, s.entries σ i = some x
  entry_inj : ∀ {σ i j x}, s.entries σ i = some x → s.entries σ j = some x → i = j
  unused : ∀ {σ}, s.sessionReferences σ = 0 → s.sessions σ = {}

lemma Valid.empty : Valid ({} : Console ρ) where
  exact := .empty
  sound := by
    refine ⟨nofun, nofun, nofun, nofun, nofun, ⟨nofun, fun ⟨r, hr⟩ => nomatch hr⟩, nofun, nofun, nofun,
      fun _ => 0, nofun⟩
  session_of_entry := nofun
  entry_of_session := nofun
  entry_inj := nofun
  unused _ := rfl

lemma Exact.references_pos (h : s.Exact) (he : s.entries σ i = some x) : 0 < s.sessionReferences σ := by
  refine h.sessions.pos (i := some (σ, i)) ?_
  change (if ((s.sessions σ).members i).isSome then some σ else none) = some σ
  rw [show (s.sessions σ).members i = some x from he]
  rfl

section
variable (h : s.Valid) (he : t.Exact) (hs : t.links.Sound) (hss : t.links.session = s.links.session)
include h he hs hss

lemma Valid.step (hen : t.entries = s.entries) (hin : ∃ i x, s.entries σ i = some x)
    (hot : ∀ τ, τ ≠ σ → t.sessions τ = s.sessions τ) : t.Valid where
  exact := he
  sound := hs
  session_of_entry hx := by
    rw [hen] at hx
    rw [hss]
    exact h.session_of_entry hx
  entry_of_session hx := by
    rw [hss] at hx
    rw [hen]
    exact h.entry_of_session hx
  entry_inj hx hx' := by
    rw [hen] at hx hx'
    exact h.entry_inj hx hx'
  unused := by
    intro τ hz
    by_cases hτ : τ = σ
    · subst hτ
      obtain ⟨i, x, hx⟩ := hin
      have := he.references_pos (by rw [hen]; exact hx)
      omega
    · rw [sessionReferences, hot τ hτ] at hz
      rw [hot τ hτ]
      exact h.unused hz

lemma Valid.step_records (hot : t.sessions = s.sessions) : t.Valid where
  exact := he
  sound := hs
  session_of_entry hx := by
    rw [entries, hot] at hx
    rw [hss]
    exact h.session_of_entry hx
  entry_of_session hx := by
    rw [hss] at hx
    obtain ⟨i, hi⟩ := h.entry_of_session hx
    exact ⟨i, by rw [entries, hot]; exact hi⟩
  entry_inj hx hx' := by
    rw [entries, hot] at hx hx'
    exact h.entry_inj hx hx'
  unused hz := by
    rw [sessionReferences, hot] at hz
    rw [hot]
    exact h.unused hz

end

lemma entries_setSession {v : Session ρ} (hv : v.members = (s.sessions σ).members) :
    (s.setSession σ v).entries = s.entries := by
  funext τ i
  by_cases h : τ = σ
  · subst h
    simp [entries, Console.setSession, hv]
  · simp [entries, Console.setSession, h]

lemma entries_retainSession : (s.retainSession σ).entries = s.entries := entries_setSession rfl

lemma entries_releaseSession : (s.releaseSession σ).entries = s.entries := by
  change (s.setSession σ { s.sessions σ with references := (s.sessions σ).references - 1 }).entries = s.entries
  exact entries_setSession rfl

section
variable (h : s.Valid)
include h

lemma Valid.entry_iff : (∃ i ∈ List.finRange 16, s.entries σ i = some x) ↔ s.links.session x = some σ :=
  ⟨fun ⟨_, _, hi⟩ => h.session_of_entry hi, fun hx => by
    obtain ⟨i, hi⟩ := h.entry_of_session hx
    exact ⟨i, List.mem_finRange i, hi⟩⟩

lemma Valid.references_zero (hl : s.links.live m = false) : s.references m = 0 := by
  rw [h.exact.members.eq_zero_iff]
  intro k
  cases k with
  | restore x => exact h.sound.not_restore hl
  | root σ => exact h.sound.not_root hl
  | owner σ => exact h.sound.not_owner hl

lemma Valid.not_root_of_session (hm : s.links.session m = some σ) (hr : s.links.root σ ≠ some m) (τ : Slot) :
    s.links.root τ ≠ some m := fun hrt => by
  have := (h.sound.rooted hrt).2.1
  rw [hm, Option.some.injEq] at this
  exact hr (this ▸ hrt)

lemma Valid.restore_ne_self : s.links.restore m ≠ some m := fun hr => by
  obtain ⟨rank, hrank⟩ := h.sound.acyclic
  exact absurd (hrank hr) (Nat.lt_irrefl _)

lemma Valid.entry_of_restore (hm : s.links.session m = some σ) (hx : s.links.restore x = some m) :
    ∃ i ∈ List.finRange 16, s.entries σ i = some x := by
  obtain ⟨-, -, τ, h3, h4⟩ := h.sound.returns hx
  rw [hm, Option.some.injEq] at h4
  exact h.entry_iff.mpr (h4 ▸ h3)

lemma Valid.depth : ∃ d : ρ → Nat, (∀ {x y}, s.links.restore x = some y → d y < d x) ∧
    ∀ {x σ}, s.links.session x = some σ → d x < 16 := by
  classical
  obtain ⟨rank, hrank⟩ := h.sound.acyclic
  -- the entries of lower rank in the session of `x`
  let below : ρ → Finset (Slot × Slot) := fun x => Finset.univ.filter fun k =>
    s.links.session x = some k.1 ∧ ∃ y, s.entries k.1 k.2 = some y ∧ rank y < rank x
  refine ⟨fun x => (below x).card, fun {x y} hxy => Finset.card_lt_card ?_, fun {x σ} hx => ?_⟩
  · obtain ⟨-, -, σ, hx, hy⟩ := h.sound.returns hxy
    obtain ⟨i, hi⟩ := h.entry_of_session hy
    rw [Finset.ssubset_iff_of_subset]
    · refine ⟨(σ, i), ?_, ?_⟩
      · simp only [below, Finset.mem_filter, Finset.mem_univ, true_and]
        exact ⟨hx, y, hi, hrank hxy⟩
      · simp only [below, Finset.mem_filter, Finset.mem_univ, true_and]
        rintro ⟨-, z, hz, hlt⟩
        rw [hi, Option.some.injEq] at hz
        subst hz
        exact absurd hlt (Nat.lt_irrefl _)
    · intro k hk
      simp only [below, Finset.mem_filter, Finset.mem_univ, true_and] at hk ⊢
      obtain ⟨hk1, z, hz, hlt⟩ := hk
      exact ⟨hx.trans (hy.symm.trans hk1), z, hz, hlt.trans (hrank hxy)⟩
  · obtain ⟨i, hi⟩ := h.entry_of_session hx
    have hsub : below x ⊆ (Finset.univ.erase i).image fun j => (σ, j) := by
      rintro ⟨τ, j⟩ hk
      simp only [below, Finset.mem_filter, Finset.mem_univ, true_and] at hk
      obtain ⟨hk1, z, hz, hlt⟩ := hk
      rw [hx, Option.some.injEq] at hk1
      subst hk1
      refine Finset.mem_image.mpr ⟨j, Finset.mem_erase.mpr ⟨?_, Finset.mem_univ j⟩, rfl⟩
      rintro rfl
      rw [hi, Option.some.injEq] at hz
      subst hz
      exact absurd hlt (Nat.lt_irrefl _)
    refine lt_of_le_of_lt ((Finset.card_le_card hsub).trans Finset.card_image_le) ?_
    rw [Finset.card_erase_of_mem (Finset.mem_univ i), Finset.card_univ, Fintype.card_fin]
    decide

end

lemma freeEntry_none (h : s.freeEntry σ = some i) : s.entries σ i = none := by
  have := List.find?_some h
  simpa [entries] using this

lemma Valid.available_closing (h : s.Valid) (ha : s.available = some σ) : s.links.closing σ = false := by
  have hz := List.find?_some ha
  rw [beq_iff_eq] at hz
  change (s.sessions σ).closing = false
  rw [h.unused hz]

variable [DecidableEq ρ]

/-! ## Loops over the entries -/

lemma sessions_releaseReturn : (s.releaseReturn m).sessions = s.sessions := by
  unfold releaseReturn
  cases (s.records m).restore <;> rfl

lemma sessions_owner_of_ne {next : Option ρ} (h : τ ≠ σ) : (s.owner σ next).sessions τ = s.sessions τ := by
  unfold Console.owner
  cases (s.sessions σ).owner <;> cases next <;> exact update_of_ne h _ _

lemma entries_owner {next : Option ρ} : (s.owner σ next).entries = s.entries := by
  funext τ i
  by_cases h : τ = σ
  · subst h
    unfold Console.owner entries
    cases (s.sessions τ).owner <;> cases next <;>
      simp [Console.setSession, Console.release, Console.retain, Console.setMember]
  · rw [entries, sessions_owner_of_ne h]
    rfl

lemma closeEntry_spec (h : s.Exact) : (s.closeEntry σ i).Exact ∧ (s.closeEntry σ i).sessions = s.sessions ∧
    (s.closeEntry σ i).links = { s.links with
      restore := fun x => if s.entries σ i = some x then none else s.links.restore x
      command := fun x => if s.entries σ i = some x then false else s.links.command x } := by
  unfold closeEntry
  rcases he : (s.sessions σ).members i with - | other
  · refine ⟨h, rfl, ?_⟩
    simp [entries, he]
  · refine ⟨(h.releaseReturn other).setMember rfl rfl, sessions_releaseReturn, ?_⟩
    simp only [links_setCommand, links_releaseReturn]
    ext x : 2 <;> first
      | rfl
      | (by_cases hx : x = other
         · subst hx
           simp [links, entries, he]
         · simp [links, entries, he, hx, Ne.symm hx])

lemma closeLoop_spec (h : s.Exact) (l : List Slot) : (l.foldl (fun s i => s.closeEntry σ i) s).Exact ∧
    (l.foldl (fun s i => s.closeEntry σ i) s).sessions = s.sessions ∧
    (l.foldl (fun s i => s.closeEntry σ i) s).links = { s.links with
      restore := fun x => if ∃ i ∈ l, s.entries σ i = some x then none else s.links.restore x
      command := fun x => if ∃ i ∈ l, s.entries σ i = some x then false else s.links.command x } := by
  induction l generalizing s with
  | nil => exact ⟨h, rfl, by simp⟩
  | cons i l ih =>
    obtain ⟨h1, h2, h3⟩ := closeEntry_spec (σ := σ) (i := i) h
    obtain ⟨k1, k2, k3⟩ := ih h1
    have hen : (s.closeEntry σ i).entries = s.entries := by
      funext τ j
      rw [entries, entries, h2]
    refine ⟨k1, k2.trans h2, k3.trans ?_⟩
    rw [h3, hen]
    ext x : 2 <;> first
      | rfl
      | (by_cases h1 : s.entries σ i = some x <;> by_cases h2 : ∃ j ∈ l, s.entries σ j = some x <;> simp [h1, h2])

lemma relinkEntry_spec (h : s.Exact) (hm : s.links.restore m ≠ some m) :
    (s.relinkEntry m σ i).Exact ∧ (s.relinkEntry m σ i).sessions = s.sessions ∧
    (s.relinkEntry m σ i).links = { s.links with
      restore := fun x => if s.entries σ i = some x ∧ s.links.restore x = some m then s.links.restore m
        else s.links.restore x } := by
  unfold relinkEntry
  rcases he : (s.sessions σ).members i with - | other
  · refine ⟨h, rfl, ?_⟩
    simp [entries, he]
  · dsimp only
    split
    · rename_i hr
      have hne : m ≠ other := by
        rintro rfl
        exact hm hr
      have hlinks := links_releaseReturn (s := s) (m := other)
      have hkeep : ((s.releaseReturn other).records m).restore = (s.records m).restore := by
        have := congrFun (congrArg Links.restore hlinks) m
        simpa [links, hne] using this
      have hex := h.releaseReturn other
      have hnone : ((s.releaseReturn other).records other).restore = none := by
        have := congrFun (congrArg Links.restore hlinks) other
        simpa [links] using this
      generalize hu : s.releaseReturn other = u at *
      have hsess : u.sessions = s.sessions := by rw [← hu, sessions_releaseReturn]
      have hgoal : ∀ t : Console ρ,
          t.links = { u.links with restore := update u.links.restore other (u.records m).restore } →
          t.links = { s.links with
            restore := fun x => if s.entries σ i = some x ∧ s.links.restore x = some m then s.links.restore m
              else s.links.restore x } := by
        intro t ht
        rw [ht, hlinks, hkeep]
        ext x : 2 <;> first
          | rfl
          | (by_cases hx : x = other
             · subst hx
               simp [links, entries, he, hr]
             · simp [links, entries, he, hx, Ne.symm hx])
      have hset : ((u.setMember other
          { u.records other with restore := (u.records m).restore }).records other).restore =
            (u.records m).restore := by
        simp [Console.setMember]
      rw [hset]
      rcases hrm : (u.records m).restore with - | target
      · exact ⟨hex.setMember hnone.symm rfl, hsess, hgoal _ (by rw [links_setRestore, hrm])⟩
      · refine ⟨?_, hsess, hgoal _ (by rw [links_retain, links_setRestore, hrm])⟩
        exact hex.setRestore hnone target
    · refine ⟨h, rfl, ?_⟩
      rename_i hr
      ext x : 2 <;> first
        | rfl
        | (by_cases hx : x = other
           · subst hx
             simp [links, entries, he, hr]
           · simp [links, entries, he, Ne.symm hx])

lemma relinkLoop_spec (h : s.Exact) (hm : s.links.restore m ≠ some m) (l : List Slot) :
    (l.foldl (fun s i => s.relinkEntry m σ i) s).Exact ∧
    (l.foldl (fun s i => s.relinkEntry m σ i) s).sessions = s.sessions ∧
    (l.foldl (fun s i => s.relinkEntry m σ i) s).links = { s.links with
      restore := fun x => if (∃ i ∈ l, s.entries σ i = some x) ∧ s.links.restore x = some m then s.links.restore m
        else s.links.restore x } := by
  induction l generalizing s with
  | nil => exact ⟨h, rfl, by simp⟩
  | cons i l ih =>
    obtain ⟨h1, h2, h3⟩ := relinkEntry_spec (σ := σ) (i := i) h hm
    have hkeep : (s.relinkEntry m σ i).links.restore m = s.links.restore m := by
      rw [h3]
      simp [hm]
    obtain ⟨k1, k2, k3⟩ := ih h1 (by rwa [hkeep])
    have hen : (s.relinkEntry m σ i).entries = s.entries := by
      funext τ j
      rw [entries, entries, h2]
    refine ⟨k1, k2.trans h2, k3.trans ?_⟩
    rw [hkeep, h3, hen]
    ext x : 2 <;> first
      | rfl
      | (by_cases h1 : s.entries σ i = some x <;> by_cases h2 : ∃ j ∈ l, s.entries σ j = some x <;>
          by_cases h3 : s.links.restore x = some m <;> simp [h1, h2, h3, hm])

/-! ## Exits -/

lemma exitRoot_spec (h : s.Exact)
    (hf : ∀ x, (∃ i ∈ List.finRange 16, s.entries σ i = some x) ↔ s.links.session x = some σ)
    (hr : s.links.root σ = some m) : (s.exitRoot m σ).Exact ∧ (s.exitRoot m σ).entries = s.entries ∧
    (∀ τ, τ ≠ σ → (s.exitRoot m σ).sessions τ = s.sessions τ) ∧ (s.exitRoot m σ).links = s.links.close σ := by
  unfold exitRoot
  have a1 : (s.setSession σ { s.sessions σ with closing := true }).Exact := h.setSession rfl rfl rfl rfl
  have a2 := links_setClosing (s := s) (σ := σ) (b := true)
  have a3 : (s.setSession σ { s.sessions σ with closing := true }).entries = s.entries := entries_setSession rfl
  have a4 : ∀ τ, τ ≠ σ → (s.setSession σ { s.sessions σ with closing := true }).sessions τ = s.sessions τ :=
    fun τ hτ => update_of_ne hτ _ _
  generalize s.setSession σ { s.sessions σ with closing := true } = a at a1 a2 a3 a4
  obtain ⟨b1, b2, b3⟩ := closeLoop_spec (σ := σ) a1 (List.finRange 16)
  dsimp only
  generalize (List.finRange 16).foldl (fun s i => s.closeEntry σ i) a = b at b1 b2 b3
  rw [a3] at b3
  simp only [hf, a2] at b3
  have c1 := b1.owner σ none
  have c2 : (b.owner σ none).links = _ := links_owner
  have c3 : (b.owner σ none).entries = s.entries := by
    rw [entries_owner, ← a3]
    funext τ i
    rw [entries, entries, b2]
  have c4 : ∀ τ, τ ≠ σ → (b.owner σ none).sessions τ = s.sessions τ := fun τ hτ => by
    rw [sessions_owner_of_ne hτ, b2, a4 τ hτ]
  generalize b.owner σ none = c at c1 c2 c3 c4
  have hrc : (c.sessions σ).root = some m := by
    have : c.links.root σ = some m := by
      rw [c2, b3]
      exact hr
    exact this
  have d1 := c1.clearRoot hrc
  have d2 : ((c.release m).setSession σ { (c.release m).sessions σ with root := none }).links = _ := links_setRoot
  have d3 : ((c.release m).setSession σ { (c.release m).sessions σ with root := none }).entries = s.entries := by
    rw [entries_setSession (by rfl)]
    exact c3
  have d4 : ∀ τ, τ ≠ σ →
    ((c.release m).setSession σ { (c.release m).sessions σ with root := none }).sessions τ = s.sessions τ :=
    fun τ hτ => (update_of_ne hτ _ _).trans (c4 τ hτ)
  generalize (c.release m).setSession σ { (c.release m).sessions σ with root := none } = d at d1 d2 d3 d4
  rw [links_release, c2, b3] at d2
  have hda : d.active = s.active := congrArg Links.active d2
  split
  · rename_i ha
    refine ⟨d1.deactivate ha, ?_, fun τ hτ => (update_of_ne hτ _ _).trans (d4 τ hτ), ?_⟩
    · rw [entries_releaseSession]
      exact d3
    · rw [links_releaseSession]
      have : links { d with active := none } = { d.links with active := none } := rfl
      rw [this, d2]
      rw [hda] at ha
      simp [Links.close, links, ha]
  · rename_i ha
    rw [hda] at ha
    refine ⟨d1, d3, d4, ?_⟩
    rw [d2]
    simp [Links.close, links, ha]

/-- The owner of `σ` after the exit of `m`, a member other than its root. -/
def successor (s : Console ρ) (m : ρ) (σ : Slot) : Option ρ :=
  match (s.sessions σ).owner with
  | none => none
  | some old =>
    if ((s.sessions σ).owner == some m || s.onChain m 16 (s.sessions σ).owner) &&
      (old == m || (s.records old).cancelled) then
      ((List.finRange 16).foldl (fun s i => s.relinkEntry m σ i) s).previous old
    else some old

/-- Who returned to `m` returns to where `m` returns. -/
def relinked (l : Links ρ) (m : ρ) : Links ρ :=
  { l with restore := fun x => if l.restore x = some m then l.restore m else l.restore x }

section
variable (h : s.Exact) (hm : s.links.restore m ≠ some m)
    (hf : ∀ x, s.links.restore x = some m → ∃ i ∈ List.finRange 16, s.entries σ i = some x)
include h hm hf

lemma relinkLoop_links
 :
    ((List.finRange 16).foldl (fun s i => s.relinkEntry m σ i) s).links = relinked s.links m := by
  rw [(relinkLoop_spec h hm (List.finRange 16)).2.2, relinked]
  refine Links.ext rfl (funext fun x => ?_) rfl rfl rfl rfl rfl rfl rfl rfl rfl
  dsimp only
  by_cases hx : s.links.restore x = some m
  · rw [if_pos ⟨hf x hx, hx⟩, if_pos hx]
  · rw [if_neg fun hh => hx hh.2, if_neg hx]

lemma exitOther_spec
 :
    (s.exitOther m σ).Exact ∧ (s.exitOther m σ).entries = s.entries ∧
    (∀ τ, τ ≠ σ → (s.exitOther m σ).sessions τ = s.sessions τ) ∧
    (s.exitOther m σ).links = (relinked s.links m).pass σ (s.successor m σ) := by
  obtain ⟨h1, h2, -⟩ := relinkLoop_spec (σ := σ) h hm (List.finRange 16)
  have h3 := relinkLoop_links h hm hf
  unfold exitOther successor
  dsimp only
  generalize (List.finRange 16).foldl (fun s i => s.relinkEntry m σ i) s = r at *
  have hcancel : ∀ x, (r.records x).cancelled = (s.records x).cancelled := fun x =>
    congrFun (congrArg Links.cancelled h3) x
  have hentries : r.entries = s.entries := by
    funext τ i
    rw [entries, entries, h2]
  rw [h2]
  rcases ho : (s.sessions σ).owner with - | old
  · refine ⟨h1, hentries, fun τ _ => by rw [h2], ?_⟩
    rw [h3, Links.pass_of_owner ho]
  · simp only [hcancel]
    split
    · refine ⟨h1.owner σ _, entries_owner.trans hentries, fun τ hτ => ?_, ?_⟩
      · rw [sessions_owner_of_ne hτ, h2]
      · rw [links_owner, h3]
        rfl
    · refine ⟨h1, hentries, fun τ _ => by rw [h2], ?_⟩
      rw [h3, Links.pass_of_owner ho]

end

/-- The member is no longer live. -/
abbrev quitting (s : Console ρ) (m : ρ) : Console ρ :=
    s.setMember m { s.records m with live := false, command := false }

namespace Valid

lemma quit_exact (h : s.Valid) : (s.quitting m).Exact :=
  h.exact.setMember rfl rfl

lemma exit_alone (h : s.Valid) (hr : s.links.restore m = none) (hno : ∀ x, s.links.restore x ≠ some m)
    (hroot : ∀ τ, s.links.root τ ≠ some m) (hown : ∀ τ, s.links.owner τ ≠ some m) :
    ((s.quitting m).releaseReturn m).Valid ∧ ((s.quitting m).releaseReturn m).links = s.links.quit m := by
  have hlinks : ((s.quitting m).releaseReturn m).links =
      s.links.quit m := by
    rw [links_releaseReturn, links_setLive]
    refine Links.ext rfl ?_ rfl rfl rfl rfl rfl rfl rfl rfl rfl
    exact update_eq_self_iff.mpr hr.symm
  refine ⟨h.step_records (h.quit_exact.releaseReturn m) ?_ ?_ sessions_releaseReturn, hlinks⟩
  · rw [hlinks]
    exact h.sound.quit hr hno hroot hown
  · rw [hlinks]
    rfl

lemma exit_root (h : s.Valid) (hr : s.links.root σ = some m) :
    (((s.quitting m).exitRoot m σ).releaseReturn m).Valid ∧ (((s.quitting m).exitRoot m σ).releaseReturn m).links =
      (s.links.close σ).quit m := by
  have hsess := (h.sound.rooted hr).2.1
  have hq : (s.quitting m).links = _ := links_setLive
  obtain ⟨h1, h2, h3, h4⟩ := exitRoot_spec (m := m) (h.quit_exact (m := m)) (σ := σ)
    (fun x => by rw [hq]; exact h.entry_iff) (by rw [hq]; exact hr)
  have hqe : (s.quitting m).entries = s.entries := rfl
  have hqs : (s.quitting m).sessions = s.sessions := rfl
  generalize s.quitting m = q at *
  have hlinks : ((q.exitRoot m σ).releaseReturn m).links = (s.links.close σ).quit m := by
    rw [links_releaseReturn, h4, hq]
    refine Links.ext rfl ?_ rfl rfl rfl ?_ rfl rfl rfl rfl rfl
    · refine update_eq_self_iff.mpr ?_
      simp [Links.close, hsess]
    · funext x
      by_cases hx : x = m
      · subst hx
        simp [Links.close, Links.quit, hsess]
      · simp [Links.close, Links.quit, hx]
  obtain ⟨i, hi⟩ := h.entry_of_session hsess
  obtain ⟨k1, k2, k3⟩ := h.sound.close_none hr
  refine ⟨h.step (σ := σ) (h1.releaseReturn m) ?_ ?_ ?_ ⟨i, m, hi⟩ fun τ hτ => ?_, hlinks⟩
  · rw [hlinks]
    refine (h.sound.close hr).quit (k1 m) (fun x => ?_) (fun τ => ?_) fun τ => ?_
    · rw [k1]
      rintro ⟨⟩
    · rw [k2]
      rintro ⟨⟩
    · rw [k3]
      rintro ⟨⟩
  · rw [hlinks]
    rfl
  · funext τ j
    rw [entries, sessions_releaseReturn]
    exact congrFun (congrFun (h2.trans hqe) τ) j
  · rw [sessions_releaseReturn, h3 τ hτ, hqs]

lemma onChain_iff {d : ρ → Nat} (hd : ∀ {x y}, s.links.restore x = some y → d y < d x) {fuel : Nat} (hf : d x < fuel) :
    s.onChain m fuel (some x) = true ↔ s.links.Returns x m := by
  induction fuel generalizing x with
  | zero => omega
  | succ fuel ih =>
    rw [onChain, Bool.or_eq_true, beq_iff_eq, Links.Returns, Relation.ReflTransGen.cases_head_iff]
    refine or_congr Iff.rfl ?_
    rcases hr : (s.records x).restore with - | y
    · have : ∀ z, s.links.restore x ≠ some z := fun z hz => nomatch hr.symm.trans hz
      simp [onChain, this]
    · have hxy : s.links.restore x = some y := hr
      have := hd hxy
      rw [ih (by omega)]
      exact ⟨fun h => ⟨y, hxy, h⟩, fun ⟨z, hz, h⟩ => Option.some.inj (hxy.symm.trans hz) ▸ h⟩

section
variable {r : Console ρ} {l : Links ρ} {o : ρ} {fuel : Nat} (hr : r.links = relinked (l.quit m) m)
include hr

/-- A round of the loop of `previous`, at a member that follows `x` on the chain. -/
lemma previousLoop_step (hxy : l.restore x = some y) (hym : y ≠ m) (hy : l.session y = some σ)
    (ih : r.previousLoop (some σ) fuel (r.records y).restore = some o ↔ l.Nearest m y o) :
    r.previousLoop (some σ) (fuel + 1) (some y) = some o ↔ l.Nearest m x o := by
  have hlive : (r.records y).live = l.live y := by
    have := congrFun (congrArg Links.live hr) y
    simpa [relinked, Links.quit, hym, links] using this
  have hcan : (r.records y).cancelled = l.cancelled y := congrFun (congrArg Links.cancelled hr) y
  have hses : (r.records y).session = some σ := (congrFun (congrArg Links.session hr) y).trans hy
  rw [previousLoop, Links.nearest_iff hxy]
  split
  · rename_i hc
    rw [hlive, hcan] at hc
    simp only [Bool.and_eq_true, Bool.not_eq_true'] at hc
    have ht : l.Takes m y := ⟨hym, hc.1.1, hc.1.2⟩
    simp [ht]
  · rename_i hc
    have ht : ¬l.Takes m y := fun ht => hc (by simp [hlive, hcan, hses, ht.2.1, ht.2.2])
    simp [ht, ih]

/-- The loop of `previous` finds the nearest candidate on the chain from `x`, in a state `r` in which `m` has stopped
and its references are gone. -/
lemma previousLoop_iff (hl : l.Sound) {d : ρ → Nat} (hd : ∀ {x y}, l.restore x = some y → d y < d x)
    (hx : l.session x = some σ) (hf : d x ≤ fuel) :
    r.previousLoop (some σ) fuel (r.records x).restore = some o ↔ l.Nearest m x o := by
  have hrestore : ∀ x, (r.records x).restore = if l.restore x = some m then l.restore m else l.restore x := fun x =>
    congrFun (congrArg Links.restore hr) x
  have hend : ∀ {fuel x}, l.restore x = none → (r.previousLoop (some σ) fuel none = some o ↔ l.Nearest m x o) :=
    fun hx => iff_of_false (by cases fuel <;> simp [previousLoop]) (Links.nearest_none hx)
  induction fuel generalizing x with
  | zero =>
    have hx0 : l.restore x = none := by
      cases hxr : l.restore x with
      | none => rfl
      | some y =>
        have := hd hxr
        omega
    rw [hrestore, hx0, if_neg nofun]
    exact hend hx0
  | succ fuel ih =>
    rw [hrestore]
    split
    · -- the chain leads over `m`
      rename_i hxm
      have hself : ¬l.Takes m m := fun ht => ht.1 rfl
      rw [Links.nearest_iff hxm, or_iff_right fun h => hself h.1, and_iff_right hself]
      have hdm := hd hxm
      cases hmr : l.restore m with
      | none => exact hend hmr
      | some y =>
        have hdy := hd hmr
        have hy := hl.session_of_restore hmr (hl.session_of_restore hxm hx)
        exact previousLoop_step hr hmr (fun e => absurd hdy (e ▸ Nat.lt_irrefl _)) hy (ih hy (by omega))
    · rename_i hxm
      cases hxr : l.restore x with
      | none => exact hend hxr
      | some y =>
        have hdy := hd hxr
        have hy := hl.session_of_restore hxr hx
        exact previousLoop_step hr hxr (fun e => hxm (e ▸ hxr)) hy (ih hy (by omega))

end

lemma successor_succeeds (h : s.Valid) (hm : s.links.session m = some σ) : s.links.Succeeds m σ
    ((s.quitting m).successor m σ) := by
  obtain ⟨d, hd, hd16⟩ := h.depth
  have hq : (s.quitting m).links = s.links.quit m := links_setLive
  have hr := relinkLoop_links (s := s.quitting m) (m := m) (σ := σ)
    h.quit_exact (by rw [hq]; exact h.restore_ne_self) (by rw [hq]; exact fun x hx => h.entry_of_restore hm hx)
  rw [hq] at hr
  unfold successor
  have howner : ((s.quitting m).sessions σ).owner = s.links.owner σ := rfl
  rw [howner]
  generalize s.quitting m = q at *
  generalize (List.finRange 16).foldl (fun s i => s.relinkEntry m σ i) q = r at *
  rcases ho : s.links.owner σ with - | old
  · exact .nobody ho
  · have hold := (h.sound.owned ho).2
    have hchain : q.onChain m 16 (some old) = true ↔ s.links.Returns old m := by
      rw [onChain_iff (d := d) (by rw [hq]; exact hd) (hd16 hold), hq]
      rfl
    have hcan : (q.records old).cancelled = s.links.cancelled old := congrFun (congrArg Links.cancelled hq) old
    have hleaves : ((some old == some m || q.onChain m 16 (some old)) &&
        (old == m || (q.records old).cancelled)) = true ↔ s.links.Leaves m old := by
      rw [hcan, Bool.and_eq_true, Bool.or_eq_true, Bool.or_eq_true, hchain, beq_iff_eq, beq_iff_eq, Option.some.injEq,
        Links.Leaves]
      refine and_congr ⟨?_, .inr⟩ Iff.rfl
      rintro (rfl | hret)
      · exact .refl
      · exact hret
    dsimp only
    split
    · rename_i hc
      refine .moves ho (hleaves.mp hc) fun o => ?_
      have hsess : (r.records old).session = some σ := (congrFun (congrArg Links.session hr) old).trans hold
      rw [previous, hsess]
      exact previousLoop_iff hr h.sound hd hold (hd16 hold).le
    · rename_i hc
      exact .stays ho fun hl => hc (hleaves.mpr hl)

lemma exit_other (h : s.Valid) (hm : s.links.session m = some σ) (hc : s.links.closing σ = false)
    (hroot : s.links.root σ ≠ some m) : (((s.quitting m).exitOther m σ).releaseReturn m).Valid ∧
    (((s.quitting m).exitOther m σ).releaseReturn m).links =
      ((s.links.pass σ ((s.quitting m).successor m σ)).splice m).quit m := by
  have hq : (s.quitting m).links = _ := links_setLive
  obtain ⟨h1, h2, h3, h4⟩ := exitOther_spec (s := s.quitting m) (m := m)
    (σ := σ) h.quit_exact (by rw [hq]; exact h.restore_ne_self) (by rw [hq]; exact fun x hx => h.entry_of_restore hm hx)
  have hsucceeds := h.successor_succeeds hm
  have hqe : (s.quitting m).entries = s.entries := rfl
  have hqs : (s.quitting m).sessions = s.sessions := rfl
  generalize s.quitting m = q at *
  generalize q.successor m σ = next at *
  have hsucc : ∀ {o}, next = some o → _ := fun ho => h.sound.succeeds hsucceeds ho
  have hlinks : ((q.exitOther m σ).releaseReturn m).links = ((s.links.pass σ next).splice m).quit m := by
    rw [links_releaseReturn, h4, hq]
    refine Links.ext rfl (funext fun x => ?_) rfl rfl rfl rfl rfl rfl rfl rfl rfl
    by_cases hx : x = m
    · subst hx
      simp [Links.quit, Links.splice]
    · simp [Links.quit, Links.splice, Links.pass, relinked, hx]
      rfl
  obtain ⟨i, hi⟩ := h.entry_of_session hm
  have hp : (s.links.pass σ next).Sound := h.sound.pass fun ho =>
    ⟨(hsucc ho).2.1, (hsucc ho).2.2.1, hc, (hsucc ho).2.2.2⟩
  have hown : ∀ τ, (s.links.pass σ next).owner τ ≠ some m := fun τ ho => by
    by_cases hτ : τ = σ
    · subst hτ
      have hn : next = some m := by simpa [Links.pass] using ho
      exact (hsucc hn).1 rfl
    · have := (hp.owned ho).2
      rw [show (s.links.pass σ next).session m = some σ from hm, Option.some.injEq] at this
      exact hτ this.symm
  have hrt : ∀ τ, (s.links.pass σ next).root τ ≠ some m := h.not_root_of_session hm hroot
  have hsp := hp.splice hrt hown
  refine ⟨h.step (σ := σ) (h1.releaseReturn m) ?_ ?_ ?_ ⟨i, m, hi⟩ fun τ hτ => ?_, hlinks⟩
  · rw [hlinks]
    refine hsp.quit (by simp [Links.splice]) (fun x hx => ?_) hrt hown
    simp only [Links.splice] at hx
    split at hx
    · cases hx
    · split at hx
      · exact h.restore_ne_self hx
      · contradiction
  · rw [hlinks]
    rfl
  · funext τ j
    rw [entries, sessions_releaseReturn]
    exact congrFun (congrFun (h2.trans hqe) τ) j
  · rw [sessions_releaseReturn, h3 τ hτ, hqs]

lemma memberExit_some (h : s.Valid) (m : ρ) : (s.memberExit (some m)).2.Valid ∧
    s.links.Exit m (s.memberExit (some m)).2.links ∧ (s.memberExit (some m)).2.links.live m = false := by
  unfold Console.memberExit
  dsimp only
  cases hl : (s.records m).live with
  | false => exact ⟨h, .dead hl, hl⟩
  | true =>
    have hlive : s.links.live m = true := hl
    simp only [Bool.not_true, Bool.false_eq_true, if_false]
    have hses : ((s.quitting m).records m).session =
        s.links.session m := by
      simp [Console.setMember, links]
    rw [hses]
    cases hs : s.links.session m with
    | none =>
      have hno : ∀ {σ}, s.links.session m ≠ some σ := by simp [hs]
      obtain ⟨h1, h2⟩ := h.exit_alone (m := m)
        (by
          cases hr : s.links.restore m with
          | none => rfl
          | some y =>
            obtain ⟨-, -, σ, h3, -⟩ := h.sound.returns hr
            exact absurd h3 hno)
        (fun x hr => by
          obtain ⟨-, -, σ, -, h4⟩ := h.sound.returns hr
          exact hno h4)
        (fun τ hr => hno (h.sound.rooted hr).2.1) fun τ ho => hno (h.sound.owned ho).2
      refine ⟨h1, ?_⟩
      rw [h2]
      exact ⟨.alone hlive fun σ hh => absurd hh hno, update_self _ _ _⟩
    | some σ =>
      dsimp only
      have hsessions : ∀ r, (s.setMember m r).sessions = s.sessions := fun r => rfl
      simp only [hsessions]
      split
      · rename_i hr
        obtain ⟨h1, h2⟩ := h.exit_root (m := m) (σ := σ) hr
        refine ⟨h1, ?_⟩
        rw [h2]
        exact ⟨.root hr, update_self _ _ _⟩
      · rename_i hr
        have hr' : s.links.root σ ≠ some m := hr
        cases hc : (s.sessions σ).closing with
        | false =>
          simp only [Bool.not_false, if_true]
          have hcl : s.links.closing σ = false := hc
          obtain ⟨h1, h2⟩ := h.exit_other (m := m) hs hcl hr'
          have ha : s.links.active = some σ := (h.sound.used hs).resolve_left (by simp [hcl])
          refine ⟨h1, ?_⟩
          rw [h2]
          exact ⟨.other hlive hs ha hr' (h.successor_succeeds hs), update_self _ _ _⟩
        | true =>
          simp only [Bool.not_true, Bool.false_eq_true, if_false]
          have hcl : s.links.closing σ = true := hc
          have hsame : ∀ {τ}, s.links.session m = some τ → τ = σ := fun hh => Option.some.inj (hh.symm.trans hs)
          obtain ⟨h1, h2⟩ := h.exit_alone (m := m) (h.sound.closed_restore hcl hs)
            (fun x hxr => by
              obtain ⟨-, -, τ, h3, h4⟩ := h.sound.returns hxr
              rw [h.sound.closed_restore hcl (hsame h4 ▸ h3)] at hxr
              cases hxr)
            (h.not_root_of_session hs hr') fun τ ho => by
              rw [hsame (h.sound.owned ho).2, (h.sound.closed hcl).2] at ho
              cases ho
          refine ⟨h1, ?_⟩
          rw [h2]
          exact ⟨.alone hlive fun τ hh => hsame hh ▸ hcl, update_self _ _ _⟩

lemma memberExit (h : s.Valid) (member : Option ρ) : (s.memberExit member).2.Valid ∧
    s.links.Move (.memberExit member) (s.memberExit member).2.links := by
  cases member with
  | none => exact ⟨h, .none⟩
  | some m => exact ⟨(h.memberExit_some m).1, .exit (h.memberExit_some m).2.1⟩

end Valid

end Console

end RumKernel.Process
