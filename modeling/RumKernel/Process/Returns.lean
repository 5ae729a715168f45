import RumKernel.Process.Links

/-!
# Return links

The transitions of the sessions on the states without counters, and the invariant they keep: return links and
owners lead to live members of the same session and never in a circle, and a session in use is either the
active one, with its root, or closing.
-/

namespace RumKernel.Process
open Function

namespace Links

variable {ρ : Type}

/-- How the links belong together. -/
structure Sound (l : Links ρ) : Prop where
  returns : ∀ {x y}, l.restore x = some y →
    l.live x = true ∧ l.live y = true ∧ ∃ σ, l.session x = some σ ∧ l.session y = some σ
  rooted : ∀ {σ r}, l.root σ = some r → l.live r = true ∧ l.session r = some σ ∧ l.restore r = none
  owned : ∀ {σ o}, l.owner σ = some o → l.live o = true ∧ l.session o = some σ
  closed : ∀ {σ}, l.closing σ = true → l.root σ = none ∧ l.owner σ = none
  closed_restore : ∀ {σ x}, l.closing σ = true → l.session x = some σ → l.restore x = none
  active : ∀ {σ}, l.active = some σ ↔ ∃ r, l.root σ = some r
  used : ∀ {σ x}, l.session x = some σ → l.closing σ = true ∨ l.active = some σ
  climbs : ∀ {σ x y}, l.restore x = some y → l.session y = some σ → l.root σ = some y ∨ ∃ z, l.restore y = some z
  owner_climbs : ∀ {σ o}, l.owner σ = some o → l.root σ = some o ∨ ∃ z, l.restore o = some z
  acyclic : ∃ rank : ρ → Nat, ∀ {x y}, l.restore x = some y → rank y < rank x

section transitions

variable [DecidableEq ρ]

/-- The record of `m` is written anew. -/
def enter (l : Links ρ) (m : ρ) (session : Option Slot) (foreground : Bool) : Links ρ :=
  { l with
    session := update l.session m session
    restore := update l.restore m none
    live := update l.live m true
    cancelled := update l.cancelled m false
    shell := update l.shell m false
    command := update l.command m false
    foreground := update l.foreground m foreground }

/-- `m` opens the session `σ`. -/
def lead (l : Links ρ) (m : ρ) (σ : Slot) : Links ρ :=
  { l with root := update l.root σ (some m), owner := update l.owner σ (some m), active := some σ }

/-- `m` takes the input from `p`. -/
def follow (l : Links ρ) (m p : ρ) (σ : Slot) : Links ρ :=
  { l with restore := update l.restore m (some p), owner := update l.owner σ (some m) }

/-- `m` has stopped. -/
def quit (l : Links ρ) (m : ρ) : Links ρ :=
  { l with live := update l.live m false, command := update l.command m false }

/-- Nothing remains of the session `σ` but its members. -/
def close (l : Links ρ) (σ : Slot) : Links ρ :=
  { l with
    restore := fun x => if l.session x = some σ then none else l.restore x
    command := fun x => if l.session x = some σ then false else l.command x
    root := update l.root σ none
    owner := update l.owner σ none
    closing := update l.closing σ true
    active := if l.active = some σ then none else l.active }

/-- Who returned to `m` returns to where `m` returned, and `m` returns nowhere. -/
def splice (l : Links ρ) (m : ρ) : Links ρ :=
  { l with restore := fun x => if x = m then none else if l.restore x = some m then l.restore m else l.restore x }

/-- The input of `σ` goes to `next`. -/
def pass (l : Links ρ) (σ : Slot) (next : Option ρ) : Links ρ := { l with owner := update l.owner σ next }

/-- The record of `m` is cleared. -/
def forget (l : Links ρ) (m : ρ) : Links ρ :=
  { l with
    session := update l.session m none
    restore := update l.restore m none
    live := update l.live m false
    cancelled := update l.cancelled m false
    shell := update l.shell m false
    command := update l.command m false
    foreground := update l.foreground m false }

end transitions

/-- The session `σ` is cleared. -/
def reopen (l : Links ρ) (σ : Slot) : Links ρ := { l with closing := update l.closing σ false }

lemma pass_of_owner {l : Links ρ} {σ : Slot} {next : Option ρ} (h : l.owner σ = next) : l.pass σ next = l := by
  rw [pass, ← h, update_eq_self]

namespace Sound

variable {l : Links ρ} {m p r x y : ρ} {σ τ : Slot} {next : Option ρ} {foreground : Bool}

section
variable (h : l.Sound) (hm : l.live m = false)
include h hm

lemma not_restore : l.restore x ≠ some m := fun hr => by
  rw [(h.returns hr).2.1] at hm
  cases hm

lemma restore_none : l.restore m = none := by
  cases hr : l.restore m with
  | none => rfl
  | some y =>
    rw [(h.returns hr).1] at hm
    cases hm

lemma not_root : l.root σ ≠ some m := fun hr => by
  rw [(h.rooted hr).1] at hm
  cases hm

lemma not_owner : l.owner σ ≠ some m := fun hr => by
  rw [(h.owned hr).1] at hm
  cases hm

end

lemma not_closing (h : l.Sound) (ha : l.active = some σ) : l.closing σ = false := by
  cases hc : l.closing σ with
  | false => rfl
  | true =>
    obtain ⟨r, hr⟩ := h.active.mp ha
    rw [(h.closed hc).1] at hr
    cases hr

lemma flags (h : l.Sound) (cancelled shell command foreground : ρ → Bool) :
    ({ l with cancelled, shell, command, foreground } : Links ρ).Sound :=
  ⟨h.returns, h.rooted, h.owned, h.closed, h.closed_restore, h.active, h.used, h.climbs, h.owner_climbs, h.acyclic⟩

lemma ne_of_session (hm : l.session m = none) (hx : l.session x = some σ) : x ≠ m := by
  rintro rfl
  rw [hm] at hx
  cases hx

lemma pass (h : l.Sound) (hn : ∀ {o}, next = some o → l.live o = true ∧ l.session o = some σ ∧ l.closing σ = false ∧
    (l.root σ = some o ∨ ∃ z, l.restore o = some z)) : (l.pass σ next).Sound := by
  refine ⟨h.returns, h.rooted, ?_, ?_, h.closed_restore, h.active, h.used, h.climbs, ?_, h.acyclic⟩ <;>
    simp only [Links.pass]
  · intro τ o ho
    by_cases hτ : τ = σ
    · subst hτ
      rw [update_self] at ho
      exact ⟨(hn ho).1, (hn ho).2.1⟩
    · rw [update_of_ne hτ] at ho
      exact h.owned ho
  · intro τ hc
    by_cases hτ : τ = σ
    · subst hτ
      rw [update_self]
      refine ⟨(h.closed hc).1, ?_⟩
      cases hnx : next with
      | none => rfl
      | some o =>
        rw [(hn hnx).2.2.1] at hc
        cases hc
    · rw [update_of_ne hτ]
      exact h.closed hc
  · intro τ o ho
    by_cases hτ : τ = σ
    · subst hτ
      rw [update_self] at ho
      exact (hn ho).2.2.2
    · rw [update_of_ne hτ] at ho
      exact h.owner_climbs ho

lemma close_none (h : l.Sound) (hr : l.root σ = some m) : (∀ x, (l.close σ).restore x = none) ∧
    (∀ τ, (l.close σ).root τ = none) ∧ ∀ τ, (l.close σ).owner τ = none := by
  have ha : l.active = some σ := h.active.mpr ⟨m, hr⟩
  have hother : ∀ {τ}, l.active = some τ → τ = σ := fun ha' => by
    rw [ha, Option.some.injEq] at ha'
    exact ha'.symm
  refine ⟨fun x => ?_, fun τ => ?_, fun τ => ?_⟩
  · simp only [Links.close]
    split
    · rfl
    · rename_i hx
      cases hxr : l.restore x with
      | none => rfl
      | some y =>
        obtain ⟨-, -, τ, h3, -⟩ := h.returns hxr
        rcases h.used h3 with hc | ha'
        · exact hxr.symm.trans (h.closed_restore hc h3)
        · exact absurd (hother ha' ▸ h3) hx
  · by_cases hτ : τ = σ
    · subst hτ
      exact update_self _ _ _
    · refine (update_of_ne hτ _ _).trans ?_
      cases hrt : l.root τ with
      | none => rfl
      | some r => exact absurd (hother (h.active.mpr ⟨r, hrt⟩)) hτ
  · by_cases hτ : τ = σ
    · subst hτ
      exact update_self _ _ _
    · refine (update_of_ne hτ _ _).trans ?_
      cases ho : l.owner τ with
      | none => rfl
      | some o =>
        rcases h.used (h.owned ho).2 with hc | ha'
        · exact ho.symm.trans (h.closed hc).2
        · exact absurd (hother ha') hτ

lemma close (h : l.Sound) (hr : l.root σ = some m) : (l.close σ).Sound := by
  have ha : l.active = some σ := h.active.mpr ⟨m, hr⟩
  obtain ⟨hres, hroot, howner⟩ := h.close_none hr
  have hno : ∀ {x y}, (l.close σ).restore x ≠ some y := fun {x y} => by
    rw [hres]
    exact nofun
  refine ⟨fun hxy => absurd hxy hno, fun {τ r} hrt => ?_, fun {τ o} ho => ?_, fun {τ} _ => ⟨hroot τ, howner τ⟩,
    fun {τ x} _ _ => hres x, fun {τ} => ?_, fun {τ x} hx => .inl ?_, fun hxy => absurd hxy hno, fun {τ o} ho => ?_,
    fun _ => 0, fun hxy => absurd hxy hno⟩
  · rw [hroot] at hrt
    cases hrt
  · rw [howner] at ho
    cases ho
  · rw [hroot]
    simp only [Links.close, if_pos ha]
    exact ⟨nofun, fun ⟨r, hr⟩ => nomatch hr⟩
  · by_cases hτ : τ = σ
    · subst hτ
      exact update_self _ _ _
    · refine (update_of_ne hτ _ _).trans ((h.used hx).resolve_right fun ha' => ?_)
      rw [ha, Option.some.injEq] at ha'
      exact hτ ha'.symm
  · rw [howner] at ho
    cases ho

lemma reopen (h : l.Sound) (hno : ∀ x, l.session x ≠ some σ) : (l.reopen σ).Sound := by
  have hold : ∀ {τ}, update l.closing σ false τ = true → l.closing τ = true := fun {τ} hc => by
    by_cases hτ : τ = σ
    · subst hτ
      rw [update_self] at hc
      cases hc
    · rwa [update_of_ne hτ] at hc
  refine ⟨h.returns, h.rooted, h.owned, fun hc => h.closed (hold hc), fun hc => h.closed_restore (hold hc),
    h.active, ?_, h.climbs, h.owner_climbs, h.acyclic⟩
  intro τ x hx
  have hτ : τ ≠ σ := fun e => hno x (e ▸ hx)
  simp only [Links.reopen]
  rw [update_of_ne hτ]
  exact h.used hx

section start

variable [DecidableEq ρ]

lemma live_update (hx : l.live x = true) : update l.live m true x = true := by
  by_cases hxm : x = m
  · subst hxm
    exact update_self x true l.live
  · rwa [update_of_ne hxm]

lemma session_update (hm : l.session m = none) {session : Option Slot} (hx : l.session x = some σ) :
    update l.session m session x = some σ := by
  rwa [update_of_ne (ne_of_session hm hx)]

lemma enter_none (h : l.Sound) (hl : l.live m = false) (hs : l.session m = none) :
    (l.enter m none foreground).Sound := by
  have hr : update l.restore m none = l.restore := update_eq_self_iff.mpr (h.restore_none hl).symm
  have hse : update l.session m none = l.session := update_eq_self_iff.mpr hs.symm
  refine ⟨?_, ?_, ?_, h.closed, ?_, h.active, ?_, ?_, ?_, ?_⟩ <;> simp only [enter, hr, hse]
  · exact fun hxy => ⟨live_update (h.returns hxy).1, live_update (h.returns hxy).2.1, (h.returns hxy).2.2⟩
  · exact fun hrt => ⟨live_update (h.rooted hrt).1, (h.rooted hrt).2⟩
  · exact fun ho => ⟨live_update (h.owned ho).1, (h.owned ho).2⟩
  · exact h.closed_restore
  · exact h.used
  · exact h.climbs
  · exact h.owner_climbs
  · exact h.acyclic

lemma enter_join (h : l.Sound) (hl : l.live m = false) (hs : l.session m = none) (ha : l.active = some σ) :
    (l.enter m (some σ) foreground).Sound := by
  have hr : update l.restore m none = l.restore := update_eq_self_iff.mpr (h.restore_none hl).symm
  refine ⟨?_, ?_, ?_, h.closed, ?_, h.active, ?_, ?_, ?_, ?_⟩ <;> simp only [enter, hr]
  · intro x y hxy
    obtain ⟨h1, h2, τ, h3, h4⟩ := h.returns hxy
    exact ⟨live_update h1, live_update h2, τ, session_update hs h3, session_update hs h4⟩
  · intro τ r hrt
    obtain ⟨h1, h2, h3⟩ := h.rooted hrt
    exact ⟨live_update h1, session_update hs h2, h3⟩
  · intro τ o ho
    obtain ⟨h1, h2⟩ := h.owned ho
    exact ⟨live_update h1, session_update hs h2⟩
  · intro τ x hc hx
    by_cases hxm : x = m
    · exact hxm ▸ h.restore_none hl
    · rw [update_of_ne hxm] at hx
      exact h.closed_restore hc hx
  · intro τ x hx
    by_cases hxm : x = m
    · subst hxm
      rw [update_self] at hx
      exact .inr (hx ▸ ha)
    · rw [update_of_ne hxm] at hx
      exact h.used hx
  · intro τ x y hxy hy
    have hym : y ≠ m := fun e => h.not_restore hl (e ▸ hxy)
    rw [update_of_ne hym] at hy
    exact h.climbs hxy hy
  · exact h.owner_climbs
  · exact h.acyclic

lemma follow (h : l.Sound) (hm : l.session m = some σ) (hl : l.live m = true) (hr : l.restore m = none)
    (hno : ∀ x, l.restore x ≠ some m) (hroot : ∀ τ, l.root τ ≠ some m) (ho : l.owner σ = some p)
    (ha : l.active = some σ) : (l.follow m p σ).Sound := by
  have hp := h.owned ho
  have hne : p ≠ m := by
    rintro rfl
    rcases h.owner_climbs ho with hrt | ⟨z, hz⟩
    · exact hroot σ hrt
    · rw [hr] at hz
      cases hz
  obtain ⟨rank, hrank⟩ := h.acyclic
  refine ⟨?_, ?_, ?_, ?_, ?_, h.active, h.used, ?_, ?_, update rank m (rank p + 1), ?_⟩ <;>
    simp only [Links.follow]
  · intro x y hxy
    by_cases hxm : x = m
    · subst hxm
      rw [update_self, Option.some.injEq] at hxy
      subst hxy
      exact ⟨hl, hp.1, σ, hm, hp.2⟩
    · rw [update_of_ne hxm] at hxy
      exact h.returns hxy
  · intro τ r hrt
    have hrm : r ≠ m := fun e => hroot τ (e ▸ hrt)
    rw [update_of_ne hrm]
    exact h.rooted hrt
  · intro τ o ho'
    by_cases hτ : τ = σ
    · subst hτ
      rw [update_self, Option.some.injEq] at ho'
      exact ho' ▸ ⟨hl, hm⟩
    · rw [update_of_ne hτ] at ho'
      exact h.owned ho'
  · intro τ hc
    have hτ : τ ≠ σ := by
      rintro rfl
      rw [h.not_closing ha] at hc
      cases hc
    rw [update_of_ne hτ]
    exact h.closed hc
  · intro τ x hc hx
    have hxm : x ≠ m := by
      rintro rfl
      rw [hm, Option.some.injEq] at hx
      rw [← hx, h.not_closing ha] at hc
      cases hc
    rw [update_of_ne hxm]
    exact h.closed_restore hc hx
  · intro τ x y hxy hy
    by_cases hxm : x = m
    · subst hxm
      rw [update_self, Option.some.injEq] at hxy
      subst hxy
      rw [hp.2, Option.some.injEq] at hy
      subst hy
      rw [update_of_ne hne]
      exact h.owner_climbs ho
    · rw [update_of_ne hxm] at hxy
      have hym : y ≠ m := fun e => hno x (e ▸ hxy)
      rw [update_of_ne hym]
      exact h.climbs hxy hy
  · intro τ o ho'
    by_cases hτ : τ = σ
    · subst hτ
      rw [update_self, Option.some.injEq] at ho'
      subst ho'
      exact .inr ⟨p, update_self _ _ _⟩
    · rw [update_of_ne hτ] at ho'
      have hom : o ≠ m := by
        rintro rfl
        rw [(h.owned ho').2, Option.some.injEq] at hm
        exact hτ hm
      rw [update_of_ne hom]
      exact h.owner_climbs ho'
  · intro x y hxy
    by_cases hxm : x = m
    · subst hxm
      rw [update_self, Option.some.injEq] at hxy
      subst hxy
      rw [update_of_ne hne, update_self]
      exact Nat.lt_succ_self _
    · rw [update_of_ne hxm] at hxy
      have hym : y ≠ m := fun e => hno x (e ▸ hxy)
      rw [update_of_ne hym, update_of_ne hxm]
      exact hrank hxy

lemma enter_lead (h : l.Sound) (hl : l.live m = false) (hs : l.session m = none) (ha : l.active = none)
    (hc : l.closing σ = false) : ((l.enter m (some σ) foreground).lead m σ).Sound := by
  have hr : update l.restore m none = l.restore := update_eq_self_iff.mpr (h.restore_none hl).symm
  have hroot : ∀ τ, l.root τ = none := fun τ => by
    cases hrt : l.root τ with
    | none => rfl
    | some r =>
      rw [h.active.mpr ⟨r, hrt⟩] at ha
      cases ha
  have hused : ∀ {τ x}, l.session x = some τ → l.closing τ = true := fun hx =>
    (h.used hx).resolve_right fun ha' => by
      rw [ha] at ha'
      cases ha'
  have howner : ∀ {τ o}, l.owner τ ≠ some o := fun ho => by
    have := h.closed (hused (h.owned ho).2)
    rw [this.2] at ho
    cases ho
  refine ⟨?_, ?_, ?_, ?_, ?_, ?_, ?_, ?_, ?_, ?_⟩ <;> simp only [enter, lead, hr]
  · intro x y hxy
    obtain ⟨h1, h2, τ, h3, h4⟩ := h.returns hxy
    exact ⟨live_update h1, live_update h2, τ, session_update hs h3, session_update hs h4⟩
  · intro τ r hrt
    by_cases hτ : τ = σ
    · subst hτ
      rw [update_self, Option.some.injEq] at hrt
      subst hrt
      exact ⟨update_self _ _ _, update_self _ _ _, h.restore_none hl⟩
    · rw [update_of_ne hτ, hroot] at hrt
      cases hrt
  · intro τ o ho
    by_cases hτ : τ = σ
    · subst hτ
      rw [update_self, Option.some.injEq] at ho
      subst ho
      exact ⟨update_self _ _ _, update_self _ _ _⟩
    · rw [update_of_ne hτ] at ho
      exact absurd ho howner
  · intro τ hcl
    have hτ : τ ≠ σ := by
      rintro rfl
      rw [hc] at hcl
      cases hcl
    rw [update_of_ne hτ, update_of_ne hτ]
    exact h.closed hcl
  · intro τ x hcl hx
    by_cases hxm : x = m
    · exact hxm ▸ h.restore_none hl
    · rw [update_of_ne hxm] at hx
      exact h.closed_restore hcl hx
  · intro τ
    by_cases hτ : τ = σ
    · subst hτ
      exact ⟨fun _ => ⟨m, update_self _ _ _⟩, fun _ => rfl⟩
    · rw [update_of_ne hτ, hroot]
      exact ⟨fun e => absurd (Option.some.inj e).symm hτ, fun ⟨r, hr⟩ => nomatch hr⟩
  · intro τ x hx
    by_cases hxm : x = m
    · subst hxm
      rw [update_self] at hx
      exact .inr hx
    · rw [update_of_ne hxm] at hx
      exact .inl (hused hx)
  · intro τ x y hxy hy
    obtain ⟨-, -, υ, h3, h4⟩ := h.returns hxy
    have := h.closed_restore (hused h3) h3
    rw [hxy] at this
    cases this
  · intro τ o ho
    by_cases hτ : τ = σ
    · subst hτ
      rw [update_self] at ho ⊢
      exact .inl ho
    · rw [update_of_ne hτ] at ho
      exact absurd ho howner
  · exact h.acyclic

end start

section stop

variable [DecidableEq ρ]

lemma live_quit (hx : l.live x = true) (hxm : x ≠ m) : update l.live m false x = true := by
  rwa [update_of_ne hxm]

lemma quit (h : l.Sound) (hr : l.restore m = none) (hno : ∀ x, l.restore x ≠ some m) (hroot : ∀ τ, l.root τ ≠ some m)
    (hown : ∀ τ, l.owner τ ≠ some m) : (l.quit m).Sound := by
  refine ⟨?_, ?_, ?_, h.closed, h.closed_restore, h.active, h.used, h.climbs, h.owner_climbs, h.acyclic⟩ <;>
    simp only [Links.quit]
  · intro x y hxy
    obtain ⟨h1, h2, h3⟩ := h.returns hxy
    refine ⟨live_quit h1 ?_, live_quit h2 fun e => hno x (e ▸ hxy), h3⟩
    rintro rfl
    rw [hr] at hxy
    cases hxy
  · intro τ r hrt
    exact ⟨live_quit (h.rooted hrt).1 fun e => hroot τ (e ▸ hrt), (h.rooted hrt).2⟩
  · intro τ o ho
    exact ⟨live_quit (h.owned ho).1 fun e => hown τ (e ▸ ho), (h.owned ho).2⟩

lemma splice (h : l.Sound) (hroot : ∀ τ, l.root τ ≠ some m) (hown : ∀ τ, l.owner τ ≠ some m) :
    (l.splice m).Sound := by
  have hstep : ∀ {x y}, (l.splice m).restore x = some y → x ≠ m ∧
      (l.restore x = some y ∧ y ≠ m ∨ l.restore x = some m ∧ l.restore m = some y) := by
    intro x y hxy
    simp only [Links.splice] at hxy
    split at hxy
    · cases hxy
    · rename_i hxm
      split at hxy
      · exact ⟨hxm, .inr ⟨‹_›, hxy⟩⟩
      · refine ⟨hxm, .inl ⟨hxy, ?_⟩⟩
        rintro rfl
        contradiction
  obtain ⟨rank, hrank⟩ := h.acyclic
  have hback : ∀ {x}, x ≠ m → (∃ z, l.restore x = some z) → ∃ z, (l.splice m).restore x = some z := by
    rintro x hxm ⟨z, hz⟩
    simp only [Links.splice, if_neg hxm]
    split
    · rename_i hxm'
      obtain ⟨-, -, τ, -, h4⟩ := h.returns hxm'
      exact (h.climbs hxm' h4).resolve_left (hroot τ)
    · exact ⟨z, hz⟩
  refine ⟨?_, ?_, h.owned, h.closed, ?_, h.active, h.used, ?_, ?_, rank, ?_⟩
  · intro x y hxy
    rcases (hstep hxy).2 with ⟨h1, -⟩ | ⟨h1, h2⟩
    · exact h.returns h1
    · obtain ⟨k1, -, τ, k3, k4⟩ := h.returns h1
      obtain ⟨-, k2, υ, k5, k6⟩ := h.returns h2
      rw [k4, Option.some.injEq] at k5
      exact ⟨k1, k2, τ, k3, k5 ▸ k6⟩
  · intro τ r hrt
    obtain ⟨h1, h2, h3⟩ := h.rooted hrt
    refine ⟨h1, h2, ?_⟩
    simp only [Links.splice, h3]
    simp
  · intro τ x hc hx
    have h3 := h.closed_restore hc hx
    simp only [Links.splice, h3]
    simp
  · intro τ x y hxy hy
    obtain ⟨hxm, ⟨h1, hym⟩ | ⟨h1, h2⟩⟩ := hstep hxy
    · exact (h.climbs h1 hy).imp_right (hback hym)
    · have hym : y ≠ m := fun e => absurd (hrank (e ▸ h2)) (Nat.lt_irrefl _)
      exact (h.climbs h2 hy).imp_right (hback hym)
  · intro τ o ho
    exact (h.owner_climbs ho).imp_right (hback fun e => hown τ (e ▸ ho))
  · intro x y hxy
    rcases (hstep hxy).2 with ⟨h1, -⟩ | ⟨h1, h2⟩
    · exact hrank h1
    · exact (hrank h2).trans (hrank h1)

lemma forget (h : l.Sound) (hl : l.live m = false) : (l.forget m).Sound := by
  have hr : update l.restore m none = l.restore := update_eq_self_iff.mpr (h.restore_none hl).symm
  have hle : update l.live m false = l.live := update_eq_self_iff.mpr hl.symm
  have hsame : ∀ {x τ}, x ≠ m → l.session x = some τ → update l.session m none x = some τ := fun hxm hx => by
    rwa [update_of_ne hxm]
  have hold : ∀ {x τ}, update l.session m none x = some τ → l.session x = some τ := fun {x τ} hx => by
    by_cases hxm : x = m
    · subst hxm
      rw [update_self] at hx
      cases hx
    · rwa [update_of_ne hxm] at hx
  refine ⟨?_, ?_, ?_, h.closed, ?_, h.active, ?_, ?_, ?_, ?_⟩ <;> simp only [Links.forget, hr, hle]
  · intro x y hxy
    obtain ⟨h1, h2, τ, h3, h4⟩ := h.returns hxy
    refine ⟨h1, h2, τ, hsame ?_ h3, hsame ?_ h4⟩
    · rintro rfl
      rw [h1] at hl
      cases hl
    · rintro rfl
      rw [h2] at hl
      cases hl
  · intro τ r hrt
    obtain ⟨h1, h2, h3⟩ := h.rooted hrt
    exact ⟨h1, hsame (fun e => h.not_root hl (e ▸ hrt)) h2, h3⟩
  · intro τ o ho
    exact ⟨(h.owned ho).1, hsame (fun e => h.not_owner hl (e ▸ ho)) (h.owned ho).2⟩
  · exact fun hc hx => h.closed_restore hc (hold hx)
  · exact fun hx => h.used (hold hx)
  · exact fun hxy hy => h.climbs hxy (hold hy)
  · exact h.owner_climbs
  · exact h.acyclic

end stop

end Sound

/-! ## Runs -/

/-- `p` may launch a member of its session `σ`. -/
def Launches (l : Links ρ) (p : ρ) (σ : Slot) : Prop :=
  l.live p = true ∧ l.cancelled p = false ∧ l.session p = some σ ∧ l.active = some σ

/-- The return links lead from `x` to `y`. -/
def Returns (l : Links ρ) : ρ → ρ → Prop := Relation.ReflTransGen fun x y => l.restore x = some y

/-- A member that can take the input when `m` has stopped. -/
def Takes (l : Links ρ) (m y : ρ) : Prop := y ≠ m ∧ l.live y = true ∧ l.cancelled y = false

/-- `y` is the first behind `x` on its return chain that can take the input when `m` has stopped. -/
inductive Nearest (l : Links ρ) (m : ρ) : ρ → ρ → Prop
  | here {x y} (hr : l.restore x = some y) (hy : l.Takes m y) : Nearest l m x y
  | there {x y z} (hr : l.restore x = some y) (hy : ¬l.Takes m y) (hz : Nearest l m y z) : Nearest l m x z

/-- The exit of `m` moves the input away from `old`. -/
def Leaves (l : Links ρ) (m old : ρ) : Prop := l.Returns old m ∧ (old = m ∨ l.cancelled old = true)

/-- The owner of `σ` after the exit of `m`, a member other than the root. -/
inductive Succeeds (l : Links ρ) (m : ρ) (σ : Slot) : Option ρ → Prop
  | nobody (ho : l.owner σ = none) : Succeeds l m σ none
  | stays {old} (ho : l.owner σ = some old) (hl : ¬l.Leaves m old) : Succeeds l m σ (some old)
  | moves {old next} (ho : l.owner σ = some old) (hl : l.Leaves m old) (hn : ∀ o, next = some o ↔ l.Nearest m old o) :
      Succeeds l m σ next

lemma nearest_none {l : Links ρ} {m x y : ρ} (h : l.restore x = none) : ¬l.Nearest m x y := by
  rintro (⟨hr, -⟩ | ⟨hr, -, -⟩) <;> cases h.symm.trans hr

lemma nearest_iff {l : Links ρ} {m x y z : ρ} (h : l.restore x = some y) :
    l.Nearest m x z ↔ l.Takes m y ∧ y = z ∨ ¬l.Takes m y ∧ l.Nearest m y z := by
  constructor
  · intro hn
    cases hn with
    | here hr hy => cases h.symm.trans hr; exact .inl ⟨hy, rfl⟩
    | there hr hy hz => cases h.symm.trans hr; exact .inr ⟨hy, hz⟩
  · rintro (⟨hy, rfl⟩ | ⟨hy, hz⟩)
    · exact .here h hy
    · exact .there h hy hz

lemma Nearest.spec {l : Links ρ} {m x y : ρ} (h : l.Nearest m x y) : l.Takes m y ∧ ∃ w, l.restore w = some y := by
  induction h with
  | here hr hy => exact ⟨hy, _, hr⟩
  | there hr hy hz ih => exact ih

lemma Sound.session_of_restore {l : Links ρ} {x y : ρ} {σ : Slot} (hs : l.Sound) (hr : l.restore x = some y)
    (hx : l.session x = some σ) : l.session y = some σ := by
  obtain ⟨-, -, τ, h3, h4⟩ := hs.returns hr
  rw [hx] at h3
  exact h3 ▸ h4

lemma Sound.session_of_nearest {l : Links ρ} {m x y : ρ} {σ : Slot} (hs : l.Sound) (h : l.Nearest m x y)
    (hx : l.session x = some σ) : l.session y = some σ := by
  induction h with
  | here hr hy => exact hs.session_of_restore hr hx
  | there hr hy hz ih => exact ih (hs.session_of_restore hr hx)

lemma Sound.succeeds {l : Links ρ} {m o : ρ} {σ : Slot} {next : Option ρ} (hs : l.Sound) (h : l.Succeeds m σ next)
    (hn : next = some o) : o ≠ m ∧ l.live o = true ∧ l.session o = some σ ∧
        (l.root σ = some o ∨ ∃ z, l.restore o = some z) := by
  cases h with
  | nobody ho => cases hn
  | stays ho hl =>
    cases hn
    refine ⟨?_, (hs.owned ho).1, (hs.owned ho).2, hs.owner_climbs ho⟩
    rintro rfl
    exact hl ⟨.refl, .inl rfl⟩
  | moves ho hl hnx =>
    have hnear := (hnx o).mp hn
    obtain ⟨⟨h1, h2, -⟩, w, hw⟩ := hnear.spec
    have hsess := hs.session_of_nearest hnear (hs.owned ho).2
    exact ⟨h1, h2, hsess, hs.climbs hw hsess⟩

section moves

variable [DecidableEq ρ]

/-- What `console_member_exit` does to the links. -/
inductive Exit (l : Links ρ) (m : ρ) : Links ρ → Prop
  | dead (hl : l.live m = false) : Exit l m l
  | alone (hl : l.live m = true) (hs : ∀ σ, l.session m = some σ → l.closing σ = true) : Exit l m (l.quit m)
  | root {σ} (hr : l.root σ = some m) : Exit l m ((l.close σ).quit m)
  | other {σ next} (hl : l.live m = true) (hs : l.session m = some σ) (ha : l.active = some σ) (hr : l.root σ ≠ some m)
      (hn : l.Succeeds m σ next) : Exit l m (((l.pass σ next).splice m).quit m)

/-- What a call of `session.c` does to the links. -/
inductive Move (l : Links ρ) : ConsoleCall ρ → Links ρ → Prop
  | none {call} : Move l call l
  | start {m id parent foreground} (hl : l.live m = false) (hs : l.session m = .none)
      (hp : ∀ p, parent = some p → l.session p = .none) :
        Move l (.attach (some m) id parent foreground) (l.enter m .none foreground)
  | lead {m σ id} (hl : l.live m = false) (hs : l.session m = .none) (ha : l.active = .none)
      (hc : l.closing σ = false) : Move l (.attach (some m) id .none true) ((l.enter m (some σ) true).lead m σ)
  | join {m p σ id} (hl : l.live m = false) (hs : l.session m = .none) (hp : l.Launches p σ) :
      Move l (.attach (some m) id (some p) false) (l.enter m (some σ) false)
  | follow {m p σ id} (hl : l.live m = false) (hs : l.session m = .none) (hp : l.Launches p σ)
      (ho : l.owner σ = some p) : Move l (.attach (some m) id (some p) true) ((l.enter m (some σ) true).follow m p σ)
  | markShell {m σ} (hp : l.Launches m σ) (ho : l.owner σ = some m) (hr : l.root σ = some m) :
      Move l (.markShell (some m)) { l with shell := update l.shell m true }
  | grantCommand {m c σ} (ha : l.active = some σ) (hr : l.root σ = some m) (hs : l.shell m = true)
      (ho : l.owner σ = some c) (hc : l.restore c = some m) :
      Move l (.grantCommand (some m) (some c)) { l with command := update l.command c true }
  | cancel {m} : Move l (.cancelMember (some m)) { l with cancelled := update l.cancelled m true }
  | exit {m l'} (he : l.Exit m l') : Move l (.memberExit (some m)) l'
  | detach {m} (hl : l.live m = false) : Move l (.detach (some m)) (l.forget m)
  | detachLast {m σ} (hl : l.live m = false) (hs : l.session m = some σ) (hno : ∀ x, l.session x = some σ → x = m) :
      Move l (.detach (some m)) ((l.forget m).reopen σ)

end moves

end Links

end RumKernel.Process
