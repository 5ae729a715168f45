import RumKernel.Process.References

/-!
# The input owner

The kernel cancels the root of a session only while the root owns the input. In every run that keeps to this the
active session has a live owner whose return links lead to the root, and an exit moves the input only away from the
exiting member or past it, to the nearest member that can take it.
-/

namespace RumKernel.Process
open Function

variable {ρ : Type}

namespace Links

variable {l l' : Links ρ} {m r x : ρ} {σ : Slot}

lemma Sound.returns_root (h : l.Sound) (hr : l.root σ = some r) (hx : l.session x = some σ)
    (hc : l.root σ = some x ∨ ∃ z, l.restore x = some z) : l.Returns x r := by
  obtain ⟨rank, hrank⟩ := h.acyclic
  induction hn : rank x using Nat.strong_induction_on generalizing x with
  | _ n ih =>
    rcases hc with hc | ⟨z, hz⟩
    · rw [hr, Option.some.injEq] at hc
      exact hc ▸ .refl
    · have h4 := h.session_of_restore hz hx
      have hlt := hrank hz
      exact .head hz (ih (rank z) (by omega) h4 (h.climbs hz h4) rfl)

lemma Sound.session_of_returns (h : l.Sound) {y : ρ} (hxy : l.Returns x y)
    (hx : l.session x = some σ) : l.session y = some σ := by
  induction hxy with
  | refl => exact hx
  | tail _ hr ih => exact h.session_of_restore hr ih

lemma nearest_of_returns (h : l.Returns x r) (hxr : x ≠ r) (ht : l.Takes m r) : ∃ o, l.Nearest m x o := by
  induction h using Relation.ReflTransGen.head_induction_on with
  | refl => exact absurd rfl hxr
  | @head x y hxy _ ih =>
    by_cases hy : l.Takes m y
    · exact ⟨y, .here hxy hy⟩
    · obtain ⟨o, ho⟩ := ih fun e => hy (e ▸ ht)
      exact ⟨o, .there hxy hy ho⟩

/-- The active session has an owner, and its root is cancelled only as the owner. -/
structure Led (l : Links ρ) : Prop where
  owner : ∀ {σ r}, l.root σ = some r → ∃ o, l.owner σ = some o
  root : ∀ {σ r}, l.root σ = some r → l.cancelled r = true → l.owner σ = some r

/-- The owner keeps the input while it is not cancelled, and a cancelled root is the owner, so the input finds a member
to go to. -/
lemma Led.succeeds (hl : l.Led) (h : l.Sound) (hr : l.root σ = some r) (hrm : r ≠ m) {next : Option ρ}
    (hn : l.Succeeds m σ next) : (∃ o, next = some o) ∧ (l.cancelled r = true → next = some r) := by
  obtain ⟨hlive, hsess, hrest⟩ := h.rooted hr
  have hback : ∀ {y}, l.Returns r y → y = r := fun hy => by
    rcases Relation.ReflTransGen.cases_head hy with e | ⟨z, hz, -⟩
    · exact e.symm
    · exact nomatch hrest.symm.trans hz
  cases hn with
  | nobody ho =>
    obtain ⟨o, ho'⟩ := hl.owner hr
    exact nomatch ho.symm.trans ho'
  | @stays old ho _ =>
    refine ⟨⟨old, rfl⟩, fun hc => ?_⟩
    rw [← ho]
    exact hl.root hr hc
  | @moves old _ ho hleave hnx =>
    have hne : old ≠ r := by
      rintro rfl
      exact hrm (hback hleave.1).symm
    have hcan : l.cancelled r = false := by
      cases hc : l.cancelled r with
      | false => rfl
      | true => exact absurd (Option.some.inj (ho.symm.trans (hl.root hr hc))) hne
    obtain ⟨o, hnear⟩ := nearest_of_returns (h.returns_root hr (h.owned ho).2 (h.owner_climbs ho)) hne
      ⟨hrm, hlive, hcan⟩
    refine ⟨⟨o, (hnx o).mpr hnear⟩, fun hc => ?_⟩
    rw [hcan] at hc
    cases hc

/-- The kernel's callers cancel a root only while it owns the input. -/
def OwnerCancelled (l : Links ρ) (call : ConsoleCall ρ) : Prop :=
  ∀ m σ, call = .cancelMember (some m) → l.root σ = some m → l.owner σ = some m

lemma Led.move [DecidableEq ρ] (hl : l.Led) (h : l.Sound) {call : ConsoleCall ρ} (hm : l.Move call l')
    (hc : l.OwnerCancelled call) : l'.Led := by
  -- the flags of a live record survive the writing of a dead one
  have hother : ∀ {m r σ} {b : Bool}, l.live m = false → l.root σ = some r → update l.cancelled m b r = true →
      l.cancelled r = true := fun {m r σ b} hdead hr hcr => by
    have hne : r ≠ m := by
      rintro rfl
      exact h.not_root hdead hr
    rwa [update_of_ne hne] at hcr
  cases hm with
  | none => exact hl
  | start hdead hs hp | join hdead hs hp | detach hdead | detachLast hdead =>
    exact ⟨hl.owner, fun hr hcr => hl.root hr (hother hdead hr hcr)⟩
  | @lead m σ id hdead hs ha hcl =>
    have hroot : ∀ {τ r}, (l.enter m (some σ) true |>.lead m σ).root τ = some r → τ = σ ∧ r = m := by
      intro τ r hr
      by_cases hτ : τ = σ
      · subst hτ
        have hr' : update l.root τ (some m) τ = some r := hr
        rw [update_self, Option.some.injEq] at hr'
        exact ⟨rfl, hr'.symm⟩
      · have hr' := (update_of_ne hτ _ _).symm.trans hr
        exact nomatch ha.symm.trans (h.active.mpr ⟨r, hr'⟩)
    refine ⟨fun hr => ?_, fun hr _ => ?_⟩
    · obtain ⟨rfl, rfl⟩ := hroot hr
      exact ⟨_, update_self _ _ _⟩
    · obtain ⟨rfl, rfl⟩ := hroot hr
      exact update_self _ _ _
  | @follow m p σ id hdead hs hp ho =>
    refine ⟨fun {τ r} hr => ?_, fun {τ r} hr hcr => ?_⟩
    · by_cases hτ : τ = σ
      · subst hτ
        exact ⟨m, update_self _ _ _⟩
      · obtain ⟨o, ho'⟩ := hl.owner hr
        exact ⟨o, (update_of_ne hτ _ _).trans ho'⟩
    · have hown := hl.root hr (hother hdead hr hcr)
      by_cases hτ : τ = σ
      · subst hτ
        -- a cancelled root would be the owner that launched
        obtain rfl : p = r := Option.some.inj (ho.symm.trans hown)
        have := hother hdead hr hcr
        rw [hp.2.1] at this
        cases this
      · exact (update_of_ne hτ _ _).trans hown
  | markShell => exact ⟨hl.owner, hl.root⟩
  | grantCommand => exact ⟨hl.owner, hl.root⟩
  | @cancel m =>
    refine ⟨hl.owner, fun {σ r} hr hcr => ?_⟩
    by_cases hrm : r = m
    · subst hrm
      exact hc r σ rfl hr
    · exact hl.root hr ((update_of_ne hrm _ _).symm.trans hcr)
  | @exit m l' he =>
    cases he with
    | dead => exact hl
    | alone => exact ⟨hl.owner, hl.root⟩
    | @root σ hr =>
      have hnone := (h.close_none hr).2.1
      have hno : ∀ {τ r}, (l.close σ).root τ ≠ some r := fun {τ r} => by
        rw [hnone]
        exact nofun
      exact ⟨fun hr' => absurd hr' hno, fun hr' => absurd hr' hno⟩
    | @other σ next hlive hs ha hrm hn =>
      have hkeep : ∀ {r}, l.root σ = some r → r ≠ m := fun hr e => hrm (e ▸ hr)
      refine ⟨fun {τ r} hr => ?_, fun {τ r} hr hcr => ?_⟩
      · by_cases hτ : τ = σ
        · subst hτ
          obtain ⟨o, ho⟩ := (hl.succeeds h hr (hkeep hr) hn).1
          exact ⟨o, (update_self _ _ _).trans ho⟩
        · obtain ⟨o, ho⟩ := hl.owner hr
          exact ⟨o, (update_of_ne hτ _ _).trans ho⟩
      · by_cases hτ : τ = σ
        · subst hτ
          exact (update_self _ _ _).trans ((hl.succeeds h hr (hkeep hr) hn).2 hcr)
        · exact (update_of_ne hτ _ _).trans (hl.root hr hcr)

end Links

variable [DecidableEq ρ]

/-- A run in which roots are cancelled only while they own the input. -/
def OwnerCancels (s : Console ρ) : List (ConsoleCall ρ) → Prop
  | [] => True
  | call :: calls => s.links.OwnerCancelled call ∧ OwnerCancels (call.next s) calls

lemma runConsole_led {calls : List (ConsoleCall ρ)} (hc : OwnerCancels {} calls) : (runConsole calls).links.Led := by
  suffices ∀ s : Console ρ, s.Valid → s.links.Led → OwnerCancels s calls →
      (calls.foldl (fun s call => call.next s) s).links.Led from this {} .empty ⟨nofun, nofun⟩ hc
  clear hc
  intro s h hl hc
  induction calls generalizing s with
  | nil => exact hl
  | cons call calls ih =>
    obtain ⟨h1, h2⟩ := h.next call
    exact ih (call.next s) h1 (hl.move h.sound h2 hc.1) hc.2

lemma Links.Exit.succeeds {l l' : Links ρ} (h : l.Sound) {m old : ρ} {σ : Slot} (he : l.Exit m l')
    (ha : l.active = some σ) (ho : l.owner σ = some old) (hm : l.root σ ≠ some m) : l.Succeeds m σ (l'.owner σ) := by
  have hstay : (∀ τ, l.session m = some τ → τ ≠ σ) → ¬l.Leaves m old := fun hno hleave =>
    hno σ (h.session_of_returns hleave.1 (h.owned ho).2) rfl
  cases he with
  | dead hl =>
    rw [ho]
    refine .stays ho fun hleave => ?_
    -- the owner is live, and so is whatever a return link leads to
    rcases Relation.ReflTransGen.cases_tail hleave.1 with e | ⟨y, -, hy⟩
    · exact h.not_owner hl (e ▸ ho)
    · exact h.not_restore hl hy
  | alone hl hs =>
    change l.Succeeds m σ (l.owner σ)
    rw [ho]
    refine .stays ho (hstay fun τ hτ e => ?_)
    have := hs τ hτ
    rw [e, h.not_closing ha] at this
    cases this
  | @root τ hr =>
    have hτ := h.active.mpr ⟨m, hr⟩
    rw [ha, Option.some.injEq] at hτ
    exact absurd (hτ ▸ hr) hm
  | @other τ next hl hs ha' hr hn =>
    obtain rfl : σ = τ := Option.some.inj (ha.symm.trans ha')
    have : (((l.pass σ next).splice m).quit m).owner σ = next := update_self _ _ _
    rw [this]
    exact hn

/-- **The input owner.** While roots are cancelled only as owners, the active session has a live owner whose return
links lead to its root. An exit of another member moves the input only if the exiting member is the owner, or if it
stands on the return chain of a cancelled owner; then the nearest live member of that chain that is not cancelled gets
it. -/
theorem owner_usable (calls : List (ConsoleCall ρ)) (hc : OwnerCancels {} calls) :
    let s := runConsole calls
    ∀ σ, s.active = some σ → (s.sessions σ).closing = false ∧
      ∃ o r, (s.sessions σ).owner = some o ∧ (s.records o).live = true ∧ (s.sessions σ).root = some r ∧
        s.links.Returns o r ∧
        ∀ m, m ≠ r → (s.links.Leaves m o → ∃ n, ((s.memberExit (some m)).2.sessions σ).owner = some n ∧
          s.links.Nearest m o n) ∧ (¬s.links.Leaves m o → ((s.memberExit (some m)).2.sessions σ).owner = some o) := by
  intro s σ ha
  have h : s.Valid := runConsole_valid calls
  have hl : s.links.Led := runConsole_led hc
  obtain ⟨r, hr⟩ := h.sound.active.mp ha
  obtain ⟨o, ho⟩ := hl.owner hr
  refine ⟨h.sound.not_closing ha, o, r, ho, (h.sound.owned ho).1, hr,
    h.sound.returns_root hr (h.sound.owned ho).2 (h.sound.owner_climbs ho), fun m hm => ?_⟩
  have hs := (h.memberExit_some m).2.1.succeeds h.sound ha ho fun e => hm (Option.some.inj (e.symm.trans hr))
  obtain ⟨⟨n, hn⟩, -⟩ := hl.succeeds h.sound hr (Ne.symm hm) hs
  change (_ → ∃ n, (s.memberExit (some m)).2.links.owner σ = some n ∧ _) ∧
    (_ → (s.memberExit (some m)).2.links.owner σ = some o)
  rw [hn] at hs ⊢
  have hsame : ∀ {old}, s.links.owner σ = some old → old = o := fun ho' => Option.some.inj (ho'.symm.trans ho)
  cases hs with
  | stays ho' hstay =>
    obtain rfl := hsame ho'
    exact ⟨fun hleave => absurd hleave hstay, fun _ => rfl⟩
  | moves ho' hleave hnx =>
    obtain rfl := hsame ho'
    exact ⟨fun _ => ⟨n, rfl, (hnx n).mp rfl⟩, fun hstay => absurd hleave hstay⟩

/-- A shell, its program and the program's child, which is cancelled. -/
def nestedCalls : List (ConsoleCall Nat) :=
  [.attach (some 0) 1 none true, .attach (some 1) 2 (some 0) true, .attach (some 2) 3 (some 1) true,
    .cancelMember (some 2)]

theorem owner_usable_nested : (runConsole nestedCalls).active = some 0 ∧
    ∃ o r, ((runConsole nestedCalls).sessions 0).owner = some o ∧ ((runConsole nestedCalls).sessions 0).root = some r ∧
      (runConsole nestedCalls).links.Returns o r := by
  have ha : (runConsole nestedCalls).active = some 0 := by decide
  have hc : OwnerCancels {} nestedCalls := by
    refine ⟨nofun, nofun, nofun, fun m σ hcall => ?_, trivial⟩
    cases hcall
    revert σ
    decide
  obtain ⟨-, o, r, ho, -, hr, hret, -⟩ := owner_usable nestedCalls hc 0 ha
  exact ⟨ha, o, r, ho, hr, hret⟩

end RumKernel.Process
