import RumKernel.Process.Exits

/-!
# Exact session references

Every call of `session.c` keeps the counters exact and the links sound, and moves the links as one of the
abstract transitions does.
-/

namespace RumKernel.Process
open Function Lib

namespace Console

variable {ρ : Type} [DecidableEq ρ] {s t : Console ρ} {m x y : ρ} {σ τ i j : Slot}

namespace Valid

lemma setFlags (h : s.Valid) {r : Member ρ} (h1 : r.session = (s.records m).session)
    (h2 : r.restore = (s.records m).restore) (h3 : r.live = (s.records m).live)
    (h4 : r.references = (s.records m).references) : (s.setMember m r).Valid := by
  have e1 : update s.links.session m r.session = s.links.session := update_eq_self_iff.mpr h1
  have e2 : update s.links.restore m r.restore = s.links.restore := update_eq_self_iff.mpr h2
  have e3 : update s.links.live m r.live = s.links.live := update_eq_self_iff.mpr h3
  refine h.step_records (h.exact.setMember h2 h4) ?_ ?_ rfl
  · rw [links_setMember, e1, e2, e3]
    exact h.sound.flags _ _ _ _
  · rw [links_setMember]
    exact e1

lemma owns_iff : s.owns (some m) = true ↔ ∃ σ, s.links.live m = true ∧ s.links.cancelled m = false ∧
    s.links.session m = some σ ∧ s.links.active = some σ ∧ s.links.closing σ = false ∧ s.links.owner σ = some m := by
  unfold owns
  rcases hs : (s.records m).session with - | σ
  · simp [links, hs]
  · simp [links, hs, and_assoc]

lemma markShell (h : s.Valid) (member : Option ρ) : (s.markShell member).2.Valid ∧
    s.links.Move (.markShell member) (s.markShell member).2.links := by
  rcases member with - | m
  · exact ⟨h, .none⟩
  unfold Console.markShell
  dsimp only
  split
  · exact ⟨h, .none⟩
  · rename_i σ hs
    split
    · rename_i hc
      simp only [Bool.and_eq_true, owns_iff, beq_iff_eq] at hc
      obtain ⟨⟨⟨τ, h1, h2, h3, h4, h5, h6⟩, hr⟩, -⟩ := hc
      obtain rfl : σ = τ := Option.some.inj (hs.symm.trans h3)
      refine ⟨h.setFlags rfl rfl rfl rfl, ?_⟩
      rw [links_setShell]
      exact .markShell ⟨h1, h2, h3, h4⟩ h6 hr
    · exact ⟨h, .none⟩

lemma isShell_iff : s.isShell (some m) = true ↔ ∃ σ, s.links.live m = true ∧ s.links.shell m = true ∧
    s.links.session m = some σ ∧ s.links.closing σ = false ∧ s.links.root σ = some m := by
  unfold isShell
  rcases hs : (s.records m).session with - | σ
  · simp [links, hs]
  · simp [links, hs, and_assoc]

lemma grantCommand (h : s.Valid) (shell child : Option ρ) : (s.grantCommand shell child).2.Valid ∧
    s.links.Move (.grantCommand shell child) (s.grantCommand shell child).2.links := by
  unfold Console.grantCommand
  split
  · rename_i σ m c ha
    split
    · rename_i hc
      simp only [Bool.and_eq_true, isShell_iff, beq_iff_eq] at hc
      obtain ⟨⟨⟨⟨⟨⟨⟨⟨τ, h1, h2, h3, h4, h5⟩, -⟩, h6⟩, -⟩, h7⟩, h8⟩, h9⟩, -⟩ := hc
      obtain rfl : σ = τ := Option.some.inj (h6.symm.trans (h8.trans h3))
      refine ⟨h.setFlags rfl rfl rfl rfl, ?_⟩
      rw [links_setCommand]
      exact .grantCommand ha h5 h2 h7 h9
    · exact ⟨h, .none⟩
  · exact ⟨h, .none⟩

lemma cancelMember (h : s.Valid) (member : Option ρ) : (s.cancelMember member).Valid ∧
    s.links.Move (.cancelMember member) (s.cancelMember member).links := by
  rcases member with - | m
  · exact ⟨h, .none⟩
  · refine ⟨h.setFlags rfl rfl rfl rfl, ?_⟩
    rw [Console.cancelMember, links_setCancelled]
    exact .cancel

lemma requestExit (h : s.Valid) (command : Option ρ) (status : Int) : (s.requestExit command status).2.Valid ∧
    s.links.Move (.requestExit command status) (s.requestExit command status).2.links := by
  rcases command with - | m
  · exact ⟨h, .none⟩
  unfold Console.requestExit
  dsimp only
  split
  · exact ⟨h, .none⟩
  · rename_i σ hs
    split
    · have hlinks : (s.setSession σ
          { s.sessions σ with exitRequested := true, exitStatus := status }).links = s.links :=
        links_setSession_of_eq rfl rfl rfl
      obtain ⟨i, hi⟩ := h.entry_of_session (x := m) hs
      dsimp only
      refine ⟨h.step (σ := σ) (h.exact.setSession rfl rfl rfl rfl) ?_ ?_ (entries_setSession rfl) ⟨i, m, hi⟩
        fun τ hτ => update_of_ne hτ _ _, ?_⟩
      · rw [hlinks]
        exact h.sound
      · rw [hlinks]
      · rw [hlinks]
        exact .none
    · exact ⟨h, .none⟩

lemma enrolled (h : s.Valid) (he : t.Exact) (hs : t.links.Sound)
    (hss : t.links.session = update s.links.session m (some σ)) (hm : s.links.session m = none)
    (hfree : s.entries σ i = none) (hen : t.entries = update s.entries σ (update (s.entries σ) i (some m)))
    (hot : ∀ τ, τ ≠ σ → t.sessions τ = s.sessions τ) : t.Valid := by
  have hentry : ∀ {τ j x}, t.entries τ j = some x ↔ s.entries τ j = some x ∨ τ = σ ∧ j = i ∧ x = m := by
    intro τ j x
    rw [hen]
    by_cases hτ : τ = σ
    · subst hτ
      by_cases hj : j = i
      · subst hj
        simp [hfree, eq_comm]
      · simp [hj]
    · simp [hτ]
  have hnot : ∀ {τ j}, s.entries τ j ≠ some m := fun hx => nomatch hm.symm.trans (h.session_of_entry hx)
  refine ⟨he, hs, ?_, ?_, ?_, ?_⟩
  · intro τ j x hx
    rw [hss]
    rcases hentry.mp hx with hx | ⟨rfl, rfl, rfl⟩
    · rw [update_of_ne fun e => hnot (e ▸ hx)]
      exact h.session_of_entry hx
    · exact update_self _ _ _
  · intro τ x hx
    rw [hss] at hx
    by_cases hxm : x = m
    · subst hxm
      rw [update_self, Option.some.injEq] at hx
      exact ⟨i, hentry.mpr (.inr ⟨hx.symm, rfl, rfl⟩)⟩
    · rw [update_of_ne hxm] at hx
      obtain ⟨j, hj⟩ := h.entry_of_session hx
      exact ⟨j, hentry.mpr (.inl hj)⟩
  · intro τ j k x hj hk
    rcases hentry.mp hj with hj | ⟨rfl, rfl, rfl⟩ <;> rcases hentry.mp hk with hk | ⟨hτ, rfl, hx⟩
    · exact h.entry_inj hj hk
    · exact absurd (hx ▸ hj) hnot
    · exact absurd hk hnot
    · rfl
  · intro τ hz
    by_cases hτ : τ = σ
    · subst hτ
      have := he.references_pos (hentry.mpr (.inr ⟨rfl, rfl, rfl⟩))
      omega
    · rw [sessionReferences, hot τ hτ] at hz
      rw [hot τ hτ]
      exact h.unused hz

lemma join_entry (h : s.Valid) (hl : s.links.live m = false) (hfree : s.entries σ i = none) {r : Member ρ}
    (hr : r.restore = none) (href : r.references = 0) :
    (((s.setMember m r).setSession σ { (s.setMember m r).sessions σ with
      members := update ((s.setMember m r).sessions σ).members i (some m) }).retainSession σ).Exact ∧
    (((s.setMember m r).setSession σ { (s.setMember m r).sessions σ with
      members := update ((s.setMember m r).sessions σ).members i (some m) }).retainSession σ).links =
        (s.setMember m r).links ∧
    (((s.setMember m r).setSession σ { (s.setMember m r).sessions σ with
      members := update ((s.setMember m r).sessions σ).members i (some m) }).retainSession σ).entries =
        update s.entries σ (update (s.entries σ) i (some m)) ∧
    ∀ τ, τ ≠ σ → (((s.setMember m r).setSession σ { (s.setMember m r).sessions σ with
      members := update ((s.setMember m r).sessions σ).members i (some m) }).retainSession σ).sessions τ =
          s.sessions τ := by
  have h1 : (s.setMember m r).Exact :=
    h.exact.setMember (hr.trans (h.sound.restore_none hl).symm) (href.trans (h.references_zero hl).symm)
  refine ⟨h1.enroll hfree m, ?_, ?_, fun τ hτ => ?_⟩
  · rw [links_retainSession, links_setSession_of_eq (by rfl) (by rfl) (by rfl)]
  · rw [entries_retainSession]
    funext τ j
    by_cases hτ : τ = σ
    · subst hτ
      simp [entries, Console.setSession, Console.setMember]
      rfl
    · simp [entries, Console.setSession, Console.setMember, hτ]
  · exact (update_of_ne hτ _ _).trans (update_of_ne hτ _ _)

section join

variable {p : ρ}

section
variable (h : s.Valid) (id : Nat) (hl : s.links.live m = false) (hm : s.links.session m = none)
include h id hl hm

/-- The record of a new member of a session. -/
abbrev joined (σ : Slot) (id : Nat) (foreground : Bool) : Member ρ :=
  { session := some σ, id, live := true, foregroundLaunch := foreground }

lemma join_background (hfree : s.entries σ i = none) (ha : s.links.active = some σ) :
    ((s.setMember m (joined σ id false)).join m σ i (some p) false).Valid ∧
    ((s.setMember m (joined σ id false)).join m σ i (some p) false).links = s.links.enter m (some σ) false := by
  obtain ⟨h1, h2, h3, h4⟩ := h.join_entry hl hfree (r := (joined σ id false))
    rfl rfl
  have hlinks := h2.trans links_setMember
  unfold join
  dsimp only
  rw [if_neg Bool.false_ne_true]
  generalize ((s.setMember m (joined σ id false)).setSession σ _).retainSession
    σ = e at *
  refine ⟨h.enrolled h1 ?_ ?_ hm hfree h3 h4, hlinks⟩
  · rw [hlinks]
    exact h.sound.enter_join hl hm ha
  · rw [hlinks]

lemma join_foreground (hfree : s.entries σ i = none)
    (ha : s.links.active = some σ) (ho : s.links.owner σ = some p) :
    ((s.setMember m (joined σ id true)).join m σ i (some p) true).Valid ∧
    ((s.setMember m (joined σ id true)).join m σ i (some p) true).links =
      (s.links.enter m (some σ) true).follow m p σ := by
  obtain ⟨h1, h2, h3, h4⟩ := h.join_entry hl hfree (r := (joined σ id true))
    rfl rfl
  have hlinks := h2.trans links_setMember
  unfold join
  dsimp only
  rw [if_pos rfl]
  generalize ((s.setMember m (joined σ id true)).setSession σ _).retainSession
    σ = e at *
  have hr : (e.records m).restore = none := by
    have : e.links.restore m = none := by
      rw [hlinks]
      exact update_self _ _ _
    exact this
  have hfollow : (((e.setMember m { e.records m with restore := some p }).retain p).owner σ (some m)).links =
      (s.links.enter m (some σ) true).follow m p σ := by
    rw [links_owner, links_retain, links_setRestore, hlinks]
    rfl
  have hsound : ((s.links.enter m (some σ) true).follow m p σ).Sound := by
    refine (h.sound.enter_join hl hm ha).follow (update_self _ _ _) (update_self _ _ _) (update_self _ _ _)
      (fun x hx => ?_) (fun τ => h.sound.not_root hl) ho ha
    by_cases hxm : x = m
    · subst hxm
      exact nomatch (update_self _ _ _).symm.trans hx
    · exact h.sound.not_restore hl ((update_of_ne hxm _ _).symm.trans hx)
  refine ⟨h.enrolled ((h1.setRestore hr p).owner σ _) ?_ ?_ hm hfree (entries_owner.trans h3) fun τ hτ => ?_, hfollow⟩
  · rw [hfollow]
    exact hsound
  · rw [hfollow]
    rfl
  · exact (sessions_owner_of_ne hτ).trans (h4 τ hτ)

lemma join_root (hfree : s.entries σ i = none) (ha : s.links.active = none) (hc : s.links.closing σ = false) :
    ((s.setMember m (joined σ id true)).join m σ i none true).Valid ∧
    ((s.setMember m (joined σ id true)).join m σ i none true).links = (s.links.enter m (some σ) true).lead m σ := by
  obtain ⟨h1, h2, h3, h4⟩ := h.join_entry hl hfree (r := (joined σ id true))
    rfl rfl
  have hlinks := h2.trans links_setMember
  unfold join
  dsimp only
  rw [if_pos rfl]
  generalize ((s.setMember m (joined σ id true)).setSession σ _).retainSession
    σ = e at *
  have hea : e.active = none := (congrArg Links.active hlinks).trans ha
  have hroot : s.links.root σ = none := by
    cases hr : s.links.root σ with
    | none => rfl
    | some r => exact nomatch ha.symm.trans (h.sound.active.mpr ⟨r, hr⟩)
  have f1 := h1.activate (σ := σ) hea
  have f2 : ({ e with active := some σ }.retainSession σ).links = { e.links with active := some σ } :=
    links_retainSession
  have f3 : ({ e with active := some σ }.retainSession σ).entries = e.entries := entries_retainSession
  have f4 : ∀ τ, τ ≠ σ → ({ e with active := some σ }.retainSession σ).sessions τ = e.sessions τ :=
    fun τ hτ => update_of_ne hτ _ _
  generalize { e with active := some σ }.retainSession σ = f at *
  have hfr : (f.sessions σ).root = none := by
    have : f.links.root σ = none := by
      rw [f2, hlinks]
      exact hroot
    exact this
  have hlead : (((f.setSession σ { f.sessions σ with root := some m }).retain m).owner σ (some m)).links =
      (s.links.enter m (some σ) true).lead m σ := by
    rw [links_owner, links_retain, links_setRoot, f2, hlinks]
    rfl
  refine ⟨h.enrolled ((f1.setRoot hfr m).owner σ _) ?_ ?_ hm hfree ?_ fun τ hτ => ?_, hlead⟩
  · rw [hlead]
    exact h.sound.enter_lead hl hm ha hc
  · rw [hlead]
    rfl
  · refine entries_owner.trans ?_
    have : ((f.setSession σ { f.sessions σ with root := some m }).retain m).entries = f.entries :=
      entries_setSession (v := { f.sessions σ with root := some m }) rfl
    rw [this, f3, h3]
  · refine (sessions_owner_of_ne hτ).trans ?_
    exact (update_of_ne hτ _ _).trans ((f4 τ hτ).trans (h4 τ hτ))

end

end join

lemma start (h : s.Valid) (hl : s.links.live m = false) (hm : s.links.session m = none) (id : Nat) (foreground : Bool) :
    (s.setMember m { id, live := true, foregroundLaunch := foreground }).Valid ∧
    (s.setMember m { id, live := true, foregroundLaunch := foreground }).links = s.links.enter m none foreground := by
  have hlinks : (s.setMember m { id, live := true, foregroundLaunch := foreground }).links =
      s.links.enter m none foreground := links_setMember
  refine ⟨h.step_records
    (h.exact.setMember (h.sound.restore_none hl).symm (h.references_zero hl).symm) ?_ ?_ rfl, hlinks⟩
  · rw [hlinks]
    exact h.sound.enter_none hl hm
  · rw [hlinks]
    exact update_eq_self_iff.mpr hm.symm

lemma attach (h : s.Valid) (member : Option ρ) (id : Nat) (parent : Option ρ) (foreground : Bool) :
    (s.attach member id parent foreground).2.Valid ∧
    s.links.Move (.attach member id parent foreground) (s.attach member id parent foreground).2.links := by
  rcases member with - | m
  · exact ⟨h, .none⟩
  unfold Console.attach
  dsimp only
  split
  · exact ⟨h, .none⟩
  split
  · exact ⟨h, .none⟩
  rename_i hid hc
  simp only [Bool.or_eq_true, not_or, Bool.not_eq_true, bne_eq_false_iff_eq, Bool.not_eq_false',
    Option.isSome_eq_false_iff, Option.isNone_iff_eq_none] at hc
  obtain ⟨⟨⟨hl, hm⟩, -⟩, hcan⟩ := hc
  have hl : s.links.live m = false := hl
  have hm : s.links.session m = none := hm
  rcases parent with - | p
  · -- a trusted kernel producer
    cases foreground with
    | false =>
      obtain ⟨h1, h2⟩ := h.start hl hm id false
      refine ⟨h1, ?_⟩
      change s.links.Move _ (s.setMember m { id, live := true, foregroundLaunch := false }).links
      rw [h2]
      exact .start hl hm nofun
    | true =>
      simp only [canLaunch, Bool.not_true, Bool.false_or, Bool.and_eq_true, Option.isNone_iff_eq_none] at hcan
      obtain ⟨ha, hav⟩ := hcan
      obtain ⟨σ, hσ⟩ := Option.isSome_iff_exists.mp hav
      simp only [if_true, hσ]
      split
      · exact ⟨h, .none⟩
      · rename_i i hi
        have hclose := h.available_closing hσ
        obtain ⟨h1, h2⟩ := h.join_root id hl hm (freeEntry_none hi) ha hclose
        refine ⟨h1, ?_⟩
        dsimp only
        rw [h2]
        exact .lead hl hm ha hclose
  · unfold canLaunch at hcan
    dsimp only at hcan ⊢
    simp only [Bool.and_eq_true, Bool.or_eq_true, Bool.not_eq_true'] at hcan
    obtain ⟨⟨⟨hpl, hpc⟩, hfg⟩, hsess⟩ := hcan
    split
    · rename_i hps
      obtain ⟨h1, h2⟩ := h.start hl hm id foreground
      refine ⟨h1, ?_⟩
      dsimp only
      rw [h2]
      exact .start hl hm fun q hq => Option.some.inj hq ▸ hps
    · rename_i σ hps
      rw [hps] at hsess
      simp only [Bool.and_eq_true, Bool.not_eq_true'] at hsess
      have hps : s.links.session p = some σ := hps
      have ha : s.links.active = some σ := (h.sound.used hps).resolve_left fun hh => nomatch hsess.1.symm.trans hh
      have hlaunch : s.links.Launches p σ := ⟨hpl, hpc, hps, ha⟩
      split
      · exact ⟨h, .none⟩
      · rename_i i hi
        cases foreground with
        | false =>
          obtain ⟨h1, h2⟩ := h.join_background (p := p) id hl hm (freeEntry_none hi) ha
          refine ⟨h1, ?_⟩
          dsimp only
          rw [h2]
          exact .join hl hm hlaunch
        | true =>
          rw [owns_iff] at hfg
          obtain ⟨τ, -, -, hτ, -, -, ho⟩ := hfg.resolve_left (by decide)
          obtain rfl : σ = τ := Option.some.inj (hps.symm.trans hτ)
          obtain ⟨h1, h2⟩ := h.join_foreground id hl hm (freeEntry_none hi) ha ho
          refine ⟨h1, ?_⟩
          dsimp only
          rw [h2]
          exact .follow hl hm hlaunch ho

lemma struck (h : s.Valid) (he : t.Exact) (hs : t.links.Sound) (hss : t.links.session = update s.links.session m none)
    (hi : s.entries σ i = some m) (hen : t.entries = update s.entries σ (update (s.entries σ) i none))
    (hot : ∀ τ, τ ≠ σ → t.sessions τ = s.sessions τ)
        (hun : t.sessionReferences σ = 0 → t.sessions σ = {}) : t.Valid := by
  have hentry : ∀ {τ j x}, t.entries τ j = some x ↔ s.entries τ j = some x ∧ x ≠ m := by
    intro τ j x
    rw [hen]
    by_cases hτ : τ = σ
    · subst hτ
      by_cases hj : j = i
      · subst hj
        simp only [update_self]
        exact ⟨nofun, fun ⟨hx, hne⟩ => absurd (Option.some.inj (hx.symm.trans hi)) hne⟩
      · simp only [update_self, ne_eq, hj, not_false_eq_true, update_of_ne]
        refine ⟨fun hx => ⟨hx, fun e => hj (h.entry_inj (e ▸ hx) hi)⟩, And.left⟩
    · simp only [ne_eq, hτ, not_false_eq_true, update_of_ne]
      refine ⟨fun hx => ⟨hx, fun e => hτ ?_⟩, And.left⟩
      have := h.session_of_entry (e ▸ hx)
      rw [h.session_of_entry hi, Option.some.injEq] at this
      exact this.symm
  refine ⟨he, hs, ?_, ?_, ?_, ?_⟩
  · intro τ j x hx
    obtain ⟨hx, hne⟩ := hentry.mp hx
    rw [hss, update_of_ne hne]
    exact h.session_of_entry hx
  · intro τ x hx
    rw [hss] at hx
    have hne : x ≠ m := by
      rintro rfl
      exact nomatch (update_self _ _ _).symm.trans hx
    rw [update_of_ne hne] at hx
    obtain ⟨j, hj⟩ := h.entry_of_session hx
    exact ⟨j, hentry.mpr ⟨hj, hne⟩⟩
  · intro τ j k x hj hk
    exact h.entry_inj (hentry.mp hj).1 (hentry.mp hk).1
  · intro τ hz
    by_cases hτ : τ = σ
    · subst hτ
      exact hun hz
    · rw [sessionReferences, hot τ hτ] at hz
      rw [hot τ hτ]
      exact h.unused hz

/-- `t` is `s` without the entry of `m`. -/
structure Strike (s t : Console ρ) (m : ρ) (σ i : Slot) : Prop where
  exact : t.Exact
  links : t.links = s.links
  entries : t.entries = update s.entries σ (update (s.entries σ) i none)
  others : ∀ τ, τ ≠ σ → t.sessions τ = s.sessions τ
  restore : (t.records m).restore = (s.records m).restore
  references : (t.records m).references = (s.records m).references

lemma strike (h : s.Valid) (hi : s.entries σ i = some m) : Strike s
    ((s.setSession σ
      { s.sessions σ with members := update (s.sessions σ).members i none }).releaseSession σ) m σ i where
  exact := h.exact.strike hi
  links := by rw [links_releaseSession, links_setSession_of_eq (by rfl) (by rfl) (by rfl)]
  entries := by
    rw [entries_releaseSession]
    funext τ j
    by_cases hτ : τ = σ
    · subst hτ
      simp [Console.entries, Console.setSession]
      rfl
    · simp [Console.entries, Console.setSession, hτ]
  others τ hτ := (update_of_ne hτ _ _).trans (update_of_ne hτ _ _)
  restore := rfl
  references := rfl

section
variable (h : s.Valid) (ht : Strike s t m σ i) (hl : s.links.live m = false) (hi : s.entries σ i = some m)
include h ht hl hi

lemma detach_rest (hz : t.sessionReferences σ ≠ 0) :
    (t.setMember m {}).Valid ∧ s.links.Move (.detach (some m)) (t.setMember m {}).links := by
  have hlinks : (t.setMember m {}).links = s.links.forget m := by
    rw [links_setMember, ht.links]
    rfl
  refine ⟨h.struck (ht.exact.setMember ?_ ?_) ?_ ?_ hi ht.entries ht.others fun hz' => absurd hz' hz, ?_⟩
  · exact (ht.restore.trans (h.sound.restore_none hl)).symm
  · exact (ht.references.trans (h.references_zero hl)).symm
  · rw [hlinks]
    exact h.sound.forget hl
  · rw [hlinks]
    rfl
  · rw [hlinks]
    exact .detach hl

lemma detach_last (hz : t.sessionReferences σ = 0) : ((t.setSession σ {}).setMember m {}).Valid ∧
      s.links.Move (.detach (some m)) ((t.setSession σ {}).setMember m {}).links := by
  have hnone : ∀ j, t.entries σ j = none := fun j => by
    cases hj : t.entries σ j with
    | none => rfl
    | some x =>
      have := ht.exact.references_pos hj
      omega
  have hlast : ∀ x, s.links.session x = some σ → x = m := fun x hx => by
    obtain ⟨j, hj⟩ := h.entry_of_session hx
    by_contra hne
    have hji : j ≠ i := by
      rintro rfl
      exact hne (Option.some.inj (hj.symm.trans hi))
    have := hnone j
    rw [ht.entries, update_self, update_of_ne hji] at this
    exact nomatch this.symm.trans hj
  -- a root or an owner would be a member
  have hroot : t.links.root σ = none := by
    rw [ht.links]
    cases hr : s.links.root σ with
    | none => rfl
    | some r => exact absurd (hlast r (h.sound.rooted hr).2.1 ▸ hr) (h.sound.not_root hl)
  have howner : t.links.owner σ = none := by
    rw [ht.links]
    cases ho : s.links.owner σ with
    | none => rfl
    | some o => exact absurd (hlast o (h.sound.owned ho).2 ▸ ho) (h.sound.not_owner hl)
  have hex : (t.setSession σ {}).Exact :=
    ht.exact.setSession hroot.symm howner.symm (funext fun j => (hnone j).symm) hz.symm
  have hlinks : ((t.setSession σ {}).setMember m {}).links = (s.links.forget m).reopen σ := by
    rw [links_setMember, links_setSession, ← ht.links]
    refine Links.ext rfl rfl rfl rfl rfl rfl rfl ?_ ?_ rfl rfl
    · exact update_eq_self_iff.mpr hroot.symm
    · exact update_eq_self_iff.mpr howner.symm
  have hsound : ((s.links.forget m).reopen σ).Sound := by
    refine (h.sound.forget hl).reopen fun x hx => ?_
    by_cases hxm : x = m
    · subst hxm
      exact nomatch (update_self _ _ _).symm.trans hx
    · exact hxm (hlast x ((update_of_ne hxm _ _).symm.trans hx))
  refine ⟨h.struck (hex.setMember ?_ ?_) ?_ ?_ hi ?_ ?_ ?_, ?_⟩
  · exact (ht.restore.trans (h.sound.restore_none hl)).symm
  · exact (ht.references.trans (h.references_zero hl)).symm
  · rw [hlinks]
    exact hsound
  · rw [hlinks]
    rfl
  · rw [← ht.entries]
    funext τ j
    by_cases hτ : τ = σ
    · subst hτ
      rw [hnone]
      simp [Console.entries, Console.setSession, Console.setMember]
    · simp [Console.entries, Console.setSession, Console.setMember, hτ]
  · exact fun τ hτ => (update_of_ne hτ _ _).trans (ht.others τ hτ)
  · exact fun _ => update_self _ _ _
  · rw [hlinks]
    exact .detachLast hl (h.session_of_entry hi) hlast

end

lemma detach (h : s.Valid) (member : Option ρ) : (s.detach member).2.Valid ∧
    s.links.Move (.detach member) (s.detach member).2.links := by
  rcases member with - | m
  · exact ⟨h, .none⟩
  unfold Console.detach
  dsimp only
  split
  · exact ⟨h, .none⟩
  rename_i hc
  simp only [Bool.or_eq_true, not_or, Bool.not_eq_true] at hc
  have hl : s.links.live m = false := hc.1.1
  split
  · rename_i hs
    have hlinks : (s.setMember m {}).links = s.links.forget m := links_setMember
    refine ⟨h.step_records (h.exact.setMember (h.sound.restore_none hl).symm (h.references_zero hl).symm) ?_ ?_ rfl, ?_⟩
    · rw [hlinks]
      exact h.sound.forget hl
    · rw [hlinks]
      exact update_eq_self_iff.mpr hs.symm
    · rw [hlinks]
      exact .detach hl
  · rename_i σ hs
    split
    · exact ⟨h, .none⟩
    · rename_i i hfind
      have hi := List.find?_some hfind
      rw [beq_iff_eq] at hi
      have ht := h.strike (σ := σ) hi
      generalize (s.setSession σ
        { s.sessions σ with members := update (s.sessions σ).members i none }).releaseSession σ = t at ht
      dsimp only
      split
      · rename_i hz
        exact h.detach_last ht hl hi hz
      · rename_i hz
        exact h.detach_rest ht hl hi hz

/-- **One call** keeps the invariant and moves the links as the abstract transitions say. -/
theorem next (h : s.Valid) (call : ConsoleCall ρ) : (call.next s).Valid ∧ s.links.Move call (call.next s).links := by
  cases call with
  | attach member id parent foreground => exact h.attach member id parent foreground
  | markShell member => exact h.markShell member
  | grantCommand shell child => exact h.grantCommand shell child
  | cancelMember member => exact h.cancelMember member
  | memberExit member => exact h.memberExit member
  | detach member => exact h.detach member
  | requestExit command status => exact h.requestExit command status

end Valid

end Console

/-- The state after a sequence of calls. -/
def runConsole {ρ : Type} [DecidableEq ρ] (calls : List (ConsoleCall ρ)) : Console ρ :=
  calls.foldl (fun s call => call.next s) {}

section runs

variable {ρ : Type} [DecidableEq ρ] {s : Console ρ} {m : ρ} {σ : Slot}

lemma runConsole_valid (calls : List (ConsoleCall ρ)) : (runConsole calls).Valid := by
  suffices ∀ s : Console ρ, s.Valid → (calls.foldl (fun s call => call.next s) s).Valid from this {} .empty
  intro s h
  induction calls generalizing s with
  | nil => exact h
  | cons call calls ih => exact ih (call.next s) (h.next call).1

lemma ncard_sessions {f : Slot → Option ρ} (hf : ∀ {σ}, f σ = some m → (s.records m).session = some σ) :
    {σ | f σ = some m}.ncard = match (s.records m).session with
      | none => 0
      | some σ => if f σ = some m then 1 else 0 := by
  split
  · rename_i hs
    rw [Set.ncard_eq_zero]
    exact Set.eq_empty_of_forall_notMem fun σ hσ => nomatch hs.symm.trans (hf hσ)
  · rename_i σ hs
    have hsame : ∀ {τ}, f τ = some m → τ = σ := fun hτ => Option.some.inj ((hf hτ).symm.trans hs)
    split
    · rename_i hσ
      have : {σ | f σ = some m} = {σ} := by
        ext τ
        exact ⟨fun hτ => hsame hτ, fun hτ => hτ ▸ hσ⟩
      rw [this, Set.ncard_singleton]
    · rename_i hσ
      rw [Set.ncard_eq_zero]
      exact Set.eq_empty_of_forall_notMem fun τ hτ => hσ (hsame hτ ▸ hτ)

omit [DecidableEq ρ] in
lemma Console.Valid.references_eq (h : s.Valid) (m : ρ) : (s.records m).references =
    {x | (s.records x).restore = some m}.ncard + ({σ | (s.sessions σ).root = some m}.ncard +
      {σ | (s.sessions σ).owner = some m}.ncard) := by
  have hcount := h.exact.members.count m
  have hfin := h.exact.members.finite m
  have hset : holders s.held m = Holder.restore '' {x | (s.records x).restore = some m} ∪
      (Holder.root '' {σ | (s.sessions σ).root = some m} ∪ Holder.owner '' {σ | (s.sessions σ).owner = some m}) := by
    ext k
    cases k with
    | restore x => simp [Console.held]
    | root σ => simp [Console.held]
    | owner σ => simp [Console.held]
  have hd1 : Disjoint (Holder.restore '' {x | (s.records x).restore = some m})
      (Holder.root '' {σ | (s.sessions σ).root = some m} ∪ Holder.owner '' {σ | (s.sessions σ).owner = some m}) := by
    rw [Set.disjoint_left]
    rintro k ⟨x, -, rfl⟩ (⟨σ, -, hσ⟩ | ⟨σ, -, hσ⟩) <;> cases hσ
  have hd2 : Disjoint (Holder.root '' {σ | (s.sessions σ).root = some m})
      (Holder.owner (ρ := ρ) '' {σ | (s.sessions σ).owner = some m}) := by
    rw [Set.disjoint_left]
    rintro k ⟨x, -, rfl⟩ ⟨σ, -, hσ⟩
    cases hσ
  rw [hset] at hcount hfin
  rw [Set.ncard_union_eq hd1 (hfin.subset Set.subset_union_left) (hfin.subset Set.subset_union_right),
    Set.ncard_union_eq hd2 (Set.toFinite _) (Set.toFinite _),
      Set.ncard_image_of_injective _ fun _ _ => Holder.restore.inj,
    Set.ncard_image_of_injective _ fun _ _ => Holder.root.inj,
    Set.ncard_image_of_injective _ fun _ _ => Holder.owner.inj] at hcount
  exact hcount

omit [DecidableEq ρ] in
lemma Console.Valid.ncard_entries (h : s.Valid) (σ : Slot) :
    {i | (s.entries σ i).isSome}.ncard = {x | (s.records x).session = some σ}.ncard := by
  refine Set.ncard_congr (fun i hi => (s.entries σ i).get hi) (fun i hi => ?_) (fun i j hi hj he => ?_) fun x hx => ?_
  · exact h.session_of_entry (Option.some_get hi).symm
  · refine h.entry_inj (Option.some_get hi).symm ?_
    rw [he, Option.some_get]
  · obtain ⟨i, hi⟩ := h.entry_of_session (σ := σ) hx
    exact ⟨i, by simp [hi], by simp [hi]⟩

omit [DecidableEq ρ] in
lemma Console.Valid.sessionReferences_eq (h : s.Valid) (σ : Slot) : (s.sessions σ).references =
    {x | (s.records x).session = some σ}.ncard + if s.active = some σ then 1 else 0 := by
  have hcount := h.exact.sessions.count σ
  have hset : holders s.kept σ = (fun i => some (σ, i)) '' {i | (s.entries σ i).isSome} ∪
      {k | k = none ∧ s.active = some σ} := by
    ext k
    cases k with
    | none => simp [Console.kept]
    | some k =>
      obtain ⟨τ, i⟩ := k
      simp only [mem_holders, Console.kept, Set.mem_union, Set.mem_image, Set.mem_ofPred_eq, Option.some.injEq,
        Prod.mk.injEq, reduceCtorEq, false_and, or_false]
      constructor
      · intro hk
        split at hk
        · obtain rfl := Option.some.inj hk
          exact ⟨i, ‹_›, rfl, rfl⟩
        · cases hk
      · rintro ⟨j, hj, rfl, rfl⟩
        exact if_pos hj
  have hd : Disjoint ((fun i => some (σ, i)) '' {i | (s.entries σ i).isSome})
      {k : Option (Slot × Slot) | k = none ∧ s.active = some σ} := by
    rw [Set.disjoint_left]
    rintro k ⟨i, -, rfl⟩ ⟨hk, -⟩
    cases hk
  have hactive : {k : Option (Slot × Slot) | k = none ∧ s.active = some σ}.ncard = if s.active =
      some σ then 1 else 0 := by
    split
    · rename_i ha
      simp [ha]
    · rename_i ha
      simp [ha]
  rw [hset, Set.ncard_union_eq hd (Set.toFinite _) (Set.toFinite _), hactive, Set.ncard_image_of_injective _
    fun i j hij => (Prod.mk.inj (Option.some.inj hij)).2, h.ncard_entries] at hcount
  exact hcount

lemma Console.Valid.detach_ok (h : s.Valid) (hl : s.links.live m = false) : (s.detach (some m)).1 = true := by
  have h1 : (s.records m).live = false := hl
  have h2 : (s.records m).references = 0 := h.references_zero hl
  have h3 : (s.records m).restore = none := h.sound.restore_none hl
  unfold Console.detach
  simp only [h1, h2, h3, bne_self_eq_false, Bool.false_or, Option.isSome_none, Bool.false_eq_true, if_false]
  split
  · rfl
  · rename_i σ hs
    obtain ⟨i, hi⟩ := h.entry_of_session hs
    split
    · rename_i hfind
      have := List.find?_eq_none.mp hfind i (List.mem_finRange i)
      rw [show (s.sessions σ).members i = some m from hi] at this
      simp at this
    · rfl

omit [DecidableEq ρ] in
lemma Console.Valid.finite_members (h : s.Valid) : {x | (s.records x).session ≠ none}.Finite := by
  have hsub : some '' {x | (s.records x).session ≠ none} ⊆ Set.range fun k : Slot × Slot => s.entries k.1 k.2 := by
    rintro _ ⟨x, hx, rfl⟩
    obtain ⟨σ, hσ⟩ := Option.ne_none_iff_exists'.mp hx
    obtain ⟨i, hi⟩ := h.entry_of_session hσ
    exact ⟨(σ, i), hi⟩
  exact ((Set.finite_range _).subset hsub).of_finite_image (Option.some_injective ρ).injOn

omit [DecidableEq ρ] in
lemma Console.Valid.not_transGen (h : s.Valid) :
    ¬Relation.TransGen (fun x y => (s.records x).restore = some y) m m := by
  obtain ⟨rank, hrank⟩ := h.sound.acyclic
  have hlt : ∀ {x y}, Relation.TransGen (fun x y => (s.records x).restore = some y) x y → rank y < rank x := by
    intro x y hxy
    induction hxy with
    | single hr => exact hrank hr
    | tail _ hr ih => exact (hrank hr).trans ih
  exact fun hm => absurd (hlt hm) (Nat.lt_irrefl _)

/-- **Exact session references.** After any calls on any records the counters of members and sessions are the numbers of
pointers to them, links and owners lead to live members of the same session and in no circle, no counter was ever
decremented at 0, nothing points to a cleared session, and a member can be detached once it has exited. -/
theorem references_exact (calls : List (ConsoleCall ρ)) :
    let s := runConsole calls
    (∀ m, (s.records m).references = {x | (s.records x).restore = some m}.ncard + match (s.records m).session with
      | none => 0
      | some σ => (if (s.sessions σ).root = some m then 1 else 0) + if (s.sessions σ).owner = some m then 1 else 0) ∧
    (∀ σ, (s.sessions σ).references =
      {x | (s.records x).session = some σ}.ncard + if s.active = some σ then 1 else 0) ∧
    {x | (s.records x).session ≠ none}.Finite ∧
    (∀ x y, (s.records x).restore = some y → (s.records y).live = true ∧
      ∃ σ, (s.records x).session = some σ ∧ (s.records y).session = some σ) ∧
    (∀ σ o, (s.sessions σ).owner = some o → (s.records o).live = true ∧ (s.records o).session = some σ) ∧
    (∀ m, ¬Relation.TransGen (fun x y => (s.records x).restore = some y) m m) ∧
    s.underflowed = false ∧
    (∀ σ, s.sessions σ = {} → ∀ x, (s.records x).session ≠ some σ) ∧
    ∀ m, ((s.memberExit (some m)).2.records m).references = 0 ∧
        ((s.memberExit (some m)).2.detach (some m)).1 = true := by
  intro s
  have h : s.Valid := runConsole_valid calls
  refine ⟨fun m => ?_, h.sessionReferences_eq, h.finite_members, ?_, ?_, fun m => h.not_transGen, h.exact.sound, ?_,
    fun m => ?_⟩
  · have h1 := ncard_sessions (s := s) (m := m) (f := fun σ => (s.sessions σ).root) fun hr => (h.sound.rooted hr).2.1
    have h2 := ncard_sessions (s := s) (m := m) (f := fun σ => (s.sessions σ).owner) fun ho => (h.sound.owned ho).2
    rw [h.references_eq m, h1, h2]
    cases (s.records m).session <;> rfl
  · exact fun x y hxy => ⟨(h.sound.returns hxy).2.1, (h.sound.returns hxy).2.2⟩
  · exact fun σ o ho => h.sound.owned ho
  · intro σ hσ x hx
    obtain ⟨i, hi⟩ := h.entry_of_session hx
    rw [Console.entries, hσ] at hi
    cases hi
  · obtain ⟨h1, -, h3⟩ := h.memberExit_some m
    exact ⟨h1.references_zero h3, h1.detach_ok h3⟩

end runs

end RumKernel.Process
