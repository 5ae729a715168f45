import RumKernel.Process.References

/-!
# One member of a session

What a call of `session.c` does to the record of a member that is not its argument, which calls succeed, and which
fields they leave alone.
-/

namespace RumKernel.Process
open Function

variable {ρ : Type}
variable {foreground : Bool} {id : Nat}

/-- The member whose role, flags or membership a call changes. -/
def ConsoleCall.target : ConsoleCall ρ → Option ρ
  | attach member .. => member
  | markShell member => member
  | grantCommand _ child => child
  | cancelMember member => member
  | memberExit member => member
  | detach member => member
  | requestExit .. => none

/-- The calls that give a role or ask the shell to end. -/
def ConsoleCall.IsRole : ConsoleCall ρ → Prop
  | markShell _ | grantCommand _ _ | requestExit _ _ => True
  | _ => False

namespace Links

/-- What two states of the links say about a member that is not the argument of the call between them. -/
structure Frame (l l' : Links ρ) (x : ρ) : Prop where
  session : l'.session x = l.session x
  live : l'.live x = l.live x
  cancelled : l'.cancelled x = l.cancelled x
  shell : l'.shell x = l.shell x
  foreground : l'.foreground x = l.foreground x
  command : l'.command x = true → l.command x = true

variable {l l' : Links ρ} {m x : ρ} {call : ConsoleCall ρ}

lemma Frame.refl : Frame l l x := ⟨rfl, rfl, rfl, rfl, rfl, id⟩

variable [DecidableEq ρ]

lemma Frame.quit (hx : x ≠ m) : Frame l (l.quit m) x where
  session := rfl
  live := update_of_ne hx _ _
  cancelled := rfl
  shell := rfl
  foreground := rfl
  command h := (update_of_ne hx (β := fun _ => Bool) _ _).symm.trans h

lemma Frame.enter {session : Option Slot} (hx : x ≠ m) : Frame l (l.enter m session foreground) x where
  session := update_of_ne hx _ _
  live := update_of_ne hx _ _
  cancelled := update_of_ne hx _ _
  shell := update_of_ne hx _ _
  foreground := update_of_ne hx _ _
  command h := (update_of_ne hx (β := fun _ => Bool) _ _).symm.trans h

lemma Frame.forget (hx : x ≠ m) : Frame l (l.forget m) x where
  session := update_of_ne hx _ _
  live := update_of_ne hx _ _
  cancelled := update_of_ne hx _ _
  shell := update_of_ne hx _ _
  foreground := update_of_ne hx _ _
  command h := (update_of_ne hx (β := fun _ => Bool) _ _).symm.trans h

lemma Frame.close {σ : Slot} (hx : x ≠ m) : Frame l ((l.close σ).quit m) x := by
  refine ⟨rfl, update_of_ne hx _ _, rfl, rfl, rfl, fun h => ?_⟩
  have h : (l.close σ).command x = true := (update_of_ne hx (β := fun _ => Bool) _ _).symm.trans h
  dsimp only [Links.close] at h
  split at h
  · cases h
  · exact h

lemma Exit.frame (h : l.Exit m l') (hx : x ≠ m) : Frame l l' x := by
  cases h with
  | dead => exact .refl
  | alone => exact .quit hx
  | root => exact .close hx
  | other =>
    exact ⟨rfl, update_of_ne hx _ _, rfl, rfl, rfl, fun h => (update_of_ne hx (β := fun _ => Bool) _ _).symm.trans h⟩

lemma Exit.cancelled (h : l.Exit m l') : l'.cancelled = l.cancelled := by
  cases h <;> rfl

lemma Move.role (h : l.Move call l') (hc : call.IsRole) :
    l'.session = l.session ∧ l'.live = l.live ∧ l'.cancelled = l.cancelled := by
  cases h with
  | none | markShell | grantCommand => exact ⟨rfl, rfl, rfl⟩
  | _ => exact hc.elim

lemma Move.frame (h : l.Move call l') (hx : call.target ≠ some x) : Frame l l' x := by
  have hne : ∀ {m : ρ}, some m ≠ some x → x ≠ m := fun h e => h (congrArg some e.symm)
  cases h with
  | none => exact .refl
  | start | join => exact .enter (hne hx)
  | lead | follow =>
    obtain ⟨h1, h2, h3, h4, h5, h6⟩ := Frame.enter (l := l) (hne hx)
    exact ⟨h1, h2, h3, h4, h5, h6⟩
  | markShell => exact ⟨rfl, rfl, rfl, update_of_ne (hne hx) _ _, rfl, id⟩
  | grantCommand =>
    exact ⟨rfl, rfl, rfl, rfl, rfl, fun h => (update_of_ne (hne hx) (β := fun _ => Bool) _ _).symm.trans h⟩
  | cancel => exact ⟨rfl, rfl, update_of_ne (hne hx) _ _, rfl, rfl, id⟩
  | exit he => exact he.frame (hne hx)
  | detach => exact .forget (hne hx)
  | detachLast =>
    obtain ⟨h1, h2, h3, h4, h5, h6⟩ := Frame.forget (l := l) (hne hx)
    exact ⟨h1, h2, h3, h4, h5, h6⟩

variable {σ : Slot}

section
variable (h : l.Move call l') (hx : l.session x = some σ)
include h hx

lemma Move.session (hd : call ≠ .detach (some x)) : l'.session x = some σ := by
  by_cases ht : call.target = some x
  · cases h with
    | none => exact hx
    | start _ hs | lead _ hs | join _ hs | follow _ hs =>
      obtain rfl := Option.some.inj ht
      cases hs.symm.trans hx
    | markShell | grantCommand | cancel => exact hx
    | exit he => cases he <;> exact hx
    | detach | detachLast => exact absurd (congrArg ConsoleCall.detach ht) hd
  · rw [(h.frame ht).session]
    exact hx

lemma Move.shell (hsh : l.shell x = true) (hd : call ≠ .detach (some x)) : l'.shell x = true := by
  by_cases ht : call.target = some x
  · cases h with
    | none => exact hsh
    | start _ hs | lead _ hs | join _ hs | follow _ hs =>
      obtain rfl := Option.some.inj ht
      cases hs.symm.trans hx
    | markShell =>
      obtain rfl := Option.some.inj ht
      exact update_self ..
    | grantCommand | cancel => exact hsh
    | exit he => cases he <;> exact hsh
    | detach | detachLast => exact absurd (congrArg ConsoleCall.detach ht) hd
  · rw [(h.frame ht).shell]
    exact hsh

lemma Move.closing (hc : l.closing σ = true) (hd : call ≠ .detach (some x)) : l'.closing σ = true := by
  cases h with
  | exit he =>
    cases he with
    | dead | alone | other => exact hc
    | @root τ hr =>
      change update l.closing τ true σ = true
      rcases eq_or_ne σ τ with rfl | hne
      · exact update_self ..
      · rwa [update_of_ne hne]
  | @detachLast m τ _ _ hno =>
    change update l.closing τ false σ = true
    rcases eq_or_ne σ τ with rfl | hne
    · exact absurd (congrArg (ConsoleCall.detach ∘ some) (hno x hx).symm) hd
    · rwa [update_of_ne hne]
  | _ => exact hc

end

lemma Move.root (hs : l.Sound) (h : l.Move call l') (hr : l.root σ = some x) : l'.root σ = some x ∨
    l'.closing σ = true := by
  cases h with
  | lead _ _ ha => exact nomatch ha.symm.trans (hs.active.mpr ⟨x, hr⟩)
  | exit he =>
    cases he with
    | dead | alone | other => exact .inl hr
    | @root τ hr' =>
      rcases eq_or_ne σ τ with rfl | hne
      · exact .inr (update_self ..)
      · refine .inl ?_
        change update l.root τ Option.none σ = some x
        rwa [update_of_ne hne]
  | _ => exact .inl hr

lemma Move.restored (h : l.Move call l') (hx : l'.restore x ≠ Option.none) :
    l.restore x ≠ Option.none ∨ ∃ id p, call = .attach (some x) id (some p) true := by
  have hset : ∀ {m : ρ}, update l.restore m Option.none x ≠ Option.none → l.restore x ≠ Option.none := fun {m} h => by
    rcases eq_or_ne x m with rfl | hne
    · rw [update_self] at h
      exact absurd rfl h
    · rwa [update_of_ne hne] at h
  cases h with
  | none | markShell | grantCommand | cancel => exact .inl hx
  | start | lead | join => exact .inl (hset hx)
  | @follow m p _ id =>
    rcases eq_or_ne x m with rfl | hne
    · exact .inr ⟨id, p, rfl⟩
    · change update (update l.restore m Option.none) m (some p) x ≠ Option.none at hx
      rw [update_of_ne hne] at hx
      exact .inl (hset hx)
  | exit he =>
    refine .inl ?_
    cases he with
    | dead | alone => exact hx
    | root =>
      intro h
      refine hx ?_
      dsimp only [Links.quit, Links.close]
      split
      · rfl
      · exact h
    | other =>
      intro h
      refine hx ?_
      dsimp only [Links.quit, Links.splice, Links.pass]
      split
      · rfl
      · rw [if_neg (by simp [h])]
        exact h
  | detach | detachLast => exact .inl (hset hx)

lemma Move.command (hs : l.Sound) (h : l.Move call l') (hx : l'.command x = true) :
    (∃ shell, call = .grantCommand (some shell) (some x)) ∨ l.command x = true ∧ l'.live x = l.live x ∧ ∀ σ r,
      l.session x = some σ →
      l.root σ = some r → l.shell r = true → l'.session x = some σ ∧ l'.root σ = some r ∧ l'.shell r = true := by
  have hset : ∀ {m : ρ}, update l.command m false x = true → x ≠ m ∧ l.command x = true := fun {m} h => by
    rcases eq_or_ne x m with rfl | hne
    · rw [update_self] at h
      cases h
    · rw [update_of_ne hne] at h
      exact ⟨hne, h⟩
  -- a root is live, so that it is no record that is written anew or cleared
  have hkeep : ∀ {m r : ρ} {σ : Slot}, l.live m = false → l.root σ = some r → l.shell r = true →
      update l.shell m false r = true := fun {m r σ} hm hr hsh => by
    rw [update_of_ne]
    · exact hsh
    · rintro rfl
      cases hm.symm.trans (hs.rooted hr).1
  cases h with
  | none | cancel => exact .inr ⟨hx, rfl, fun σ r h1 h2 h3 => ⟨h1, h2, h3⟩⟩
  | start hl | join hl | follow hl | detach hl | detachLast hl =>
    obtain ⟨hne, hc⟩ := hset hx
    exact .inr ⟨hc, update_of_ne hne .., fun σ r h1 h2 h3 => ⟨(update_of_ne hne ..).trans h1, h2, hkeep hl h2 h3⟩⟩
  | lead _ _ ha =>
    obtain ⟨hne, hc⟩ := hset hx
    exact .inr ⟨hc, update_of_ne hne .., fun σ r h1 h2 h3 => (nomatch ha.symm.trans (hs.active.mpr ⟨r, h2⟩))⟩
  | @markShell m =>
    refine .inr ⟨hx, rfl, fun σ r h1 h2 h3 => ⟨h1, h2, ?_⟩⟩
    change update l.shell m true r = true
    rcases eq_or_ne r m with rfl | hne
    · exact update_self ..
    · rwa [update_of_ne hne]
  | @grantCommand m c =>
    rcases eq_or_ne x c with rfl | hne
    · exact .inl ⟨m, rfl⟩
    · change update l.command c true x = true at hx
      rw [update_of_ne hne] at hx
      exact .inr ⟨hx, rfl, fun σ r h1 h2 h3 => ⟨h1, h2, h3⟩⟩
  | @exit m _ he =>
    cases he with
    | dead => exact .inr ⟨hx, rfl, fun σ r h1 h2 h3 => ⟨h1, h2, h3⟩⟩
    | alone | other => exact .inr ⟨(hset hx).2, update_of_ne (hset hx).1 .., fun σ r h1 h2 h3 => ⟨h1, h2, h3⟩⟩
    | @root τ hr =>
      dsimp only [Links.quit, Links.close] at hx
      rcases eq_or_ne x m with rfl | hne
      · rw [update_self] at hx
        cases hx
      · rw [update_of_ne hne] at hx
        split at hx
        · cases hx
        · rename_i hτ
          refine .inr ⟨hx, update_of_ne hne .., fun σ r h1 h2 h3 => ⟨h1, ?_, h3⟩⟩
          change update l.root τ Option.none σ = some r
          rw [update_of_ne]
          · exact h2
          · rintro rfl
            exact hτ h1

/-- What happens to the links while `x` is not detached. -/
inductive Follows (x : ρ) (l : Links ρ) : Links ρ → Prop
  | move {call : ConsoleCall ρ} {l' : Links ρ} (hs : l.Sound) (h : l.Move call l') (hd : call ≠ .detach (some x)) :
      Follows x l l'
  | foreground {f} : Follows x l { l with foreground := f }

section
variable (h : Relation.ReflTransGen (Follows x) l l') (hx : l.session x = some σ)
include h hx

lemma Follows.closing (hc : l.closing σ = true) : l'.session x = some σ ∧ l'.closing σ = true := by
  induction h with
  | refl => exact ⟨hx, hc⟩
  | tail _ ha ih =>
    obtain ⟨hx, hc⟩ := ih
    cases ha with
    | move _ hm hd => exact ⟨hm.session hx hd, hm.closing hx hc hd⟩
    | foreground => exact ⟨hx, hc⟩

lemma Follows.root {r : ρ}
    (hr : l.root σ = some r ∨ l.closing σ = true) : l'.session x = some σ ∧
        (l'.root σ = some r ∨ l'.closing σ = true) := by
  induction h with
  | refl => exact ⟨hx, hr⟩
  | tail _ ha ih =>
    obtain ⟨hx, hr⟩ := ih
    cases ha with
    | move hs hm hd => exact ⟨hm.session hx hd, hr.elim (hm.root hs) fun hc => .inr (hm.closing hx hc hd)⟩
    | foreground => exact ⟨hx, hr⟩

lemma Follows.shell (hsh : l.shell x = true) : l'.session x = some σ ∧ l'.shell x = true := by
  induction h with
  | refl => exact ⟨hx, hsh⟩
  | tail _ ha ih =>
    obtain ⟨hx, hsh⟩ := ih
    cases ha with
    | move hs hm hd => exact ⟨hm.session hx hd, hm.shell hx hsh hd⟩
    | foreground => exact ⟨hx, hsh⟩

end

end Links

namespace Console

variable [DecidableEq ρ] {s : Console ρ} {m p x : ρ} {σ i : Slot}

lemma links_setForeground {b : Bool} : (s.setMember m { s.records m with foregroundLaunch := b }).links =
    { s.links with foreground := update s.links.foreground m b } := by
  rw [links_setMember]
  ext x : 2 <;> simp [links]

/-! ## Fields that no pointer moves -/

section views

variable {α : Type} {f : Member ρ → α}

def view (f : Member ρ → α) (s : Console ρ) (m : ρ) : α := f (s.records m)

omit [DecidableEq ρ] in
/-- A part of a record without the return link, the counter and the authority of a command. -/
def Stable (f : Member ρ → α) : Prop :=
  ∀ (r : Member ρ) (restore : Option ρ) (references : Nat) (command : Bool),
    f { r with restore, references, command } = f r

lemma view_setMember {r : Member ρ} : (s.setMember m r).view f = update (s.view f) m (f r) := by
  funext x
  by_cases hx : x = m
  · subst hx
    simp [view, setMember]
  · simp [view, setMember, hx]

lemma view_setMember_self {r : Member ρ} (h : f r = f (s.records m)) : (s.setMember m r).view f = s.view f := by
  rw [view_setMember, h]
  exact update_eq_self m (s.view f)

variable (hf : Stable f)

include hf

lemma view_retain : (s.retain m).view f = s.view f := view_setMember_self (hf _ _ _ _)

lemma view_release : (s.release m).view f = s.view f := by
  change (s.setMember m { s.records m with references := (s.records m).references - 1 }).view f = s.view f
  exact view_setMember_self (hf _ _ _ _)

lemma view_releaseReturn : (s.releaseReturn m).view f = s.view f := by
  unfold releaseReturn
  cases (s.records m).restore with
  | none => exact view_setMember_self (hf _ _ _ _)
  | some target => exact (view_setMember_self (hf _ _ _ _)).trans (view_release hf)

lemma view_owner {next : Option ρ} : (s.owner σ next).view f = s.view f := by
  unfold owner
  cases (s.sessions σ).owner with
  | none =>
    cases next with
    | none => rfl
    | some new => exact view_retain hf
  | some old =>
    cases next with
    | none => exact view_release hf
    | some new => exact (view_retain hf).trans (view_release hf)

lemma view_closeEntry : (s.closeEntry σ i).view f = s.view f := by
  unfold closeEntry
  cases (s.sessions σ).members i with
  | none => rfl
  | some other => exact (view_setMember_self (hf _ _ _ _)).trans (view_releaseReturn hf)

lemma view_relinkEntry : (s.relinkEntry m σ i).view f = s.view f := by
  unfold relinkEntry
  cases (s.sessions σ).members i with
  | none => rfl
  | some other =>
    dsimp only
    split
    · split
      · rw [view_retain hf, view_setMember_self (hf _ _ _ _), view_releaseReturn hf]
      · rw [view_setMember_self (hf _ _ _ _), view_releaseReturn hf]
    · rfl

omit hf [DecidableEq ρ] in
lemma view_foldl {g : Console ρ → Slot → Console ρ} (hg : ∀ s i, (g s i).view f = s.view f) (l : List Slot) :
    (l.foldl g s).view f = s.view f := by
  induction l generalizing s with
  | nil => rfl
  | cons i l ih => exact ih.trans (hg s i)

lemma view_exitRoot : (s.exitRoot m σ).view f = s.view f := by
  have h : ((((List.finRange 16).foldl (fun s i => s.closeEntry σ i)
      (s.setSession σ { s.sessions σ with closing := true })).owner σ none).release m).view f = s.view f :=
    (view_release hf).trans ((view_owner hf).trans (view_foldl (fun _ _ => view_closeEntry hf) _))
  unfold exitRoot
  dsimp only
  split <;> exact h

lemma view_exitOther : (s.exitOther m σ).view f = s.view f := by
  have h : ((List.finRange 16).foldl (fun s i => s.relinkEntry m σ i) s).view f = s.view f :=
    view_foldl (fun _ _ => view_relinkEntry hf) _
  unfold exitOther
  dsimp only
  split
  · exact h
  · split
    · exact (view_owner hf).trans h
    · exact h

lemma view_join {entry : Slot} {parent : Option ρ} : (s.join m σ entry parent foreground).view f = s.view f := by
  unfold join
  dsimp only
  split
  · rw [view_owner hf]
    cases parent with
    | none => exact view_retain hf
    | some p => exact (view_retain hf).trans (view_setMember_self (hf _ _ _ _))
  · rfl

lemma view_attach {parent : Option ρ} (h : (s.attach (some m) id parent foreground).1 = true) :
    ∃ session, (s.attach (some m) id parent foreground).2.view f m =
      f { session, id, live := true, foregroundLaunch := foreground } := by
  revert h
  unfold attach
  dsimp only
  split
  · rintro ⟨⟩
  split
  · rintro ⟨⟩
  split
  · intro _
    rw [view_setMember, update_self]
    exact ⟨_, rfl⟩
  · split
    · rintro ⟨⟩
    · intro _
      rw [view_join hf, view_setMember, update_self]
      exact ⟨_, rfl⟩

end views

def ids (s : Console ρ) (m : ρ) : Nat := (s.records m).id

lemma ids_setMember {r : Member ρ} : (s.setMember m r).ids = update s.ids m r.id := view_setMember (f := Member.id)

lemma ids_setMember_self {r : Member ρ} (h : r.id = (s.records m).id) : (s.setMember m r).ids = s.ids :=
  view_setMember_self (f := Member.id) h

omit [DecidableEq ρ] in
lemma stable_id : Stable (Member.id (ρ := ρ)) := fun _ _ _ _ => rfl

lemma ids_cancelMember : (s.cancelMember (some m)).ids = s.ids := ids_setMember_self (by rfl)

lemma ids_memberExit (member : Option ρ) : (s.memberExit member).2.ids = s.ids := by
  unfold memberExit
  cases member with
  | none => rfl
  | some m =>
    have h : (s.setMember m { s.records m with live := false, command := false }).ids = s.ids := ids_setMember_self rfl
    dsimp only
    split
    · rfl
    · split
      · exact (view_releaseReturn stable_id).trans h
      · split
        · exact (view_releaseReturn stable_id).trans ((view_exitRoot stable_id).trans h)
        · split
          · exact (view_releaseReturn stable_id).trans ((view_exitOther stable_id).trans h)
          · exact (view_releaseReturn stable_id).trans h

lemma ids_role (s : Console ρ) (call : ConsoleCall ρ) (hc : call.IsRole) : (call.next s).ids = s.ids := by
  cases call with
  | markShell member =>
    cases member with
    | none => rfl
    | some m =>
      dsimp only [ConsoleCall.next, markShell]
      split
      · rfl
      split
      · rw [ids_setMember_self (by rfl)]
      · rfl
  | grantCommand shell child =>
    dsimp only [ConsoleCall.next, grantCommand]
    split
    · split
      · rw [ids_setMember_self (by rfl)]
      · rfl
    · rfl
  | requestExit command status =>
    cases command with
    | none => rfl
    | some m =>
      dsimp only [ConsoleCall.next, requestExit]
      split
      · rfl
      split <;> rfl
  | _ => exact hc.elim

lemma ids_next (s : Console ρ) (call : ConsoleCall ρ) (hx : call.target ≠ some x) : (call.next s).ids x = s.ids x := by
  have hne : ∀ {m : ρ}, some m ≠ some x → x ≠ m := fun h e => h (congrArg some e.symm)
  cases call with
  | attach member id parent foreground =>
    cases member with
    | none => rfl
    | some m =>
      dsimp only [ConsoleCall.next, attach]
      split
      · rfl
      split
      · rfl
      split
      · rw [ids_setMember, update_of_ne (hne hx)]
      · split
        · rfl
        · change (Console.join _ m _ _ _ _).view Member.id x = s.ids x
          rw [view_join stable_id, view_setMember, update_of_ne (hne hx)]
          rfl
  | markShell member => exact congrFun (ids_role s (.markShell member) trivial) x
  | grantCommand shell child => exact congrFun (ids_role s (.grantCommand shell child) trivial) x
  | cancelMember member =>
    cases member with
    | none => rfl
    | some m => exact congrFun ids_cancelMember x
  | memberExit member => exact congrFun (ids_memberExit member) x
  | detach member =>
    cases member with
    | none => rfl
    | some m =>
      dsimp only [ConsoleCall.next, detach]
      split
      · rfl
      split
      · rw [ids_setMember, update_of_ne (hne hx)]
      · split
        · rfl
        · rw [ids_setMember, update_of_ne (hne hx)]
          split <;> rfl
  | requestExit command status => exact congrFun (ids_role s (.requestExit command status) trivial) x

/-! ## Calls that succeed -/

omit [DecidableEq ρ] in
lemma Valid.fresh (h : s.Valid) (hl : s.links.live m = false) (hs : s.links.session m = none)
    (hc : s.links.cancelled m = false) (hsh : s.links.shell m = false) (hco : s.links.command m = false)
    (hf : s.links.foreground m = false) (hi : s.ids m = 0) : s.records m = {} := by
  have h1 : (s.records m).references = 0 := h.references_zero hl
  have h2 : (s.records m).restore = none := h.sound.restore_none hl
  cases hr : s.records m with
  | mk session restore id references live cancelled shell command foregroundLaunch =>
    simp_all [links, ids]

omit [DecidableEq ρ] in
lemma Valid.available_freeEntry (h : s.Valid) (ha : s.available = some σ) : (s.freeEntry σ).isSome = true := by
  have h0 : (s.sessions σ).references = 0 := by simpa using List.find?_some ha
  rw [freeEntry, h.unused h0]
  rfl

section
variable (h : s.Valid) (hl : s.links.live m = false) (hs : s.links.session m = none)
include h hl hs

omit [DecidableEq ρ] in
lemma Valid.vacant :
    (s.records m).live = false ∧ (s.records m).session = none ∧ (s.records m).references = 0 :=
  ⟨hl, hs, h.references_zero hl⟩

lemma Valid.attach_ok (hid : id ≠ 0) {parent : Option ρ} (hc : s.canLaunch parent foreground = true) :
    (s.attach (some m) id parent foreground).1 = true := by
  obtain ⟨h1, h2, h3⟩ := h.vacant hl hs
  unfold Console.attach
  simp only [hid, h1, h2, h3, hc, if_false, Option.isSome_none, bne_self_eq_false, Bool.not_true, Bool.or_self,
    Bool.false_eq_true]
  split
  · rfl
  · rename_i σ hσ
    have hfree : (s.freeEntry σ).isSome = true := by
      cases parent with
      | none =>
        cases foreground with
        | false => cases hσ
        | true => exact h.available_freeEntry hσ
      | some p =>
        unfold canLaunch at hc
        simp only at hσ
        simp only [hσ, Bool.and_eq_true] at hc
        exact hc.2.2
    obtain ⟨i, hi⟩ := Option.isSome_iff_exists.mp hfree
    simp [hi]

lemma Valid.attach_root (hid : id ≠ 0) (hc : s.canLaunch none true = true) : ∃ σ, s.links.closing σ = false ∧
    (s.attach (some m) id none true).2.links = (s.links.enter m (some σ) true).lead m σ := by
  obtain ⟨h1, h2, h3⟩ := h.vacant hl hs
  have hcan := hc
  simp only [canLaunch, Bool.not_true, Bool.false_or, Bool.and_eq_true, Option.isNone_iff_eq_none] at hcan
  obtain ⟨σ, hσ⟩ := Option.isSome_iff_exists.mp hcan.2
  obtain ⟨i, hi⟩ := Option.isSome_iff_exists.mp (h.available_freeEntry hσ)
  have hclose := h.available_closing hσ
  refine ⟨σ, hclose, ?_⟩
  unfold Console.attach
  simp only [hid, h1, h2, h3, hc, if_false, Option.isSome_none, bne_self_eq_false, Bool.not_true, Bool.or_self,
    Bool.false_eq_true, if_true, hσ, hi]
  exact (h.join_root id hl hs (freeEntry_none hi) hcan.1 hclose).2

end

lemma markShell_links (hl : s.links.live m = true) (hc : s.links.cancelled m = false) (hs : s.links.session m = some σ)
    (ha : s.links.active = some σ) (hcl : s.links.closing σ = false) (ho : s.links.owner σ = some m)
    (hr : s.links.root σ = some m) (hsh : s.links.shell m = false) : (s.markShell (some m)).1 = true ∧
    (s.markShell (some m)).2.links = { s.links with shell := update s.links.shell m true } := by
  have howns : s.owns (some m) = true := Valid.owns_iff.mpr ⟨σ, hl, hc, hs, ha, hcl, ho⟩
  have h1 : (s.records m).session = some σ := hs
  have h2 : (s.sessions σ).root = some m := hr
  have h3 : (s.records m).shell = false := hsh
  have he : s.markShell (some m) = (true, s.setMember m { s.records m with shell := true }) := by
    unfold markShell
    dsimp only
    split
    · rename_i hn
      cases hn.symm.trans h1
    · rename_i τ hτ
      obtain rfl := Option.some.inj (h1.symm.trans hτ)
      rw [if_pos (by simp [howns, h2, h3])]
  rw [he]
  exact ⟨rfl, links_setShell⟩

lemma grantCommand_spec {c : ρ} (h : (s.grantCommand (some m) (some c)).1 = true) :
    (∃ σ, s.links.root σ = some m ∧ s.links.shell m = true ∧ s.links.session c = some σ ∧ s.links.restore c = some m ∧
      s.links.live c = true) ∧
    (s.grantCommand (some m) (some c)).2.links = { s.links with command := update s.links.command c true } := by
  revert h
  unfold grantCommand
  split
  · rename_i σ a b _ e1 e2
    cases e1
    cases e2
    split
    · rename_i hc
      intro _
      simp only [Bool.and_eq_true, Valid.isShell_iff, beq_iff_eq] at hc
      obtain ⟨⟨⟨⟨⟨⟨⟨⟨τ, -, h2, h3, -, h5⟩, hl⟩, -⟩, -⟩, -⟩, h8⟩, h9⟩, -⟩ := hc
      exact ⟨⟨τ, h5, h2, h8.trans h3, h9, hl⟩, links_setCommand⟩
    · rintro ⟨⟩
  · rintro ⟨⟩

lemma records_detach (h : (s.detach (some m)).1 = true) : (s.detach (some m)).2.records m = {} := by
  revert h
  unfold detach
  dsimp only
  split
  · exact nofun
  split
  · exact fun _ => update_self ..
  · split
    · exact nofun
    · exact fun _ => update_self ..

end Console

end RumKernel.Process
