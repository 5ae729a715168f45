import RumKernel.Lib.Counts
import RumKernel.Process.Session

/-!
# Sessions without counters

A console state apart from its counters: which records are attached where, who returns to whom, who is the root and the
owner of a session. Each piece of `session.c` that moves a pointer adjusts counters on both ends; here it is shown once
for each piece that the counters stay exact, and what it does to the rest.
-/

namespace RumKernel.Process
open Function Lib

variable {b : Bool} {i : Slot}

/-- A console state without the counters. -/
@[ext] structure Links (ρ : Type) where
  session : ρ → Option Slot
  restore : ρ → Option ρ
  live : ρ → Bool
  cancelled : ρ → Bool
  shell : ρ → Bool
  command : ρ → Bool
  foreground : ρ → Bool
  root : Slot → Option ρ
  owner : Slot → Option ρ
  closing : Slot → Bool
  active : Option Slot

/-- A pointer to a member record that its counter accounts for. -/
inductive Holder (ρ : Type) where
  | restore (m : ρ)
  | root (σ : Slot)
  | owner (σ : Slot)
  deriving DecidableEq

namespace Console

variable {ρ : Type}

def links (s : Console ρ) : Links ρ where
  session m := (s.records m).session
  restore m := (s.records m).restore
  live m := (s.records m).live
  cancelled m := (s.records m).cancelled
  shell m := (s.records m).shell
  command m := (s.records m).command
  foreground m := (s.records m).foregroundLaunch
  root σ := (s.sessions σ).root
  owner σ := (s.sessions σ).owner
  closing σ := (s.sessions σ).closing
  active := s.active

/-- The member a holder points to. -/
def held (s : Console ρ) : Holder ρ → Option ρ
  | .restore m => (s.records m).restore
  | .root σ => (s.sessions σ).root
  | .owner σ => (s.sessions σ).owner

def references (s : Console ρ) (m : ρ) : Nat := (s.records m).references

/-- The session that an entry, or the variable `active`, keeps. -/
def kept (s : Console ρ) : Option (Slot × Slot) → Option Slot
  | none => s.active
  | some (σ, i) => if ((s.sessions σ).members i).isSome then some σ else none

def sessionReferences (s : Console ρ) (σ : Slot) : Nat := (s.sessions σ).references

/-- Every counter is exact, and none was ever decremented at 0. -/
structure Exact (s : Console ρ) : Prop where
  members : Counted s.held s.references
  sessions : Counted s.kept s.sessionReferences
  sound : s.underflowed = false

lemma Exact.empty : Exact ({} : Console ρ) where
  members := by
    have : held ({} : Console ρ) = fun _ => none := by
      funext h
      cases h <;> rfl
    rw [this]
    exact Counted.empty
  sessions := by
    have : kept ({} : Console ρ) = fun _ => none := by
      funext h
      cases h <;> rfl
    rw [this]
    exact Counted.empty
  sound := rfl

lemma Exact.congr {s t : Console ρ} (h : Exact s) (h1 : t.held = s.held) (h2 : t.references = s.references)
    (h3 : t.kept = s.kept) (h4 : t.sessionReferences = s.sessionReferences) (h5 : t.underflowed = s.underflowed) :
    Exact t where
  members := by
    rw [h1, h2]
    exact h.members
  sessions := by
    rw [h3, h4]
    exact h.sessions
  sound := h5.trans h.sound

variable [DecidableEq ρ] {s : Console ρ} {m n : ρ} {r : Member ρ} {v : Session ρ} {σ : Slot}

/-! ## Assignments -/

@[simp] lemma held_setMember : (s.setMember m r).held = update s.held (.restore m) r.restore := by
  funext h
  cases h with
  | restore x =>
    by_cases hx : x = m
    · subst hx
      simp [held, setMember]
    · simp [held, setMember, hx]
  | root σ => simp [held, setMember]
  | owner σ => simp [held, setMember]

@[simp] lemma references_setMember : (s.setMember m r).references = update s.references m r.references := by
  funext x
  by_cases hx : x = m
  · subst hx
    simp [references, setMember]
  · simp [references, setMember, hx]

@[simp] lemma kept_setMember : (s.setMember m r).kept = s.kept := rfl

@[simp] lemma sessionReferences_setMember : (s.setMember m r).sessionReferences = s.sessionReferences := rfl

@[simp] lemma held_setSession :
    (s.setSession σ v).held = update (update s.held (.root σ) v.root) (.owner σ) v.owner := by
  funext h
  cases h with
  | restore x => simp [held, setSession]
  | root τ | owner τ =>
    by_cases hx : τ = σ
    · subst hx
      simp [held, setSession]
    · simp [held, setSession, hx]

omit [DecidableEq ρ] in
@[simp] lemma references_setSession : (s.setSession σ v).references = s.references := rfl

omit [DecidableEq ρ] in
@[simp] lemma sessionReferences_setSession :
    (s.setSession σ v).sessionReferences = update s.sessionReferences σ v.references := by
  funext τ
  by_cases hx : τ = σ
  · subst hx
    simp [sessionReferences, setSession]
  · simp [sessionReferences, setSession, hx]

omit [DecidableEq ρ] in
lemma kept_setSession (h : v.members = (s.sessions σ).members) : (s.setSession σ v).kept = s.kept := by
  funext k
  cases k with
  | none => rfl
  | some k =>
    obtain ⟨τ, i⟩ := k
    by_cases hx : τ = σ
    · subst hx
      simp [kept, setSession, h]
    · simp [kept, setSession, hx]

lemma Exact.setMember (h : Exact s) (h1 : r.restore = (s.records m).restore)
    (h2 : r.references = (s.records m).references) : Exact (s.setMember m r) := by
  refine h.congr ?_ ?_ rfl rfl rfl
  · rw [held_setMember, h1]
    exact update_eq_self (Holder.restore m) s.held
  · rw [references_setMember, h2]
    exact update_eq_self m s.references

lemma update_held_root : update s.held (.root σ) (s.sessions σ).root = s.held := update_eq_self (Holder.root σ) s.held

lemma update_held_owner : update s.held (.owner σ) (s.sessions σ).owner = s.held :=
  update_eq_self (Holder.owner σ) s.held

lemma held_setSession_of_eq (h1 : v.root = (s.sessions σ).root) (h2 : v.owner = (s.sessions σ).owner) :
    (s.setSession σ v).held = s.held := by
  rw [held_setSession, h1, h2, update_held_root, update_held_owner]

lemma Exact.setSession (h : Exact s) (h1 : v.root = (s.sessions σ).root) (h2 : v.owner = (s.sessions σ).owner)
    (h3 : v.members = (s.sessions σ).members) (h4 : v.references = (s.sessions σ).references) :
    Exact (s.setSession σ v) := by
  refine h.congr (held_setSession_of_eq h1 h2) rfl (kept_setSession h3) ?_ rfl
  rw [sessionReferences_setSession, h4]
  exact update_eq_self σ s.sessionReferences

@[simp] lemma links_setMember : (s.setMember m r).links = { s.links with
    session := update s.links.session m r.session
    restore := update s.links.restore m r.restore
    live := update s.links.live m r.live
    cancelled := update s.links.cancelled m r.cancelled
    shell := update s.links.shell m r.shell
    command := update s.links.command m r.command
    foreground := update s.links.foreground m r.foregroundLaunch } := by
  ext x : 2 <;> first
    | rfl
    | (by_cases hx : x = m
       · subst hx
         simp [links, Console.setMember]
       · simp [links, Console.setMember, hx])

omit [DecidableEq ρ] in
@[simp] lemma links_setSession : (s.setSession σ v).links = { s.links with
    root := update s.links.root σ v.root
    owner := update s.links.owner σ v.owner
    closing := update s.links.closing σ v.closing } := by
  ext x : 2 <;> first
    | rfl
    | (by_cases hx : x = σ
       · subst hx
         simp [links, Console.setSession]
       · simp [links, Console.setSession, hx])

/-! ## Counters -/

@[simp] lemma links_retain : (s.retain m).links = s.links := by
  rw [retain, links_setMember]
  ext x : 2 <;> simp [links]

@[simp] lemma links_release : (s.release m).links = s.links := by
  change (s.setMember m { s.records m with references := (s.records m).references - 1 }).links = s.links
  rw [links_setMember]
  ext x : 2 <;> simp [links]

omit [DecidableEq ρ] in
@[simp] lemma links_retainSession : (s.retainSession σ).links = s.links := by
  rw [retainSession, links_setSession]
  ext x : 2 <;> simp [links]

omit [DecidableEq ρ] in
@[simp] lemma links_releaseSession : (s.releaseSession σ).links = s.links := by
  change (s.setSession σ { s.sessions σ with references := (s.sessions σ).references - 1 }).links = s.links
  rw [links_setSession]
  ext x : 2 <;> simp [links]

lemma held_retain : (s.retain m).held = s.held := by
  rw [retain, held_setMember]
  exact update_eq_self (Holder.restore m) s.held

lemma references_retain : (s.retain m).references = update s.references m (s.references m + 1) := references_setMember

lemma held_release : (s.release m).held = s.held := by
  change (s.setMember m { s.records m with references := (s.records m).references - 1 }).held = s.held
  rw [held_setMember]
  exact update_eq_self (Holder.restore m) s.held

lemma references_release : (s.release m).references = update s.references m (s.references m - 1) := by
  change (s.setMember m { s.records m with references := (s.records m).references - 1 }).references = _
  exact references_setMember

omit [DecidableEq ρ] in
lemma sessionReferences_retainSession :
    (s.retainSession σ).sessionReferences = update s.sessionReferences σ (s.sessionReferences σ + 1) :=
  sessionReferences_setSession

omit [DecidableEq ρ] in
lemma kept_retainSession : (s.retainSession σ).kept = s.kept := kept_setSession rfl

lemma held_retainSession : (s.retainSession σ).held = s.held := held_setSession_of_eq rfl rfl

omit [DecidableEq ρ] in
lemma sessionReferences_releaseSession :
    (s.releaseSession σ).sessionReferences = update s.sessionReferences σ (s.sessionReferences σ - 1) := by
  change (s.setSession σ { s.sessions σ with references := (s.sessions σ).references - 1 }).sessionReferences = _
  exact sessionReferences_setSession

omit [DecidableEq ρ] in
lemma kept_releaseSession : (s.releaseSession σ).kept = s.kept := by
  change (s.setSession σ { s.sessions σ with references := (s.sessions σ).references - 1 }).kept = s.kept
  exact kept_setSession rfl

lemma held_releaseSession : (s.releaseSession σ).held = s.held := by
  change (s.setSession σ { s.sessions σ with references := (s.sessions σ).references - 1 }).held = s.held
  exact held_setSession_of_eq rfl rfl

lemma Exact.let_go {t : Console ρ} {k : Holder ρ} (h : Exact s) (hk : s.held k = some m)
    (h1 : t.held = update s.held k none) (h2 : t.references = update s.references m (s.references m - 1))
    (h3 : t.kept = s.kept) (h4 : t.sessionReferences = s.sessionReferences)
    (h5 : t.underflowed = (s.underflowed || s.references m == 0)) : Exact t where
  members := by
    rw [h1, h2]
    exact h.members.drop hk
  sessions := by
    rw [h3, h4]
    exact h.sessions
  sound := by
    have := h.members.pos hk
    rw [h5, h.sound, Bool.false_or, beq_eq_false_iff_ne]
    omega

lemma Exact.take {t : Console ρ} {k : Holder ρ} (h : Exact s) (hk : s.held k = none)
    (h1 : t.held = update s.held k (some m)) (h2 : t.references = update s.references m (s.references m + 1))
    (h3 : t.kept = s.kept) (h4 : t.sessionReferences = s.sessionReferences) (h5 : t.underflowed = s.underflowed) :
    Exact t where
  members := by
    rw [h1, h2]
    exact h.members.point hk m
  sessions := by
    rw [h3, h4]
    exact h.sessions
  sound := h5.trans h.sound

omit [DecidableEq ρ] in
lemma Exact.let_session_go {t : Console ρ} {k : Option (Slot × Slot)} (h : Exact s) (hk : s.kept k = some σ)
    (h1 : t.held = s.held) (h2 : t.references = s.references) (h3 : t.kept = update s.kept k none)
    (h4 : t.sessionReferences = update s.sessionReferences σ (s.sessionReferences σ - 1))
    (h5 : t.underflowed = (s.underflowed || s.sessionReferences σ == 0)) : Exact t where
  members := by
    rw [h1, h2]
    exact h.members
  sessions := by
    rw [h3, h4]
    exact h.sessions.drop hk
  sound := by
    have := h.sessions.pos hk
    rw [h5, h.sound, Bool.false_or, beq_eq_false_iff_ne]
    omega

omit [DecidableEq ρ] in
lemma Exact.take_session {t : Console ρ} {k : Option (Slot × Slot)} (h : Exact s) (hk : s.kept k = none)
    (h1 : t.held = s.held) (h2 : t.references = s.references) (h3 : t.kept = update s.kept k (some σ))
    (h4 : t.sessionReferences = update s.sessionReferences σ (s.sessionReferences σ + 1))
    (h5 : t.underflowed = s.underflowed) : Exact t where
  members := by
    rw [h1, h2]
    exact h.members
  sessions := by
    rw [h3, h4]
    exact h.sessions.point hk σ
  sound := h5.trans h.sound

/-! ## Return links and owners -/

lemma links_setRestore {t : Option ρ} : (s.setMember m { s.records m with restore := t }).links =
    { s.links with restore := update s.links.restore m t } := by
  rw [links_setMember]
  ext x : 2 <;> simp [links]

lemma links_setCommand : (s.setMember m { s.records m with command := b }).links =
    { s.links with command := update s.links.command m b } := by
  rw [links_setMember]
  ext x : 2 <;> simp [links]

lemma links_setCancelled : (s.setMember m { s.records m with cancelled := b }).links =
    { s.links with cancelled := update s.links.cancelled m b } := by
  rw [links_setMember]
  ext x : 2 <;> simp [links]

lemma links_setShell : (s.setMember m { s.records m with shell := b }).links =
    { s.links with shell := update s.links.shell m b } := by
  rw [links_setMember]
  ext x : 2 <;> simp [links]

lemma links_setLive {c : Bool} : (s.setMember m { s.records m with live := b, command := c }).links =
    { s.links with live := update s.links.live m b, command := update s.links.command m c } := by
  rw [links_setMember]
  ext x : 2 <;> simp [links]

omit [DecidableEq ρ] in
lemma links_setClosing : (s.setSession σ { s.sessions σ with closing := b }).links =
    { s.links with closing := update s.links.closing σ b } := by
  rw [links_setSession]
  ext x : 2 <;> simp [links]

omit [DecidableEq ρ] in
lemma links_setRoot {next : Option ρ} : (s.setSession σ { s.sessions σ with root := next }).links =
    { s.links with root := update s.links.root σ next } := by
  rw [links_setSession]
  ext x : 2 <;> simp [links]

omit [DecidableEq ρ] in
lemma links_setSession_of_eq (h1 : v.root = (s.sessions σ).root) (h2 : v.owner = (s.sessions σ).owner)
    (h3 : v.closing = (s.sessions σ).closing) : (s.setSession σ v).links = s.links := by
  rw [links_setSession, h1, h2, h3]
  ext x : 2 <;> simp [links]

omit [DecidableEq ρ] in
lemma links_setOwner {next : Option ρ} : (s.setSession σ { s.sessions σ with owner := next }).links =
    { s.links with owner := update s.links.owner σ next } := by
  rw [links_setSession]
  ext x : 2 <;> simp [links]

lemma links_releaseReturn :
    (s.releaseReturn m).links = { s.links with restore := update s.links.restore m none } := by
  unfold releaseReturn
  rcases (s.records m).restore with - | t
  · exact links_setRestore
  · simp only [links_setRestore, links_release]

lemma links_owner {next : Option ρ} :
    (s.owner σ next).links = { s.links with owner := update s.links.owner σ next } := by
  unfold Console.owner
  rcases (s.sessions σ).owner with - | old <;> cases next <;>
    simp only [links_setOwner, links_release, links_retain]

lemma held_setRestore {t : Option ρ} :
    (s.setMember m { s.records m with restore := t }).held = update s.held (.restore m) t := held_setMember

lemma references_setRestore {t : Option ρ} :
    (s.setMember m { s.records m with restore := t }).references = s.references := by
  rw [references_setMember]
  exact update_eq_self m s.references

lemma held_setOwner {next : Option ρ} :
    (s.setSession σ { s.sessions σ with owner := next }).held = update s.held (.owner σ) next := by
  rw [held_setSession, update_held_root]

lemma held_setRoot {next : Option ρ} :
    (s.setSession σ { s.sessions σ with root := next }).held = update s.held (.root σ) next := by
  rw [held_setSession, update_comm (by simp)]
  have e : update s.held (.owner σ) (s.sessions σ).owner = s.held := update_eq_self (Holder.owner σ) s.held
  rw [e]

omit [DecidableEq ρ] in
lemma sessionReferences_setSession_of_eq (h : v.references = (s.sessions σ).references) :
    (s.setSession σ v).sessionReferences = s.sessionReferences := by
  rw [sessionReferences_setSession, h]
  exact update_eq_self σ s.sessionReferences

lemma Exact.releaseReturn (h : Exact s) (m : ρ) : Exact (s.releaseReturn m) := by
  unfold Console.releaseReturn
  rcases hr : (s.records m).restore with - | t
  · exact h.setMember hr.symm rfl
  · refine h.let_go (k := .restore m) (m := t) hr ?_ ?_ rfl rfl rfl
    · rw [held_setRestore, held_release]
    · rw [references_setRestore, references_release]

lemma Exact.setRestore (h : Exact s) (hr : (s.records m).restore = none) (p : ρ) :
    Exact ((s.setMember m { s.records m with restore := some p }).retain p) := by
  refine h.take (k := .restore m) (m := p) hr ?_ ?_ rfl rfl rfl
  · rw [held_retain, held_setRestore]
  · rw [references_retain, references_setRestore]

lemma Exact.setOwner (h : Exact s) (ho : (s.sessions σ).owner = none) (m : ρ) :
    Exact ((s.setSession σ { s.sessions σ with owner := some m }).retain m) := by
  refine h.take (k := .owner σ) (m := m) ho ?_ ?_ ?_ ?_ rfl
  · rw [held_retain, held_setOwner]
  · rw [references_retain, references_setSession]
  · rw [retain, kept_setMember, kept_setSession (by rfl)]
  · rw [retain, sessionReferences_setMember, sessionReferences_setSession_of_eq (by rfl)]

lemma Exact.clearOwner (h : Exact s) (ho : (s.sessions σ).owner = some m) :
    Exact ((s.release m).setSession σ { (s.release m).sessions σ with owner := none }) := by
  refine h.let_go (k := .owner σ) ho ?_ ?_ ?_ ?_ rfl
  · rw [held_setOwner, held_release]
  · rw [references_setSession, references_release]
  · rw [kept_setSession (by rfl)]
    rfl
  · rw [sessionReferences_setSession_of_eq (by rfl)]
    rfl

lemma Exact.owner (h : Exact s) (σ : Slot) (next : Option ρ) : Exact (s.owner σ next) := by
  unfold Console.owner
  rcases ho : (s.sessions σ).owner with - | old
  · cases next with
    | none => exact h.setSession rfl ho.symm rfl rfl
    | some new => exact h.setOwner ho new
  · have hc := h.clearOwner ho
    cases next with
    | none => exact hc
    | some new =>
      have hs := hc.setOwner (σ := σ) (by simp [Console.setSession]) new
      simpa [Console.setSession, Console.retain, Console.setMember] using hs

/-! ## Roots, entries and the active session -/

lemma Exact.setRoot (h : Exact s) (hr : (s.sessions σ).root = none) (m : ρ) :
    Exact ((s.setSession σ { s.sessions σ with root := some m }).retain m) := by
  refine h.take (k := .root σ) (m := m) hr ?_ ?_ ?_ ?_ rfl
  · rw [held_retain, held_setRoot]
  · rw [references_retain, references_setSession]
  · rw [retain, kept_setMember, kept_setSession (by rfl)]
  · rw [retain, sessionReferences_setMember, sessionReferences_setSession_of_eq (by rfl)]

lemma Exact.clearRoot (h : Exact s) (hr : (s.sessions σ).root = some m) :
    Exact ((s.release m).setSession σ { (s.release m).sessions σ with root := none }) := by
  refine h.let_go (k := .root σ) hr ?_ ?_ ?_ ?_ rfl
  · rw [held_setRoot, held_release]
  · rw [references_setSession, references_release]
  · rw [kept_setSession (by rfl)]
    rfl
  · rw [sessionReferences_setSession_of_eq (by rfl)]
    rfl

omit [DecidableEq ρ] in
lemma kept_setActive {a : Option Slot} : kept { s with active := a } = update s.kept none a := by
  funext k
  cases k with
  | none => rfl
  | some k => rfl

lemma Exact.activate (h : Exact s) (ha : s.active = none) : Exact ({ s with active := some σ }.retainSession σ) := by
  refine h.take_session (k := none) (σ := σ) ha ?_ rfl ?_ ?_ rfl
  · rw [held_retainSession]
    rfl
  · rw [kept_retainSession, kept_setActive]
  · rw [sessionReferences_retainSession]
    rfl

lemma Exact.deactivate (h : Exact s) (ha : s.active = some σ) : Exact ({ s with active := none }.releaseSession σ) := by
  refine h.let_session_go (k := none) ha ?_ rfl ?_ ?_ rfl
  · rw [held_releaseSession]
    rfl
  · rw [kept_releaseSession, kept_setActive]
  · rw [sessionReferences_releaseSession]
    rfl

omit [DecidableEq ρ] in
lemma kept_setEntry {e : Option ρ} :
    (s.setSession σ { s.sessions σ with members := update (s.sessions σ).members i e }).kept =
      update s.kept (some (σ, i)) (if e.isSome then some σ else none) := by
  funext k
  cases k with
  | none => rfl
  | some k =>
    obtain ⟨τ, j⟩ := k
    by_cases hτ : τ = σ
    · subst hτ
      by_cases hj : j = i
      · subst hj
        simp [kept, setSession]
      · simp [kept, setSession, hj]
    · simp [kept, setSession, hτ]

lemma held_setEntries {e : Slot → Option ρ} : (s.setSession σ { s.sessions σ with members := e }).held = s.held :=
  held_setSession_of_eq rfl rfl

lemma Exact.enroll (h : Exact s) (he : (s.sessions σ).members i = none) (m : ρ) :
    Exact ((s.setSession σ
      { s.sessions σ with members := update (s.sessions σ).members i (some m) }).retainSession σ) := by
  refine h.take_session (k := some (σ, i)) (σ := σ) (by simp [kept, he]) ?_ rfl ?_ ?_ rfl
  · rw [held_retainSession, held_setEntries]
  · rw [kept_retainSession, kept_setEntry]
    rfl
  · rw [sessionReferences_retainSession, sessionReferences_setSession_of_eq (by rfl)]

lemma Exact.strike (h : Exact s) (he : (s.sessions σ).members i = some m) :
    Exact ((s.setSession σ
      { s.sessions σ with members := update (s.sessions σ).members i none }).releaseSession σ) := by
  refine h.let_session_go (k := some (σ, i)) (σ := σ) (by simp [kept, he]) ?_ rfl ?_ ?_ ?_
  · rw [held_releaseSession, held_setEntries]
  · rw [kept_releaseSession, kept_setEntry]
    rfl
  · rw [sessionReferences_releaseSession, sessionReferences_setSession_of_eq (by rfl)]
  · have := sessionReferences_setSession_of_eq (s := s) (σ := σ)
      (v := { s.sessions σ with members := update (s.sessions σ).members i none }) rfl
    rw [← this]
    rfl

end Console

end RumKernel.Process
