import RumKernel.Fs.Namespace

/-!
# Parsing and walking agree

`fs_path_parse` folds the components of a path into a canonical text, `resolve` walks them over the nodes of the
backend. Over a backend that answers lookups the same way during the call the two stay in lockstep: the canonical text
leads to the node the walk ended at, through the same nodes.
-/

namespace RumKernel.Fs
open Lib Prog

variable {e : FsError} {input : List Byte} {references : Nat → Reference} {access i token : Nat} {node : FsNode}

/-- A backend that, in the states `stable`, answers every lookup and the `stat` of its root in a fixed way. -/
structure FixedBackend (σ : Type) extends Backend σ where
  stable : σ → Prop
  look : Nat → Name → Except FsError FsNode
  top : Except FsError FsNode
  lookup_run : ∀ parent name s, stable s →
    ((lookup parent name).run s).1 = look parent name ∧ stable ((lookup parent name).run s).2
  stat_run : ∀ s, stable s → ((stat root).run s).1 = top ∧ stable ((stat root).run s).2

/-- One component of a walk, by the answers `look`. -/
inductive Steps (look : Nat → Name → Except FsError FsNode) : Location → Name → Location → Prop where
  | dot {l} : l.node.kind = .directory → Steps look l [dotByte] l
  | up {l} : l.node.kind = .directory → Steps look l [dotByte, dotByte] { l with below := l.below.dropLast }
  | down {l name node} : l.node.kind = .directory → name ≠ [dotByte] → name ≠ [dotByte, dotByte] →
    l.below.length ≠ pathDepth → look l.node.id name = .ok node → validNode node = true →
    Steps look l name { l with below := l.below ++ [node] }

inductive Walks (look : Nat → Name → Except FsError FsNode) : Location → List Name → Location → Prop where
  | nil {l} : Walks look l [] l
  | cons {l m l' name names} : Steps look l name m → Walks look m names l' → Walks look l (name :: names) l'

section walks
variable {look : Nat → Name → Except FsError FsNode} {l l' m r : Location} {name : Name} {names rest path : List Name}

lemma Steps.directory (h : Steps look l name m) : l.node.kind = .directory := by
  cases h <;> assumption

lemma Steps.looked (h : Steps look l name m) (h1 : name ≠ [dotByte]) (h2 : name ≠ [dotByte, dotByte]) :
    ∃ node, look l.node.id name = .ok node ∧ m = { l with below := l.below ++ [node] } := by
  cases h with
  | dot => exact absurd rfl h1
  | up => exact absurd rfl h2
  | down _ _ _ _ hn => exact ⟨_, hn, rfl⟩

namespace Walks

lemma append (h : Walks look l names m) (h' : Walks look m rest l') : Walks look l (names ++ rest) l' := by
  induction h with
  | nil => exact h'
  | cons hs _ ih => exact .cons hs (ih h')

lemma of_append (h : Walks look l (names ++ rest) l') : ∃ m, Walks look l names m ∧ Walks look m rest l' := by
  induction names generalizing l with
  | nil => exact ⟨l, .nil, h⟩
  | cons name names ih =>
    cases h with
    | cons hs hw =>
      obtain ⟨m, h1, h2⟩ := ih hw
      exact ⟨m, .cons hs h1, h2⟩

lemma snoc (h : Walks look l names m) (hs : Steps look m name l') : Walks look l (names ++ [name]) l' :=
  h.append (.cons hs .nil)

lemma of_snoc (h : Walks look l (names ++ [name]) l') : ∃ m, Walks look l names m ∧ Steps look m name l' := by
  obtain ⟨m, h1, h2⟩ := h.of_append
  cases h2 with
  | cons hs hw =>
    cases hw
    exact ⟨m, h1, hs⟩

end Walks

/-- The walk along a path of checked names from the root. -/
structure Tracks (look : Nat → Name → Except FsError FsNode) (r : Location) (path : List Name) (l : Location) :
    Prop where
  names : ∀ name ∈ path, fsNameCheck name = .ok ()
  walks : Walks look r path l

namespace Tracks

section
variable (h : Tracks look r path l) (hr : r.below = [])
include h hr

lemma length : l.below.length = path.length := by
  obtain ⟨hn, hw⟩ := h
  induction path using List.reverseRecOn generalizing l with
  | nil =>
    cases hw
    simp [hr]
  | append_singleton path name ih =>
    obtain ⟨m, h1, h2⟩ := hw.of_snoc
    obtain ⟨hd, hdd⟩ := not_dots_of_check (hn name (by simp))
    obtain ⟨node, -, rfl⟩ := h2.looked hd hdd
    have := ih (fun n hm => hn n (by simp [hm])) h1
    simp [this]

/-- **Lockstep.** A component that the walk takes changes the canonical path as `apply` does. -/
lemma step (hs : Steps look l name m) (hc : Component name)
    (hu : name.map upper = name) : Tracks look r (walkName path name) m := by
  unfold walkName
  cases hs with
  | dot => exact ⟨by simpa using h.names, by simpa using h.walks⟩
  | up =>
    rw [if_neg (by decide), if_pos rfl]
    refine ⟨fun n hn => h.names n (List.dropLast_subset _ hn), ?_⟩
    rcases List.eq_nil_or_concat path with rfl | ⟨init, last, rfl⟩
    · -- at the root both stay where they are
      have hl : ({ l with below := l.below.dropLast } : Location) = r := by
        cases h.walks
        cases l
        simp_all
      rw [hl]
      exact .nil
    · rw [List.concat_eq_append] at h ⊢
      obtain ⟨k, h1, h2⟩ := h.walks.of_snoc
      obtain ⟨hd, hdd⟩ := not_dots_of_check (h.names last (by simp))
      obtain ⟨node, -, rfl⟩ := h2.looked hd hdd
      rw [List.dropLast_concat]
      simpa using h1
  | down hk hd hdd hlen hn hv =>
    rw [if_neg hd, if_neg hdd, hu]
    have hcheck : fsNameCheck name = .ok () := by
      rcases hc with hc | hc | hc
      · exact absurd hc hd
      · exact absurd hc hdd
      · exact hc
    refine ⟨fun n hm => ?_, h.walks.snoc (.down hk hd hdd hlen hn hv)⟩
    rcases List.mem_append.mp hm with hm | hm
    · exact h.names n hm
    · rw [List.mem_singleton.mp hm]
      exact hcheck

lemma walk (hw : Walks look l names m) (hc : ∀ name ∈ names, Component name ∧ name.map upper = name) :
    Tracks look r (names.foldl walkName path) m := by
  induction hw generalizing path with
  | nil => exact h
  | cons hs _ ih =>
    obtain ⟨⟨h1, h2⟩, hrest⟩ := List.forall_mem_cons.mp hc
    exact ih (h.step hr hs h1 h2) hrest

end

end Tracks

end walks

/-! ## The walk of the code -/

section runs
variable {σ : Type} {b : FixedBackend σ} {s s' : Namespace σ} {l m : Location} {name : Name} {names : List Name}
  {context : Option Context} {plan : FsPath} {count : Nat}

/-- Only the backend's state has changed, and its answers are still the same. -/
structure FixedBackend.Same (b : FixedBackend σ) (s s' : Namespace σ) : Prop where
  eq : s' = { s with volume := s'.volume }
  stable : b.stable s'.volume

lemma FixedBackend.Same.refl (h : b.stable s.volume) : b.Same s s := ⟨rfl, h⟩

lemma FixedBackend.Same.trans {s'' : Namespace σ} (h : b.Same s s') (h' : b.Same s' s'') : b.Same s s'' :=
  ⟨by rw [h'.eq, h.eq], h'.stable⟩

/-- From `s` the program gives the values that satisfy `P`, and an error when there is none; it changes nothing but
the backend's state. -/
structure FixedBackend.Gives {α : Type} (b : FixedBackend σ) (s : Namespace σ) (p : NsM σ α) (P : α → Prop) : Prop where
  same : b.Same s (p.run s).2
  iff : ∀ a, (p.run s).1 = .ok a ↔ P a

namespace FixedBackend.Gives

variable {α β : Type} {p : NsM σ α} {P P' : α → Prop} {f : α → NsM σ β} {Q : α → β → Prop}

lemma conseq (h : b.Gives s p P) (hP : ∀ a, P a ↔ P' a) : b.Gives s p P' :=
  ⟨h.same, fun a => (h.iff a).trans (hP a)⟩

lemma pure {a : α} (hs : b.stable s.volume) : b.Gives s (Pure.pure a : NsM σ α) fun c => c = a :=
  ⟨.refl hs, fun c => by simp [eq_comm]⟩

lemma fail (hs : b.stable s.volume) (hP : ∀ a, ¬P a) : b.Gives s (Prog.fail e : NsM σ α) P :=
  ⟨.refl hs, fun a => ⟨fun h => (by cases h), fun h => absurd h (hP a)⟩⟩

lemma bind (hp : b.Gives s p P) (hf : ∀ a s', P a → b.Same s s' → b.Gives s' (f a) (Q a)) :
    b.Gives s (p >>= f) fun c => ∃ a, P a ∧ Q a c := by
  rcases hr : p.run s with ⟨r, s1⟩
  have hsame := hp.same
  rw [hr] at hsame
  cases r with
  | error e =>
    refine ⟨by rw [bind_run_error hr]; exact hsame, fun c => ?_⟩
    rw [bind_run_error hr]
    refine ⟨fun h => (by cases h), fun ⟨a, ha, _⟩ => ?_⟩
    have := (hp.iff a).mpr ha
    rw [hr] at this
    cases this
  | ok a =>
    have ha : P a := (hp.iff a).mp (by rw [hr])
    have hg := hf a s1 ha hsame
    refine ⟨?_, fun c => ?_⟩
    · rw [bind_run_ok hr]
      exact hsame.trans hg.same
    · rw [bind_run_ok hr, hg.iff c]
      refine ⟨fun h => ⟨a, ha, h⟩, fun ⟨a', ha', h⟩ => ?_⟩
      have := (hp.iff a').mpr ha'
      rw [hr] at this
      cases this
      exact h

lemma guard {γ : Type} {c : Prop} [Decidable c] {k : γ → NsM σ α} (hs : b.stable s.volume)
    (hp : ¬c → b.Gives s p P) (hc : c → ∀ a, ¬P a) : b.Gives s (if c then Prog.fail e >>= k else p) P := by
  split
  · exact ⟨.refl hs, fun a => ⟨fun h => (by cases h), fun h => absurd h (hc ‹_› a)⟩⟩
  · exact hp ‹_›

lemma get_bind {k : Namespace σ → NsM σ α} (h : b.Gives s (k s) P) : b.Gives s (Prog.get >>= k) P :=
  ⟨h.same, h.iff⟩

lemma backend {q : Prog σ FsError α} {r : Except FsError α}
    (h : (q.run s.volume).1 = r ∧ b.stable (q.run s.volume).2) : b.Gives s (Fs.backend q) fun a => r = .ok a :=
  ⟨⟨rfl, h.2⟩, fun a => by rw [← h.1]; rfl⟩

end FixedBackend.Gives

open FixedBackend

lemma step_gives (hs : b.stable s.volume) : b.Gives s (step b.toBackend l name) (Steps b.look l name) := by
  unfold step
  refine .guard hs (fun hk => ?_) fun hk m h => hk h.directory
  have hk : l.node.kind = .directory := by simpa using hk
  split
  · rename_i hd
    subst hd
    refine (Gives.pure hs).conseq fun m => ⟨?_, fun h => ?_⟩
    · rintro rfl
      exact .dot hk
    · cases h with
      | dot => rfl
      | down _ h1 => exact absurd rfl h1
  rename_i hd
  split
  · rename_i hdd
    subst hdd
    refine (Gives.pure hs).conseq fun m => ⟨?_, fun h => ?_⟩
    · rintro rfl
      exact .up hk
    · cases h with
      | up => rfl
      | down _ _ h2 => exact absurd rfl h2
  rename_i hdd
  -- what remains is the lookup
  have hdown : ∀ m, Steps b.look l name m ↔ l.below.length ≠ pathDepth ∧
      ∃ node, b.look l.node.id name = .ok node ∧ validNode node = true ∧ m = { l with below := l.below ++ [node] } := by
    refine fun m => ⟨fun h => ?_, fun ⟨hlen, node, hn, hv, hm⟩ => hm ▸ .down hk hd hdd hlen hn hv⟩
    cases h with
    | dot => exact absurd rfl hd
    | up => exact absurd rfl hdd
    | down _ _ _ hlen hn hv => exact ⟨hlen, _, hn, hv, rfl⟩
  refine .guard hs (fun hlen => ?_) fun hlen m h => ((hdown m).mp h).1 hlen
  refine ((Gives.backend (b.lookup_run l.node.id name s.volume hs)).bind (Q := fun node m =>
    validNode node = true ∧ m = { l with below := l.below ++ [node] }) fun node s' _ hsame => ?_).conseq fun m => ?_
  · refine .guard hsame.stable (fun hv => ?_) fun hv m h => by simp [h.1] at hv
    refine (Gives.pure hsame.stable).conseq fun m => ⟨fun h => ⟨by simpa using hv, h⟩, fun h => h.2⟩
  · rw [hdown]
    exact ⟨fun h => ⟨hlen, h⟩, fun h => h.2⟩

lemma walk_gives (hs : b.stable s.volume) : b.Gives s (walk b.toBackend l names) (Walks b.look l names) := by
  induction names generalizing l s with
  | nil =>
    refine (Gives.pure hs).conseq fun m => ⟨?_, fun h => ?_⟩
    · rintro rfl
      exact .nil
    · cases h
      rfl
  | cons name names ih =>
    refine ((step_gives hs).bind fun m s' _ hsame => ih hsame.stable).conseq fun m => ⟨?_, fun h => ?_⟩
    · rintro ⟨k, h1, h2⟩
      exact .cons h1 h2
    · cases h with
      | cons h1 h2 => exact ⟨_, h1, h2⟩

/-- The location a walk from the root begins at. -/
structure FixedBackend.Root (b : FixedBackend σ) (r : Location) : Prop where
  top : b.top = .ok r.base
  below : r.below = []
  valid : validNode r.base = true
  id : r.base.id = b.root
  kind : r.base.kind = .directory

lemma rootLocation_gives (hs : b.stable s.volume) :
    b.Gives s (rootLocation b.toBackend) fun r => s.mounted = true ∧ b.Root r := by
  refine .get_bind (.guard hs (fun hm => ?_) fun hm r h => by simp [h.1] at hm)
  refine ((Gives.backend (b.stat_run s.volume hs)).bind (Q := fun node r => (validNode node = true ∧
    node.id = b.root ∧ node.kind = .directory) ∧ r = { base := node, below := [] }) fun node s' _ hsame => ?_).conseq
    fun r => ⟨?_, fun h => ?_⟩
  · refine .guard hsame.stable (fun hv => ?_) fun hv m h => by simp [h.1.1, h.1.2.1, h.1.2.2] at hv
    refine (Gives.pure hsame.stable).conseq fun m => ⟨fun h => ⟨?_, h⟩, fun h => h.2⟩
    simpa [not_or] using hv
  · rintro ⟨node, htop, ⟨h1, h2, h3⟩, rfl⟩
    exact ⟨by simpa using hm, htop, rfl, h1, h2, h3⟩
  · obtain ⟨base, below⟩ := r
    obtain ⟨-, htop, hbelow, h1, h2, h3⟩ := h
    exact ⟨base, htop, ⟨h1, h2, h3⟩, by rw [show below = [] from hbelow]⟩

def pinnedObject (s : Namespace σ) (c : Context) : Option Object :=
  (findReference s.references c.directory).map fun r => s.objects (s.references r).object

lemma contextObject_gives {c : Context} (hs : b.stable s.volume) : b.Gives s (contextObject c) fun object =>
    pinnedObject s c = some object ∧ object.kind = .directory := by
  refine .get_bind ?_
  unfold pinnedObject
  cases findReference s.references c.directory with
  | none => exact .fail hs (by simp)
  | some r =>
    refine .guard hs (fun hk => ?_) fun hk o h => ?_
    · refine (Gives.pure hs).conseq fun o => ⟨?_, fun h => ?_⟩
      · rintro rfl
        exact ⟨rfl, by simpa using hk⟩
      · simpa [eq_comm] using h.1
    · obtain ⟨h1, h2⟩ := h
      cases h1
      exact hk h2

/-- Where the walk along the input begins: at the root, or at the directory a context has pinned. -/
def FixedBackend.Begins (b : FixedBackend σ) (plan : FsPath) (cwd : Option Object) (r k : Location) : Prop :=
  match cwd with
  | none => k = r
  | some object => if plan.input.absolute then k = r else Walks b.look r plan.base.names k ∧ object.id = k.node.id

/-- The object `resolve` starts with: none without a context. -/
def FixedBackend.Cwd (s : Namespace σ) (context : Option Context) (cwd : Option Object) : Prop :=
  match context with
  | none => cwd = none
  | some c => ∃ object, cwd = some object ∧ pinnedObject s c = some object ∧ object.kind = .directory

/-- The walks of `resolve` once the context's object is known. -/
def resolveFrom (b : Backend σ) (plan : FsPath) (count : Nat) (cwd : Option Object) : NsM σ Location := do
  let l ← rootLocation b
  let l ← match cwd with
    | none => pure l
    | some object => if plan.input.absolute then pure l else walkBase b object plan l
  let l ← walk b l (plan.input.names.take count)
  if count = plan.input.names.length ∧ plan.input.directory ∧ l.node.kind ≠ .directory then fail .notDirectory
  return l

lemma FixedBackend.Same.mounted (h : b.Same s s') : s'.mounted = s.mounted := by rw [h.eq]

section
variable (hs : b.stable s.volume)
include hs

lemma resolve_tail {check directory : Prop} [Decidable check] [Decidable directory] :
    b.Gives s (do
      let m ← walk b.toBackend l names
      if check ∧ directory ∧ m.node.kind ≠ .directory then fail .notDirectory
      return m) fun m => Walks b.look l names m ∧ (check → directory → m.node.kind = .directory) := by
  refine ((walk_gives hs).bind (Q := fun k m => m = k ∧ (check → directory → k.node.kind = .directory))
    fun k s' _ hsame => ?_).conseq fun m => ⟨?_, fun h => ⟨m, h.1, rfl, h.2⟩⟩
  · refine .guard hsame.stable (fun hv => ?_) fun hv m h => hv.2.2 (h.2 hv.1 hv.2.1)
    exact (Gives.pure hsame.stable).conseq fun m =>
      ⟨fun h => ⟨h, fun h1 h2 => by_contra fun h3 => hv ⟨h1, h2, h3⟩⟩, fun h => h.1⟩
  · rintro ⟨k, hw, rfl, hk⟩
    exact ⟨hw, hk⟩

lemma walkBase_gives {object : Object} {r : Location} : b.Gives s (walkBase b.toBackend object plan r) fun k =>
      Walks b.look r plan.base.names k ∧ object.id = k.node.id := by
  refine ((walk_gives hs).bind (Q := fun k m => m = k ∧ object.id = k.node.id) fun k s' _ hsame => ?_).conseq
    fun m => ⟨?_, fun h => ⟨m, h.1, rfl, h.2⟩⟩
  · refine .guard hsame.stable (fun hv => ?_) fun hv m h => hv h.2
    exact (Gives.pure hsame.stable).conseq fun m => ⟨fun h => ⟨h, by simpa using hv⟩, fun h => h.1⟩
  · rintro ⟨k, hw, rfl, hk⟩
    exact ⟨hw, hk⟩

lemma resolveFrom_gives {cwd : Option Object} : b.Gives s (resolveFrom b.toBackend plan count cwd) fun m =>
      ∃ r, (s.mounted = true ∧ b.Root r) ∧ ∃ k, b.Begins plan cwd r k ∧
        Walks b.look k (plan.input.names.take count) m ∧
        (count = plan.input.names.length → plan.input.directory = true → m.node.kind = .directory) := by
  refine (rootLocation_gives hs).bind fun r s' _ hsame => ?_
  cases cwd with
  | none => exact (Gives.pure (a := r) hsame.stable).bind fun k s'' _ h => resolve_tail h.stable
  | some object =>
    simp only [FixedBackend.Begins]
    split
    · exact (Gives.pure (a := r) hsame.stable).bind fun k s'' _ h => resolve_tail h.stable
    · exact (walkBase_gives hsame.stable).bind fun k s'' _ h => resolve_tail h.stable

/-- **`resolve`** succeeds for the walks the backend's answers allow, and for no others. -/
lemma resolve_gives : b.Gives s (resolve b.toBackend context plan count) fun m =>
    ∃ cwd, FixedBackend.Cwd s context cwd ∧ ∃ r, (s.mounted = true ∧ b.Root r) ∧ ∃ k, b.Begins plan cwd r k ∧
      Walks b.look k (plan.input.names.take count) m ∧
      (count = plan.input.names.length → plan.input.directory = true → m.node.kind = .directory) := by
  have hrest : ∀ (cwd : Option Object) (s' : Namespace σ), FixedBackend.Cwd s context cwd → b.Same s s' →
      b.Gives s' (resolveFrom b.toBackend plan count cwd) fun m =>
        ∃ r, (s.mounted = true ∧ b.Root r) ∧ ∃ k, b.Begins plan cwd r k ∧
          Walks b.look k (plan.input.names.take count) m ∧
          (count = plan.input.names.length → plan.input.directory = true → m.node.kind = .directory) := by
    intro cwd s' _ hsame
    rw [← hsame.mounted]
    exact resolveFrom_gives hsame.stable
  cases context with
  | none => exact (Gives.pure (a := none) hs).bind hrest
  | some c =>
    refine ((contextObject_gives hs).bind fun o s' ho h => (Gives.pure (a := some o) h.stable).bind
      fun cwd s'' hc h' => hrest cwd s'' ⟨o, hc, ho⟩ (h.trans h')).conseq fun m => ?_
    exact ⟨fun ⟨o, ho, cwd, hc, h⟩ => ⟨cwd, ⟨o, hc, ho⟩, h⟩, fun ⟨cwd, ⟨o, hc, ho⟩, h⟩ => ⟨o, ho, cwd, hc, h⟩⟩

end

/-! ## Lockstep -/

/-- The context has the text of a canonical path; without a context the path is the root's. -/
def ContextPath (context : Option Context) (path : List Name) : Prop :=
  match context with
  | none => path = []
  | some c => c.directory ≠ 0 ∧ c.path = render path

lemma preflight_ok {path : List Name} (hp : ContextPath context path)
    (h : (preflight context input).run s = (.ok plan, s')) : fsPathParse (render path) input = .ok plan := by
  cases context with
  | none =>
    obtain rfl : path = [] := hp
    exact congrArg Prod.fst h
  | some c =>
    unfold preflight at h
    simp only [hp.1, if_false, hp.2] at h
    exact congrArg Prod.fst h

lemma fsPathParse_depth {base : List Byte} (h : fsPathParse base input = .ok plan) :
    plan.depth = plan.canonical.length := by
  unfold fsPathParse at h
  cases hb : collect base with
  | error e => simp [hb, bind, Except.bind] at h
  | ok t =>
    cases hi : collect input with
    | error e =>
      simp only [hb, hi, bind, Except.bind] at h
      split at h <;> cases h
    | ok u =>
      simp only [hb, hi, bind, Except.bind] at h
      split at h
      · cases h
      · cases h1 : applyNames [] t.names with
        | error e => simp [h1] at h
        | ok start =>
          simp only [h1] at h
          cases h2 : applyNames (if u.absolute = true then [] else start) u.names with
          | error e => simp [h2] at h
          | ok canonical =>
            simp only [h2, pure, Except.pure, Except.ok.injEq] at h
            subst h
            rfl

lemma resolve_tracks {path : List Name} (hs : b.stable s.volume) (hp : ContextPath context path)
    (hc : Canonical path) (hplan : fsPathParse (render path) input = .ok plan)
    (h : (resolve b.toBackend context plan plan.input.names.length).run s = (.ok l, s')) :
    ∃ r, b.Root r ∧ Tracks b.look r plan.canonical l := by
  obtain ⟨cwd, hcwd, r, ⟨-, hr⟩, k, hk, hw, -⟩ := ((resolve_gives hs).iff l).mp (congrArg Prod.fst h)
  rw [List.take_length] at hw
  obtain ⟨hbase, -, hfold, hcomp⟩ := fsPathParse_ok hc hplan
  refine ⟨r, hr, ?_⟩
  have hroot : Tracks b.look r [] r := ⟨by simp, .nil⟩
  have hstart : Tracks b.look r (if plan.input.absolute then [] else path) k := by
    cases context with
    | none =>
      obtain rfl : cwd = none := hcwd
      obtain rfl : k = r := hk
      obtain rfl : path = [] := hp
      simpa using hroot
    | some c =>
      obtain ⟨o, rfl, -⟩ := hcwd
      simp only [FixedBackend.Begins] at hk
      split at hk
      · obtain rfl := hk
        rw [if_pos ‹_›]
        exact hroot
      · rw [if_neg ‹_›]
        exact ⟨hc.checked, hbase ▸ hk.1⟩
  rw [hfold]
  exact hstart.walk hr.below hw hcomp

lemma fsPathParse_render {path : List Name} (hc : Canonical path) : ∃ plan,
    fsPathParse [slashByte] (render path) = .ok plan ∧
    plan.canonical = path ∧ plan.input = { names := path, absolute := true, directory := path = [] } := by
  have hroot : collect [slashByte] = .ok { names := [], absolute := true, directory := true } := rfl
  have hself : applyNames [] path = .ok path := (applyNames_self hc : applyNames [] path = .ok ([] ++ path))
  have hupper : path.map (fun name => name.map upper) = path :=
    (List.map_congr_left fun name hn => hc.upper name hn).trans (List.map_id' path)
  refine ⟨{ base := { names := [], absolute := true, directory := true }
            input := { names := path, absolute := true, directory := path = [] }
            canonical := path, depth := path.length }, ?_, rfl, rfl⟩
  unfold fsPathParse
  rw [hroot, collect_render hc]
  simp only [bind, Except.bind, Bool.not_true, Bool.false_eq_true, if_false, applyNames, hself, if_true, pure,
    Except.pure, Tokens.upper, hupper, List.map_nil]

lemma resolve_canonical {t : Namespace σ} {r : Location} {path : List Name} (hc : Canonical path) (hr : b.Root r)
    (ht : Tracks b.look r path l) (hs : b.stable t.volume) (hm : t.mounted = true) :
    ∃ plan t', fsPathParse [slashByte] (render path) = .ok plan ∧
      (resolve b.toBackend none plan plan.input.names.length).run t = (.ok l, t') := by
  obtain ⟨plan, hplan, -, hin⟩ := fsPathParse_render hc
  refine ⟨plan, _, hplan, Prod.ext (((resolve_gives hs).iff l).mpr ?_) rfl⟩
  refine ⟨none, rfl, r, ⟨hm, hr⟩, r, rfl, ?_, fun _ hdir => ?_⟩
  · rw [List.take_length, hin]
    exact ht.walks
  · -- only the root's text ends with a slash
    have hnil : path = [] := by simpa [hin] using hdir
    subst hnil
    cases ht.walks
    simp [Location.node, hr.below, hr.kind]

/-! ## Changing the directory of a context -/

lemma findReference_eq (h0 : token ≠ 0) (hi : i < referenceLimit)
    (ht : (references i).token = token) (hu : ∀ j, (references j).token = token → j = i) :
    findReference references token = some i := by
  unfold findReference
  rw [if_neg h0, List.find?_range_eq_some]
  refine ⟨by simpa using ht, by simpa using hi, fun j hj => ?_⟩
  simp only [Bool.not_eq_true', decide_eq_false_iff_not]
  exact fun h => absurd (hu j h) (by omega)

lemma findReference_congr {references' : Nat → Reference}
    (h : ∀ j, (references' j).token = token ↔ (references j).token = token) :
    findReference references' token = findReference references token := by
  unfold findReference
  simp only [h]

lemma findReference_token (h : findReference references token = some i) :
    token ≠ 0 ∧ i < referenceLimit ∧ (references i).token = token := by
  unfold findReference at h
  split at h
  · cases h
  · have hi := List.mem_of_find?_eq_some h
    have ht := List.find?_some h
    exact ⟨‹_›, by simpa using hi, by simpa using ht⟩

lemma newReference_ok {b : Backend σ} (h : (newReference b node access).run s = (.ok token, s')) :
    token = s.nextToken ∧ token ≠ 0 ∧ ∃ r o object, r < referenceLimit ∧ (s.references r).token = 0 ∧
      s'.references = setSlot s.references r { token, object := o, access } ∧
      s'.objects = setSlot s.objects o object ∧ object.id = node.id ∧ object.kind = node.kind ∧
      object.references = (s.objects o).references + 1 := by
  unfold newReference at h
  obtain ⟨-, h⟩ := guard_ok h
  obtain ⟨-, h⟩ := guard_ok h
  rw [bind_run_ok get_run] at h
  obtain ⟨hnz, h⟩ := guard_ok h
  split at h
  · cases h
  · cases h
  · rename_i r o hr ho
    obtain ⟨hk, h⟩ := guard_ok h
    cases h
    have hr1 := List.mem_of_find?_eq_some hr
    have hr2 := List.find?_some hr
    have ho2 := List.find?_some ho
    refine ⟨rfl, hnz, r, o, _, by simpa using hr1, by simpa using hr2, rfl, rfl, ?_, by simpa using hk, rfl⟩
    simp only [decide_eq_true_eq] at ho2
    exact ho2.2
  · rename_i r o hr ho hobj
    obtain ⟨_, s1, hretain, h⟩ := bind_ok h
    obtain rfl : { s with volume := ((b.retain node.id).run s.volume).2 } = s1 := congrArg Prod.snd hretain
    cases h
    have hr1 := List.mem_of_find?_eq_some hr
    have hr2 := List.find?_some hr
    have ho2 := List.find?_some hobj
    refine ⟨rfl, hnz, r, o, _, by simpa using hr1, by simpa using hr2, rfl, rfl, rfl, rfl, ?_⟩
    simp only [decide_eq_true_eq] at ho2
    simp [ho2]

lemma operation_ok {α : Type} {body : NsM σ α} {a : α} (h : (operation body).run s = (.ok a, s')) :
    ∃ s1, body.run { s with busy := true } = (.ok a, s1) ∧ s' = { s1 with busy := false } := by
  unfold operation at h
  obtain ⟨_, s0, henter, h⟩ := bind_ok h
  have hs0 : s0 = { s with busy := true } := by
    unfold enter at henter
    rw [bind_run_ok get_run] at henter
    obtain ⟨-, henter⟩ := guard_ok henter
    obtain ⟨-, henter⟩ := guard_ok henter
    cases henter
    rfl
  subst hs0
  obtain ⟨r, s1, hbody, h⟩ := bind_ok h
  obtain ⟨_, s2, hleave, h⟩ := bind_ok h
  cases hleave
  cases r with
  | error e => cases h
  | ok c =>
    cases h
    exact ⟨s1, attempt_ok hbody, rfl⟩

lemma closeReference_run {b : Backend σ} {r : Nat} (hr : findReference s.references token = some r) :
    ((closeReference b token).run s).2.references = setSlot s.references r {} ∧
      ∀ o, (o = (s.references r).object → 1 < (s.objects o).references) →
        (((closeReference b token).run s).2.objects o).id = (s.objects o).id ∧
          (((closeReference b token).run s).2.objects o).kind = (s.objects o).kind := by
  have htables : ((closeReference b token).run s).2.references = setSlot s.references r {} ∧
      ((closeReference b token).run s).2.objects = setSlot s.objects (s.references r).object
        (if (s.objects (s.references r).object).references = 1 then {}
          else { s.objects (s.references r).object with
            references := (s.objects (s.references r).object).references - 1 }) := by
    unfold closeReference
    rw [bind_run_ok get_run]
    simp only [hr]
    rw [bind_run_ok modify_run]
    split
    · exact ⟨rfl, rfl⟩
    · exact ⟨rfl, rfl⟩
  refine ⟨htables.1, fun o ho => ?_⟩
  rw [htables.2]
  unfold setSlot
  by_cases h : o = (s.references r).object
  · have := ho h
    subst h
    rw [if_pos rfl, if_neg (by omega)]
    exact ⟨rfl, rfl⟩
  · rw [if_neg h]
    exact ⟨rfl, rfl⟩

/-- The context has pinned an object, and the next token is not in use. -/
structure Pinned (s : Namespace σ) (c : Context) : Prop where
  object : ∃ r, findReference s.references c.directory = some r ∧ (s.objects (s.references r).object).references ≠ 0
  fresh : s.nextToken ≠ 0 → ∀ i, (s.references i).token ≠ s.nextToken

lemma pinned_after {b : Backend σ} {c : Context} (text : List Byte)
    (hp : Pinned s c) (h : (newReference b node access).run s = (.ok token, s')) :
    ∃ object, pinnedObject ((closeReference b c.directory).run s').2 ⟨token, text⟩ = some object ∧
      object.id = node.id ∧ object.kind = node.kind := by
  obtain ⟨rfl, hnz, r, o, object, hr, hfree, hrefs, hobjs, hid, hkind, hcount⟩ := newReference_ok h
  obtain ⟨r0, hr0, hheld⟩ := hp.object
  obtain ⟨h0, -, ht0⟩ := findReference_token hr0
  have hne : r0 ≠ r := by
    rintro rfl
    exact h0 (ht0.symm.trans hfree)
  have hold : c.directory ≠ s.nextToken := ht0 ▸ hp.fresh hnz r0
  -- the old token is found where it was
  have hr₁ : findReference s'.references c.directory = some r0 := by
    rw [← hr0, hrefs]
    refine findReference_congr fun j => ?_
    unfold setSlot
    by_cases hj : j = r
    · subst hj
      simp only [if_true, hfree]
      exact ⟨fun e => absurd e.symm hold, fun e => absurd e.symm h0⟩
    · rw [if_neg hj]
  have hr0' : s'.references r0 = s.references r0 := by rw [hrefs, setSlot, if_neg hne]
  obtain ⟨hrefs', hobjs'⟩ := closeReference_run (b := b) hr₁
  have hfound : findReference ((closeReference b c.directory).run s').2.references s.nextToken = some r := by
    rw [hrefs', hrefs]
    refine findReference_eq hnz hr ?_ fun j hj => ?_
    · simp [setSlot, hne.symm]
    · by_contra hjr
      unfold setSlot at hj
      split at hj
      · exact hnz hj.symm
      · exact hp.fresh hnz j (by simpa [hjr] using hj)
  have hslot : (((closeReference b c.directory).run s').2.references r).object = o := by
    rw [hrefs', hrefs]
    simp [setSlot, hne.symm]
  refine ⟨((closeReference b c.directory).run s').2.objects o, ?_, ?_⟩
  · simp [pinnedObject, hfound, hslot]
  · have hat : s'.objects o = object := by rw [hobjs, setSlot, if_pos rfl]
    obtain ⟨e1, e2⟩ := hobjs' o fun e => by
      rw [hr0'] at e
      rw [hat, hcount, e]
      omega
    rw [e1, e2, hat]
    exact ⟨hid, hkind⟩

/-- The components `resolve` walks from the root. -/
def walked (context : Option Context) (plan : FsPath) (count : Nat) : List Name :=
  (if context.isSome ∧ plan.input.absolute = false then plan.base.names else []) ++ plan.input.names.take count

lemma resolve_walked (hs : b.stable s.volume) (h : (resolve b.toBackend context plan count).run s = (.ok l, s')) :
    ∃ r, b.Root r ∧ Walks b.look r (walked context plan count) l := by
  obtain ⟨cwd, hcwd, r, ⟨-, hr⟩, k, hk, hw, -⟩ := ((resolve_gives hs).iff l).mp (congrArg Prod.fst h)
  refine ⟨r, hr, ?_⟩
  unfold walked
  cases context with
  | none =>
    obtain rfl : cwd = none := hcwd
    obtain rfl : k = r := hk
    simpa using hw
  | some c =>
    obtain ⟨o, rfl, -⟩ := hcwd
    simp only [FixedBackend.Begins] at hk
    split at hk
    · rename_i habs
      obtain rfl := hk
      simpa [habs] using hw
    · rename_i habs
      have habs : plan.input.absolute = false := by simpa using habs
      simpa [habs] using hk.1.append hw

lemma contextChdir_ok {c c' : Context} {path : List Name} (hs : b.stable s.volume)
    (hpath : c.path = render path) (hc : Canonical path) (hp : Pinned s c)
    (h : (contextChdir b.toBackend c input).run s = (.ok c', s')) :
    ∃ (plan : FsPath) (l : Location) (object : Object) (r : Location), c'.path = render plan.canonical ∧
      Canonical plan.canonical ∧ b.Root r ∧ Tracks b.look r plan.canonical l ∧ l.node.kind = .directory ∧
        pinnedObject s' c' = some object ∧
      object.id = l.node.id ∧ object.kind = .directory := by
  obtain ⟨r0, hr0, -⟩ := hp.object
  have hctx : ContextPath (some c) path := ⟨(findReference_token hr0).1, hpath⟩
  unfold contextChdir at h
  obtain ⟨plan, s1, hpre, hop⟩ := bind_ok h
  have hs1 : s1 = s := by
    unfold preflight at hpre
    simp only [hctx.1, if_false] at hpre
    exact (congrArg Prod.snd hpre).symm
  subst hs1
  have hplan := preflight_ok hctx hpre
  obtain ⟨s2, hbody, rfl⟩ := operation_ok hop
  obtain ⟨l, s3, hres, hbody⟩ := bind_ok hbody
  obtain ⟨hk, hbody⟩ := guard_ok hbody
  obtain ⟨token, s4, hnew, hbody⟩ := bind_ok hbody
  obtain ⟨_, s5, hclose, hbody⟩ := bind_ok hbody
  cases hbody
  obtain ⟨r, hr, ht⟩ := resolve_tracks (s := { s1 with busy := true }) hs hctx hc hplan hres
  have hgives : b.Gives { s1 with busy := true } (resolve b.toBackend (some c) plan plan.input.names.length) _ :=
    resolve_gives hs
  have hsame := hgives.same
  rw [hres] at hsame
  have hp3 : Pinned s3 c := by
    rw [show s3 = { s1 with busy := true, volume := s3.volume } from hsame.eq]
    exact ⟨hp.object, hp.fresh⟩
  have hk : l.node.kind = .directory := by simpa using hk
  obtain ⟨object, ho, hid, hkind⟩ := pinned_after (b := b.toBackend) (render plan.canonical) hp3 hnew
  have hs5 : ((closeReference b.toBackend c.directory).run s4).2 = s2 := congrArg Prod.snd hclose
  rw [hs5] at ho
  exact ⟨plan, l, object, r, rfl, (fsPathParse_ok hc hplan).2.1, hr, ht, hk, ho, hid, hkind.trans hk⟩

/-- **Parsing and walking agree**, for a backend that answers in a fixed way. A walk along a parsed path ends as deep
as the canonical path is long, and the canonical text leads without a context to the same stack of nodes; a changed
context's text therefore names the directory it has pinned. No walk passes a component that is missing or a file. -/
theorem path_lockstep {σ : Type} (b : FixedBackend σ) :
    (∀ {s s' : Namespace σ} {context : Option Context} {path : List Name} {input : List Byte} {plan : FsPath}
        {l : Location}, b.stable s.volume → ContextPath context path → Canonical path →
      fsPathParse (render path) input = .ok plan →
      (resolve b.toBackend context plan plan.input.names.length).run s = (.ok l, s') →
      l.below.length = plan.depth ∧ ∀ t : Namespace σ, b.stable t.volume → t.mounted = true →
        ∃ plan' t', fsPathParse [slashByte] (render plan.canonical) = .ok plan' ∧
          (resolve b.toBackend none plan' plan'.input.names.length).run t = (.ok l, t')) ∧
    (∀ {s s' : Namespace σ} {c c' : Context} {path : List Name} {input : List Byte}, b.stable s.volume →
      c.path = render path → Canonical path → Pinned s c → (contextChdir b.toBackend c input).run s = (.ok c', s') →
      ∃ l object, pinnedObject s' c' = some object ∧ object.id = l.node.id ∧ object.kind = .directory ∧
        ∀ t : Namespace σ, b.stable t.volume → t.mounted = true →
          ∃ plan t', fsPathParse [slashByte] c'.path = .ok plan ∧
            (resolve b.toBackend none plan plan.input.names.length).run t = (.ok l, t')) ∧
    (∀ {s s' : Namespace σ} {context : Option Context} {plan : FsPath} {count : Nat} {l : Location},
      b.stable s.volume → (resolve b.toBackend context plan count).run s = (.ok l, s') →
      ∃ r, b.Root r ∧ ∀ before name after, walked context plan count = before ++ name :: after →
        ∃ m, Walks b.look r before m ∧ m.node.kind = .directory ∧
          (name ≠ [dotByte] → name ≠ [dotByte, dotByte] → ∃ node, b.look m.node.id name = .ok node)) := by
  refine ⟨fun hs hp hc hplan h => ?_, fun hs hpath hc hp h => ?_, fun hs h => ?_⟩
  · obtain ⟨r, hr, ht⟩ := resolve_tracks hs hp hc hplan h
    have hcan := (fsPathParse_ok hc hplan).2.1
    exact ⟨(ht.length hr.below).trans (fsPathParse_depth hplan).symm,
      fun t hst hm => resolve_canonical hcan hr ht hst hm⟩
  · obtain ⟨plan, l, object, r, htext, hcan, hr, ht, -, ho, hid, hkind⟩ := contextChdir_ok hs hpath hc hp h
    refine ⟨l, object, ho, hid, hkind, fun t hst hm => ?_⟩
    rw [htext]
    exact resolve_canonical hcan hr ht hst hm
  · obtain ⟨r, hr, hw⟩ := resolve_walked hs h
    refine ⟨r, hr, fun before name after hsplit => ?_⟩
    rw [hsplit] at hw
    obtain ⟨m, h1, h2⟩ := hw.of_append
    cases h2 with
    | cons hstep _ =>
      refine ⟨m, h1, hstep.directory, fun hd hdd => ?_⟩
      obtain ⟨node, hn, -⟩ := hstep.looked hd hdd
      exact ⟨node, hn⟩

end runs

/-- A backend of one directory and one file in it, which never changes. -/
def FixedBackend.small : FixedBackend Unit where
  root := 1
  readOnly := true
  lookup parent name := lift (if parent = 1 ∧ name = [65] then .ok ⟨2, 0, .file⟩ else .error .notFound)
  stat _ := lift (.ok ⟨1, 0, .directory⟩)
  retain _ := pure ()
  release _ := pure ()
  read _ _ _ := fail .unsupported
  readdir _ _ := fail .notFound
  write := none
  replace := none
  remove := none
  mkdir := none
  truncate := none
  flush := none
  stable _ := True
  look parent name := if parent = 1 ∧ name = [65] then .ok ⟨2, 0, .file⟩ else .error .notFound
  top := .ok ⟨1, 0, .directory⟩
  lookup_run _ _ _ _ := ⟨rfl, trivial⟩
  stat_run _ _ := ⟨rfl, trivial⟩

/-- A namespace over the small backend. -/
def smallNamespace : Namespace Unit where
  objects := fun _ => {}
  references := fun _ => {}
  nextToken := 1
  ready := true
  busy := false
  mounted := true
  generation := 0
  volume := ()

/-- The path `./A` leads one level down, and so does its canonical text. -/
theorem path_lockstep_small : ∃ plan, fsPathParse [slashByte] [dotByte, slashByte, 65] = .ok plan ∧ plan.depth = 1 ∧
    ∃ plan' t', fsPathParse [slashByte] (render plan.canonical) = .ok plan' ∧
      (resolve FixedBackend.small.toBackend none plan' plan'.input.names.length).run smallNamespace =
        (.ok { base := ⟨1, 0, .directory⟩, below := [⟨2, 0, .file⟩] }, t') := by
  have hplan : fsPathParse [slashByte] [dotByte, slashByte, 65] = .ok
      { base := { names := [], absolute := true, directory := true }
        input := { names := [[dotByte], [65]], absolute := false, directory := false }
        canonical := [[65]], depth := 1 } := rfl
  refine ⟨_, hplan, rfl, ?_⟩
  have hpath : ContextPath none [] := rfl
  exact ((path_lockstep FixedBackend.small).1
    (s := smallNamespace) trivial hpath Canonical.nil hplan rfl).2 smallNamespace trivial rfl

end RumKernel.Fs
