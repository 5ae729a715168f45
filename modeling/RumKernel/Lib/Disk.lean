import RumKernel.Lib.Bytes

/-!
# Write logs and what survives a crash

`Survives m log x` says that a crash may leave `x` when the device held `m` and was sent `log`: block writes are atomic,
every write before the last completed flush is on the medium, and of the later ones any subset is. A protocol that
flushes between its phases has the log of `Phased`; `Survives.cons` leaves one interrupted phase to look at.
-/

namespace RumKernel.Lib

variable {m : Mem}

/-- A block write: block number and contents. -/
abbrev Write := Nat × Mem

/-- A state-changing request to the device. -/
inductive Request where
  | write (block : Nat) (data : Mem)
  | flush

variable {ws : List Write} {l : List Request}

/-- Perform a list of block writes in order. -/
def applyWrites (m : Mem) (ws : List Write) : Mem := ws.foldl (fun m w => setBlock m w.1 w.2) m

/-- The writes of a log, in order. -/
def writesOf : List Request → List Write
  | [] => []
  | .write n d :: l => (n, d) :: writesOf l
  | .flush :: l => writesOf l

def writeLog (ws : List Write) : List Request := ws.map fun w => .write w.1 w.2

/-- `x` may survive a crash during `log`: the log splits into what the last completed flush made durable,
what was sent after it, and what was not yet sent. -/
def Survives (m : Mem) (log : List Request) (x : Mem) : Prop :=
  ∃ durable pending later kept, log = durable ++ pending ++ later ∧
    (durable = [] ∨ ∃ d, durable = d ++ [.flush]) ∧ (.flush ∉ pending) ∧
    kept.Sublist (writesOf pending) ∧ x = applyWrites m (writesOf durable ++ kept)

/-- `x` may remain when the device stops behind `log`: all that the last flush made durable, and any of the writes
after it. -/
def Remains (m : Mem) (log : List Request) (x : Mem) : Prop :=
  ∃ durable pending kept, log = durable ++ pending ∧ (durable = [] ∨ ∃ d, durable = d ++ [.flush]) ∧
    (.flush ∉ pending) ∧ kept.Sublist (writesOf pending) ∧ x = applyWrites m (writesOf durable ++ kept)

/-- The log of a protocol that flushes after each phase; a phase with nothing to write may be left out. -/
inductive Phased : List (List Write) → List Request → Prop where
  | nil : Phased [] []
  | phase {ws ps l} : Phased ps l → Phased (ws :: ps) (writeLog ws ++ .flush :: l)
  | skip {ps l} : Phased ps l → Phased ([] :: ps) l

@[simp] lemma applyWrites_nil {m : Mem} : applyWrites m [] = m := rfl

@[simp] lemma applyWrites_cons {m : Mem} {w : Write} {ws} :
    applyWrites m (w :: ws) = applyWrites (setBlock m w.1 w.2) ws := rfl

lemma applyWrites_append {vs : List Write} : applyWrites m (ws ++ vs) = applyWrites (applyWrites m ws) vs := by
  simp [applyWrites, List.foldl_append]

lemma applyWrites_other {a : Nat} (h : ∀ w ∈ ws, a / 512 ≠ w.1) : applyWrites m ws a = m a := by
  induction ws generalizing m with
  | nil => rfl
  | cons w ws ih =>
    rw [applyWrites_cons, ih fun v hv => h v (List.mem_cons_of_mem _ hv)]
    exact setBlock_apply_other (h w List.mem_cons_self)

lemma applyWrites_of_mem {w : Write} {j : Nat} (hn : (ws.map Prod.fst).Nodup)
    (hw : w ∈ ws) (hj : j < 512) : applyWrites m ws (w.1 * 512 + j) = w.2 j := by
  induction ws generalizing m with
  | nil => cases hw
  | cons v ws ih =>
    obtain ⟨hv, hn'⟩ := List.nodup_cons.mp hn
    rw [applyWrites_cons]
    rcases List.mem_cons.mp hw with rfl | hw
    · rw [applyWrites_other, setBlock_apply_same hj]
      intro u hu e
      refine hv (List.mem_map.mpr ⟨u, hu, ?_⟩)
      omega
    · exact ih hn' hw

@[simp] lemma writesOf_append {l l' : List Request} : writesOf (l ++ l') = writesOf l ++ writesOf l' := by
  induction l with
  | nil => rfl
  | cons r l ih => cases r <;> simp [writesOf, ih]

@[simp] lemma writesOf_writeLog {ws : List Write} : writesOf (writeLog ws) = ws := by
  induction ws with
  | nil => rfl
  | cons w ws ih => simpa [writeLog, writesOf] using ih

@[simp] lemma writeLog_append {ws vs : List Write} : writeLog (ws ++ vs) = writeLog ws ++ writeLog vs := by
  simp [writeLog]

lemma Phased.writes {ps l} (h : Phased ps l) : writesOf l = ps.flatten := by
  induction h with
  | nil => rfl
  | phase _ ih => simp [writesOf, ih]
  | skip _ ih => simpa using ih

lemma Phased.append {ps qs l k} (h : Phased ps l) (h' : Phased qs k) : Phased (ps ++ qs) (l ++ k) := by
  induction h with
  | nil => exact h'
  | phase _ ih => simpa using Phased.phase ih
  | skip _ ih => exact .skip ih

lemma split_at_flush {d p r : List Request}
    (h : writeLog ws ++ .flush :: l = d ++ p ++ r) (hd : d = [] ∨ ∃ e, d = e ++ [.flush]) (hp : .flush ∉ p) :
    (d = [] ∧ ∃ q, writeLog ws = p ++ q) ∨
      ∃ d', d = writeLog ws ++ .flush :: d' ∧ (d' = [] ∨ ∃ e, d' = e ++ [.flush]) ∧ l = d' ++ p ++ r := by
  induction ws generalizing d p with
  | nil =>
    rcases hd with rfl | ⟨e, rfl⟩
    · refine .inl ⟨rfl, ?_⟩
      cases p with
      | nil => exact ⟨[], rfl⟩
      | cons x p =>
        simp only [writeLog, List.map_nil, List.nil_append, List.cons_append, List.cons.injEq] at h
        exact absurd (h.1 ▸ List.mem_cons_self) hp
    · refine .inr ?_
      cases e with
      | nil =>
        refine ⟨[], rfl, .inl rfl, ?_⟩
        simpa [writeLog] using h
      | cons x e =>
        simp only [writeLog, List.map_nil, List.nil_append, List.cons_append, List.cons.injEq,
          List.append_assoc] at h
        refine ⟨e ++ [.flush], ?_, .inr ⟨e, rfl⟩, by simpa using h.2⟩
        simp [writeLog, ← h.1]
  | cons w ws ih =>
    rcases hd with rfl | ⟨e, rfl⟩
    · cases p with
      | nil => exact .inl ⟨rfl, _, rfl⟩
      | cons x p =>
        simp only [writeLog, List.map_cons, List.cons_append, List.nil_append, List.cons.injEq] at h
        have hp' : Request.flush ∉ p := fun hm => hp (List.mem_cons_of_mem _ hm)
        rcases ih (d := []) (p := p) h.2 (.inl rfl) hp' with ⟨-, q, hq⟩ | ⟨d', hd', -⟩
        · exact .inl ⟨rfl, q, by simp [writeLog, ← h.1, ← hq]⟩
        · simp at hd'
    · cases e with
      | nil => simp [writeLog] at h
      | cons x e =>
        simp only [writeLog, List.map_cons, List.cons_append, List.cons.injEq] at h
        have h' : writeLog ws ++ .flush :: l = (e ++ [Request.flush]) ++ p ++ r := h.2
        rcases ih h' (.inr ⟨e, rfl⟩) hp with ⟨hd', -⟩ | ⟨d', hd', hl, hr⟩
        · simp at hd'
        · exact .inr ⟨d', by simp [writeLog, ← h.1, hd'], hl, hr⟩

/-- **Crash of a phased protocol.** Either the crash was in the first phase, a subset of its writes being
done, or the phase is complete and the crash was in the rest. -/
theorem Survives.cons {ws ps l m x} (h : Survives m l x) (hl : Phased (ws :: ps) l) :
    (∃ kept, kept.Sublist ws ∧ x = applyWrites m kept) ∨ ∃ l', Phased ps l' ∧ Survives (applyWrites m ws) l' x := by
  cases hl with
  | @phase _ _ l hl =>
    obtain ⟨d, p, r, kept, e, hd, hp, hk, rfl⟩ := h
    rcases split_at_flush e hd hp with ⟨rfl, q, hq⟩ | ⟨d', rfl, hd', e'⟩
    · refine .inl ⟨kept, ?_, by simp [writesOf]⟩
      have hw : ws = writesOf p ++ writesOf q := by rw [← writesOf_append, ← hq, writesOf_writeLog]
      rw [hw]
      exact hk.trans (List.sublist_append_left _ _)
    · refine .inr ⟨l, hl, d', p, r, kept, e', hd', hp, hk, ?_⟩
      simp [writesOf, applyWrites_append]
  | skip hl => exact .inr ⟨l, hl, h⟩

lemma Survives.nil {l m x} (h : Survives m l x) (hl : Phased [] l) : x = m := by
  cases hl
  obtain ⟨d, p, r, kept, e, -, -, hk, rfl⟩ := h
  have e' := e.symm
  simp only [List.append_eq_nil_iff] at e'
  obtain ⟨⟨rfl, rfl⟩, rfl⟩ := e'
  simp only [writesOf, List.sublist_nil] at hk
  simp [hk, writesOf]

/-- **Crash of two protocols in a row.** The crash was in the first one, or the first one is complete. -/
lemma Survives.append {ps l l' m x} (hl : Phased ps l) (h : Survives m (l ++ l') x) :
    Survives m l x ∨ Survives (applyWrites m ps.flatten) l' x := by
  induction hl generalizing m with
  | nil => exact .inr h
  | @phase ws ps l _ ih =>
    obtain ⟨d, p, r, kept, e, hd, hp, hk, hx⟩ := h
    rw [List.append_assoc, List.cons_append] at e
    rcases split_at_flush e hd hp with ⟨rfl, q, hq⟩ | ⟨d', rfl, hd', e'⟩
    · exact .inl ⟨[], p, q ++ .flush :: l, kept, by simp [hq], .inl rfl, hp, hk, hx⟩
    · rw [writesOf_append, writesOf_writeLog, List.append_assoc, applyWrites_append] at hx
      rcases ih ⟨d', p, r, kept, e', hd', hp, hk, hx⟩ with ⟨d, p, r, kept, rfl, hd, hp, hk, hx⟩ | h
      · refine .inl ⟨writeLog ws ++ .flush :: d, p, r, kept, by simp, .inr ?_, hp, hk, ?_⟩
        · rcases hd with rfl | ⟨d, rfl⟩
          · exact ⟨writeLog ws, rfl⟩
          · exact ⟨writeLog ws ++ .flush :: d, by simp⟩
        · rw [hx, ← applyWrites_append]
          simp [writesOf]
      · rw [← applyWrites_append] at h
        exact .inr h
  | skip _ ih => exact ih h

/-- The request is a flush. -/
def Request.isFlush : Request → Bool
  | .write _ _ => false
  | .flush => true

/-- The device stops behind the first `a + b` requests, of which the first `a` end with a flush and the others are
writes. -/
lemma remains_cut {kept : List Write} {flags : List Bool} (a b : Nat)
    (hf : l.map Request.isFlush = flags) (hd : (flags.take a).getLast? ≠ some false)
    (hp : true ∉ (flags.drop a).take b) (hk : kept.Sublist (writesOf ((l.drop a).take b))) :
    Remains m (l.take (a + b)) (applyWrites m (writesOf (l.take a) ++ kept)) := by
  subst hf
  refine ⟨l.take a, (l.drop a).take b, kept, List.take_add, ?_, fun hm => ?_, hk, rfl⟩
  · rcases List.eq_nil_or_concat (l.take a) with hn | ⟨d, r, hr⟩
    · exact .inl hn
    rw [List.concat_eq_append] at hr
    rw [← List.map_take, hr, List.map_append, List.map_singleton, List.getLast?_concat] at hd
    cases r with
    | write n data => exact absurd rfl hd
    | flush => exact .inr ⟨d, hr⟩
  · rw [← List.map_drop, ← List.map_take] at hp
    exact hp (List.mem_map.mpr ⟨_, hm, rfl⟩)

/-- What remains behind a part of a log survives a crash during the log. -/
lemma Remains.survives {l l' m x} (h : Remains m l x) : Survives m (l ++ l') x := by
  obtain ⟨d, p, kept, rfl, hd, hp, hk, hx⟩ := h
  exact ⟨d, p, l', kept, rfl, hd, hp, hk, hx⟩

/-- **A protocol that has returned is durable.** What remains behind it and some further requests has all its writes. -/
lemma Remains.append {ps l l' m x} (hl : Phased ps l) (h : Remains m (l ++ l') x) :
    Remains (applyWrites m ps.flatten) l' x := by
  induction hl generalizing m with
  | nil => exact h
  | @phase ws ps l _ ih =>
    obtain ⟨d, p, kept, e, hd, hp, hk, hx⟩ := h
    rw [List.append_assoc, List.cons_append] at e
    have e' : writeLog ws ++ .flush :: (l ++ l') = d ++ p ++ [] := by rw [e, List.append_nil]
    rcases split_at_flush e' hd hp with ⟨rfl, q, hq⟩ | ⟨d', rfl, hd', he⟩
    · -- the flush of the phase has been issued
      refine absurd ?_ hp
      rw [List.nil_append] at e
      rw [← e]
      simp
    · rw [writesOf_append, writesOf_writeLog, List.append_assoc, applyWrites_append] at hx
      rw [List.flatten_cons, applyWrites_append]
      exact ih ⟨d', p, kept, by rw [he, List.append_nil], hd', hp, hk, hx⟩
  | skip _ ih => exact ih h

end RumKernel.Lib
