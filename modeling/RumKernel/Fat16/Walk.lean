import RumKernel.Fat16.Reading

/-!
# Walking a directory on any device

`readdir_node` and `lookup` read the slots of a directory through the cache of the volume. Whatever the device
answers, `readdir_node` returns the next entry that decodes, tells the end where it is, or fails with another error.
-/

namespace RumKernel.Fat16
open Lib Fs Prog

variable {x : Image} {a c d id k n s : Nat} {e : Entry} {name : Name}
variable {g : Geometry} {fat : Mem} {fuel : Nat} {o : Description}

/-! ## The errors of `fat16_decode` -/

lemma shortName_error {r : FsError} (h : shortName e = .error r) : r = .ioError ∨ r = .notFound := by
  unfold shortName at h
  split at h
  · cases h
    exact .inl rfl
  split at h
  · rename_i stem ext _ _
    dsimp only at h
    generalize stem ++ (if trimmed e 8 3 = 0 then [] else dotByte :: ext) = name at h
    split at h
    · cases h
    · cases h
      exact .inr rfl
  · cases h
    exact .inl rfl

lemma entryName_end (h : entryName e = .error .end) : e 0 = 0 := by
  by_contra h0
  unfold entryName at h
  rw [if_neg h0] at h
  cases hs : shortName e with
  | error r =>
    simp only [hs] at h
    rcases shortName_error hs with rfl | rfl <;> repeat' split at h
    all_goals cases h
  | ok name =>
    simp only [hs] at h
    repeat' split at h
    all_goals cases h

lemma decodeChain_error {r : FsError} (h : decodeChain g fat e id = .error r) :
    r = .ioError ∨ r = .unsupported := by
  unfold decodeChain at h
  cases hc : fat16Chain g fat (entryFirst e) with
  | error q =>
    obtain rfl : q = .ioError := chainLoop_error hc
    simp only [hc] at h
    repeat' split at h
    all_goals cases h <;> simp
  | ok n =>
    simp only [hc] at h
    repeat' split at h
    all_goals cases h <;> simp

lemma decode_end (h : decode g fat e id = .error .end) : e 0 = 0 := by
  rw [decode_eq] at h
  cases hn : entryName e with
  | error r =>
    rw [hn] at h
    cases h
    exact entryName_end hn
  | ok n =>
    rw [hn] at h
    cases hc : decodeChain g fat e id with
    | ok o =>
      rw [hc] at h
      cases h
    | error r =>
      rw [hc] at h
      cases h
      rcases decodeChain_error hc with h | h <;> cases h

lemma decode_notFound (h : decode g fat e id = .error .notFound) : e 0 ≠ 0 := by
  intro h0
  rw [decode_eq, show entryName e = .error .end by simp [entryName, h0]] at h
  cases h

/-! ## Reading on any device -/

/-- The device answers some request with the error. -/
def Faulty (w : World) (r : FsError) : Prop := ∃ n, (w.oracle n).code 1 = some r

lemma Faulty.not_end {w : World} {r : FsError} (h : Faulty w r) : r ≠ .end ∧ r ≠ .notFound := by
  obtain ⟨n, hn⟩ := h
  unfold Outcome.code at hn
  cases hb : (w.oracle n).error <;> simp only [hb, fsErrorFromBlock] at hn
  all_goals first | (split at hn <;> cases hn <;> simp) | (cases hn; simp)

lemma Faulty.heal {w : World} {r : FsError} : ¬Faulty w.heal r := by
  rintro ⟨n, hn⟩
  rw [show w.heal.oracle n = (w.oracle n).heal from rfl, Outcome.heal_code] at hn
  cases hn

lemma SectorFailed.faulty {w w' : World} {r : FsError} (h : SectorFailed w w' r) : Faulty w r := ⟨_, h.code⟩

variable {w w' w1 : World} {desc : Description} {r : FsError}

lemma directoryEntry_cases (hw : Coherent w) (hd : DirDesc w.image d desc) (hk : (w.image.slots d)[k]? = some s) :
    ∃ w', Looked w w' ∧ ((directoryEntry desc k).run w = (decode w.geo w.fat (w.image.entry s) s, w') ∨
      ∃ r, (directoryEntry desc k).run w = (.error r, w') ∧ Faulty w r) := by
  obtain ⟨hlt, rfl⟩ := List.getElem?_eq_some_iff.mp hk
  have hslot : directorySlot w.geo w.fat desc k = .ok (w.image.slots d)[k] := hd.directorySlot hlt
  have hoff := slotOffset_of_mem (x := w.image) hd (List.getElem_mem hlt)
  have hrun : ∀ q u, (entryRead (w.image.slots d)[k]).run w = (q, u) → Looked w u →
      (directoryEntry desc k).run w = match q with
        | .ok e => (decode w.geo w.fat e (w.image.slots d)[k], u)
        | .error r => (.error r, u) := by
    intro q u hq hl
    unfold directoryEntry
    simp only [bind_run, get_run, lift_run, hslot, hq]
    have hgeo : u.geo = w.geo := congrArg Image.geo hl.image
    have hfat : u.fat = w.fat := congrArg Image.fat hl.image
    cases q with
    | error r => rfl
    | ok e =>
      dsimp only
      rw [hgeo, hfat]
  rcases entryRead_cases hw hoff with ⟨u, hu, hl, -⟩ | ⟨r, u, hu, hl, hfail, -⟩
  · exact ⟨u, hl, .inl (hrun _ u hu hl)⟩
  · exact ⟨u, hl, .inr ⟨r, hrun _ u hu hl, hfail.faulty⟩⟩

lemma describe_directory (hw : Coherent w) (hs : w.image.Sound) (hid : DirId w.image id d) :
    ∃ w', Looked w w' ∧ ((∃ desc, (describe id).run w = (.ok desc, w') ∧ DirDesc w.image d desc) ∨
      ∃ r, (describe id).run w = (.error r, w') ∧ r ≠ .end) := by
  by_cases hready : w.ready = true
  swap
  · refine ⟨w, refl_of Looked w, .inr ⟨.unavailable, ?_, nofun⟩⟩
    simp [describe, bind_run, hready]
  by_cases hfault : w.faulted = true
  · refine ⟨w, refl_of Looked w, .inr ⟨.ioError, ?_, nofun⟩⟩
    simp [describe, bind_run, hready, hfault]
  rcases hid with ⟨rfl, rfl⟩ | ⟨n, e, ho, hk, rfl⟩
  · refine ⟨w, refl_of Looked w, .inl ⟨rootDescription, ?_, .inl ⟨rfl, rfl⟩⟩⟩
    simp [describe, bind_run, hready, hfault]
  have hm := Image.mem_live ho.2
  have h2 := hs.two_le_slot ho.1 hm.1
  have hne : ¬id = rootId := by
    unfold rootId
    omega
  have hrun := describe_run hready (by simpa using hfault) hne
  rcases entryRead_cases hw (hs.slotOffset ho.1 hm.1) with ⟨u, hu, hl, -⟩ | ⟨r, u, hu, hl, hfail, -⟩
  · refine ⟨u, hl, ?_⟩
    have hgeo : u.geo = w.geo := congrArg Image.geo hl.image
    have hfat : u.fat = w.fat := congrArg Image.fat hl.image
    rw [hu] at hrun
    dsimp only at hrun
    rw [hgeo, hfat, ← hm.2.1] at hrun
    cases hdec : decode w.geo w.fat e id with
    | ok o =>
      rw [hdec] at hrun
      obtain ⟨cs, hh, hdesc, -⟩ := decode_holds (x := w.image) hdec
      refine .inl ⟨o.1, hrun, .inr ⟨?_, ?_, ?_, cs, hh.chain hk, ?_⟩⟩ <;> rw [hdesc]
      · exact hne
      · exact hk
      all_goals rfl
    | error r =>
      rw [hdec] at hrun
      refine .inr ?_
      cases r <;> exact ⟨_, hrun, nofun⟩
  · rw [hu] at hrun
    exact ⟨u, hl, .inr ⟨r, hrun, hfail.faulty.not_end.1⟩⟩

lemma Looked.faulty (h : Looked w w1) (hr : Faulty w1 r) : Faulty w r := by
  obtain ⟨n, hn⟩ := hr
  exact ⟨n, h.oracle ▸ hn⟩

/-- The slot at position `j` of the directory is passed over by a search. -/
def Image.Skips (x : Image) (d j : Nat) : Prop :=
  ∃ s, (x.slots d)[j]? = some s ∧ x.entry s 0 ≠ 0 ∧ x.tag (x.entry s) = .skip

/-- What a call of `readdir_node` from position `c` can return. -/
inductive Iterated (x : Image) (d c : Nat) : Except FsError (Description × Name × Nat) → Prop where
  | found {k s : Nat} {o : Description} {name : Name} : c ≤ k → (∀ j, c ≤ j → j < k → x.Skips d j) →
    (x.slots d)[k]? = some s → decode x.geo x.fat (x.entry s) s = .ok (o, name) → Iterated x d c (.ok (o, name, k + 1))
  | finished {k : Nat} : (∀ j, c ≤ j → j < k → x.Skips d j) →
    ((x.slots d).length ≤ k ∨ ∃ s, (x.slots d)[k]? = some s ∧ x.entry s 0 = 0) → Iterated x d c (.error .end)
  | failed {r : FsError} : r ≠ .end → Iterated x d c (.error r)

lemma Iterated.skip {q : Except FsError (Description × Name × Nat)} (h : Iterated x d (c + 1) q) (hc : x.Skips d c) :
    Iterated x d c q := by
  have hskip : ∀ {k}, (∀ j, c + 1 ≤ j → j < k → x.Skips d j) → ∀ j, c ≤ j → j < k → x.Skips d j := by
    intro k hk j hj hlt
    rcases Nat.eq_or_lt_of_le hj with rfl | hj
    · exact hc
    · exact hk j hj hlt
  cases h with
  | found hk hall hs hdec => exact .found (by omega) (hskip hall) hs hdec
  | finished hall hend => exact .finished (hskip hall) hend
  | failed hr => exact .failed hr

lemma readdirLoop_succ : (readdirLoop desc (fuel + 1) c).run w = match (directoryEntry desc c).run w with
    | (.error .notFound, w1) => (readdirLoop desc fuel (c + 1)).run w1
    | (.error r, w1) => (.error r, w1)
    | (.ok (o, name), w1) => (.ok (o, name, c + 1), w1) := by
  simp only [readdirLoop, bind_run, attempt_run]
  rcases (directoryEntry desc c).run w with ⟨q, w1⟩
  cases q with
  | ok o => rfl
  | error r => cases r <;> rfl

lemma readdirLoop_cases (hw : Coherent w) (hd : DirDesc w.image d desc)
    (hfuel : fuel = (w.image.slots d).length - c) :
    ∃ q w', (readdirLoop desc fuel c).run w = (q, w') ∧ Looked w w' ∧ Iterated w.image d c q := by
  induction fuel generalizing c w with
  | zero => exact ⟨_, w, rfl, refl_of Looked w, .finished (k := c) (fun j h1 h2 => by omega) (.inl (by omega))⟩
  | succ fuel ih =>
    obtain ⟨s, hs⟩ : ∃ s, (w.image.slots d)[c]? = some s :=
      ⟨_, List.getElem?_eq_getElem (show c < (w.image.slots d).length by omega)⟩
    rw [readdirLoop_succ]
    obtain ⟨w1, hl, hrun | ⟨r, hrun, hfault⟩⟩ := directoryEntry_cases hw hd hs
    · rw [hrun]
      cases hdec : decode w.geo w.fat (w.image.entry s) s with
      | ok o => exact ⟨_, w1, rfl, hl, .found (Nat.le_refl c) (fun j h1 h2 => by omega) hs hdec⟩
      | error r =>
        by_cases hnf : r = .notFound
        · subst hnf
          have himage : w1.image = w.image := hl.image
          obtain ⟨q, w', hq, hl', hscan⟩ := ih (w := w1) (c := c + 1) (hl.coherent hw) (himage ▸ hd)
            (by rw [himage]; omega)
          refine ⟨q, w', hq, trans_of Looked hl hl', ?_⟩
          rw [himage] at hscan
          exact hscan.skip ⟨s, hs, decode_notFound hdec, tag_skip_of_decode (x := w.image) hdec⟩
        · refine ⟨.error r, w1, by cases r <;> first | rfl | exact absurd rfl hnf, hl, ?_⟩
          by_cases hend : r = .end
          · subst hend
            exact .finished (k := c) (fun j h1 h2 => by omega) (.inr ⟨s, hs, decode_end hdec⟩)
          · exact .failed hend
    · rw [hrun]
      obtain ⟨h1, h2⟩ := hfault.not_end
      exact ⟨.error r, w1, by cases r <;> first | rfl | exact absurd rfl h2, hl, .failed h1⟩

/-- **One call** of `readdir_node`, on any device. -/
lemma readdirNode_cases (hw : Coherent w) (hs : w.image.Sound) (hid : DirId w.image id d) :
    ∃ q w', (readdirNode id c).run w = (q, w') ∧ Looked w w' ∧ Iterated w.image d c q ∧
      ∀ o, q = .ok o → ∃ desc w1, (describe id).run w = (.ok desc, w1) ∧ DirDesc w.image d desc ∧ Looked w w1 := by
  obtain ⟨w1, hl, ⟨desc, hrun, hd⟩ | ⟨r, hrun, hr⟩⟩ := describe_directory hw hs hid
  · have himage : w1.image = w.image := hl.image
    have hcount : directorySlots w1.geo desc = (w.image.slots d).length := by
      rw [show w1.geo = w.geo from congrArg Image.geo himage]
      exact hd.slot_count
    have hnode : (readdirNode id c).run w = (readdirLoop desc (directorySlots w1.geo desc - c) c).run w1 := by
      unfold readdirNode
      rw [bind_run_ok hrun]
      simp only [hd.kind, ne_eq, not_true_eq_false, if_false, bind_run, get_run]
    obtain ⟨q, w', hq, hl', hscan⟩ := readdirLoop_cases (c := c) (hl.coherent hw) (himage ▸ hd)
      (show directorySlots w1.geo desc - c = (w1.image.slots d).length - c by rw [hcount, himage])
    exact ⟨q, w', hnode.trans hq, trans_of Looked hl hl', himage ▸ hscan, fun _ _ => ⟨desc, w1, hrun, hd, hl⟩⟩
  · refine ⟨.error r, w1, ?_, hl, .failed hr, nofun⟩
    unfold readdirNode
    exact bind_run_error hrun

/-! ## Finding what was returned -/

lemma lookupLoop_succ : (lookupLoop desc name (fuel + 1) c).run w = match (directoryEntry desc c).run w with
    | (.error .end, w1) => (.error .notFound, w1)
    | (.error .notFound, w1) => (lookupLoop desc name fuel (c + 1)).run w1
    | (.error r, w1) => (.error r, w1)
    | (.ok (o, m), w1) => if m = name then (.ok o.node, w1) else (lookupLoop desc name fuel (c + 1)).run w1 := by
  simp only [lookupLoop, bind_run, attempt_run]
  rcases (directoryEntry desc c).run w with ⟨q, w1⟩
  cases q with
  | ok o =>
    dsimp only
    split <;> rfl
  | error r => cases r <;> rfl

lemma lookupLoop_finds (hw : Coherent w) (hd : DirDesc w.image d desc)
    (hk : (w.image.slots d)[k]? = some s) (hdec : decode w.geo w.fat (w.image.entry s) s = .ok (o, name))
    (hbefore : ∀ j < k, ∃ t, (w.image.slots d)[j]? = some t ∧ w.image.tag (w.image.entry t) ≠ .broken ∧
      w.image.tag (w.image.entry t) ≠ .named name) (hc : c ≤ k) (hfuel : k < c + fuel) :
    ((lookupLoop desc name fuel c).run w).1 = .ok o.node ∨ ∃ r, Faulty w r := by
  induction fuel generalizing c w with
  | zero => omega
  | succ fuel ih =>
    rw [lookupLoop_succ]
    rcases Nat.eq_or_lt_of_le hc with rfl | hlt
    · obtain ⟨w1, -, hrun | ⟨r, -, hfault⟩⟩ := directoryEntry_cases hw hd hk
      · rw [hrun, hdec]
        exact .inl (by simp)
      · exact .inr ⟨r, hfault⟩
    · obtain ⟨t, ht, hb, hne⟩ := hbefore c hlt
      obtain ⟨w1, hl, hrun | ⟨r, -, hfault⟩⟩ := directoryEntry_cases hw hd ht
      · have himage : w1.image = w.image := hl.image
        have hgeo : w1.geo = w.geo := congrArg Image.geo himage
        have hfat : w1.fat = w.fat := congrArg Image.fat himage
        have hnext := ih (w := w1) (c := c + 1) (hl.coherent hw) (himage ▸ hd) (himage ▸ hk)
          (by rw [hgeo, hfat, himage]; exact hdec) (by rw [himage]; exact hbefore) hlt (by omega)
        have hgo : ((lookupLoop desc name fuel (c + 1)).run w1).1 = .ok o.node ∨ ∃ r, Faulty w r :=
          hnext.imp_right fun ⟨r, hr⟩ => ⟨r, hl.faulty hr⟩
        rw [tag_eq_decode t] at hb hne
        rw [hrun]
        cases hdt : decode w.geo w.fat (w.image.entry t) t with
        | ok m =>
          rw [show decode w.image.geo w.image.fat _ t = _ from hdt] at hne
          have hm : ¬m.2 = name := fun h => hne (by rw [← h])
          simp only [hm, if_false]
          exact hgo
        | error q =>
          rw [show decode w.image.geo w.image.fat _ t = _ from hdt] at hb
          cases q <;> first | exact hgo | exact absurd rfl hb
      · exact .inr ⟨r, hfault⟩

lemma lookup_finds (hw : Coherent w) (hd : DirDesc w.image d desc)
    (hrun : (describe id).run w = (.ok desc, w1)) (hl : Looked w w1) (hk : (w.image.slots d)[k]? = some s)
    (hdec : decode w.geo w.fat (w.image.entry s) s = .ok (o, name))
    (hbefore : ∀ j < k, ∃ t, (w.image.slots d)[j]? = some t ∧ w.image.tag (w.image.entry t) ≠ .broken ∧
      w.image.tag (w.image.entry t) ≠ .named name) : ((lookup id name).run w.heal).1 = .ok o.node := by
  have hheal := Replays.writing.describe w desc w1 hrun
  have himage : w1.heal.image = w.image := hl.image
  have hgeo : w1.heal.geo = w.geo := congrArg Image.geo himage
  have hfat : w1.heal.fat = w.fat := congrArg Image.fat himage
  have hcount : directorySlots w1.heal.geo desc = (w.image.slots d).length := by
    rw [hgeo]
    exact hd.slot_count
  have hlt : k < 0 + directorySlots w1.heal.geo desc := by
    rw [hcount, Nat.zero_add]
    exact (List.getElem?_eq_some_iff.mp hk).1
  have hloop := lookupLoop_finds (w := w1.heal) (hl.coherent hw) (himage ▸ hd) (himage ▸ hk)
    (by rw [hgeo, hfat, himage]; exact hdec) (by rw [himage]; exact hbefore) (Nat.zero_le k) hlt
  unfold lookup
  rw [bind_run_ok hheal]
  simp only [hd.kind, ne_eq, not_true_eq_false, if_false, bind_run, get_run]
  rcases hloop with h | ⟨r, hr⟩
  · exact h
  · exact absurd hr Faulty.heal

end RumKernel.Fat16
