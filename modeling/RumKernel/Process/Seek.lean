import RumKernel.Process.Handles

/-!
# Seeking from user space

`rum_seek` of the library and `seek_file` of `syscall.c` around `process_handle_seek`. The signed displacement crosses
as two words and is taken apart into a sign and a magnitude.
-/

namespace RumKernel.Process
open Lib Fs

variable {σ : Type}

structure SeekRequest where
  version : UInt32
  size : UInt32
  offsetLo : UInt32
  offsetHi : UInt32
  whence : UInt32
  reserved : UInt32 := 0
  positionLo : UInt32 := 0
  positionHi : UInt32 := 0

def fsAbiVersion : UInt32 := 1

/-- `sizeof(struct rum_seek_request)`. -/
def seekRequestSize : UInt32 := 32

/-- The word of 64 bits with the given halves. -/
def joinWords (hi lo : UInt32) : UInt64 := hi.toUInt64 <<< 32 ||| lo.toUInt64

def efault : Int := 2

/-- `struct process_handles`, with the filesystem the handles work on. -/
structure HandleTable (σ : Type) where
  slots : Nat → Handle
  names : Namespace σ

namespace HandleTable

def get (t : HandleTable σ) (id : Nat) : Option Handle :=
  if id < 32 ∧ (t.slots id).kind ≠ .unused then some (t.slots id) else none

/-- A slot after an operation on its handle. -/
def put (t : HandleTable σ) (id : Nat) (s : Opened σ) : HandleTable σ :=
  { slots := fun j => if j = id then s.handle else t.slots j
    names := s.names }

/-- `seek_file` on the packet in user memory, none if it is not accessible. The result comes with the packet that is
copied back. `syscall_dispatch` does not get here in an interrupt handler and enables interrupts, so that
`process_filesystem_context` holds. -/
def seekFile (b : Backend σ) (t : HandleTable σ) (id : Nat) (packet : Option SeekRequest) :
    Int × Option SeekRequest × HandleTable σ :=
  match t.get id with
  | none => (Errno.ebadf.result, none, t)
  | some handle =>
    match packet with
    | none => (-efault, none, t)
    | some request =>
      if request.version ≠ fsAbiVersion ∨ request.size ≠ seekRequestSize ∨ request.reserved ≠ 0 ∨
          request.positionLo ≠ 0 ∨ request.positionHi ≠ 0 ∨ request.whence > 2 then
        (Errno.einval.result, none, t)
      else
        let displacement := joinWords request.offsetHi request.offsetLo
        let (answer, s) := Opened.seek b { handle, names := t.names } displacement request.whence.toNat true true
        match answer.position with
        | none => (answer.result, none, t.put id s)
        | some position =>
          (0, some { request with
            positionLo := position.toUInt32
            positionHi := (position >>> 32).toUInt32 }, t.put id s)

/-- `rum_seek`: the result and the position; `accessible` says that the packet is mapped for the program. -/
def rumSeek (b : Backend σ) (t : HandleTable σ) (id : Nat) (displacement : Int64) (whence : UInt32)
    (accessible : Bool) : Int × Option UInt64 × HandleTable σ :=
  let bits := displacement.toUInt64
  let request : SeekRequest :=
    { version := fsAbiVersion
      size := seekRequestSize
      offsetLo := bits.toUInt32
      offsetHi := (bits >>> 32).toUInt32
      whence }
  let (result, packet, t) := t.seekFile b id (if accessible then some request else none)
  (result, packet.map fun request => joinWords request.positionHi request.positionLo, t)

end HandleTable

/-! ## Words and integers -/

lemma join_halves (bits : UInt64) : joinWords (bits >>> 32).toUInt32 bits.toUInt32 = bits := by
  unfold joinWords
  apply UInt64.toNat_inj.mp
  have hlt := bits.toNat_lt
  have hlo : bits.toNat % 2 ^ 32 < 2 ^ 32 := Nat.mod_lt _ (by decide)
  have hhi : bits.toNat / 2 ^ 32 < 2 ^ 32 := by omega
  have h32 : (32 : UInt64).toNat % 64 = 32 := rfl
  simp only [UInt64.toNat_or, UInt64.toNat_shiftLeft, UInt32.toNat_toUInt64, UInt64.toNat_toUInt32,
    UInt64.toNat_shiftRight, Nat.shiftRight_eq_div_pow, h32]
  rw [Nat.mod_eq_of_lt hhi, Nat.mod_eq_of_lt (by rw [Nat.shiftLeft_eq]; omega), ← Nat.shiftLeft_add_eq_or_of_lt hlo,
    Nat.shiftLeft_eq]
  omega

lemma displacement_bits (displacement : Int64) : displacement.toInt =
    if displacement.toUInt64.toNat < 2 ^ 63 then (displacement.toUInt64.toNat : Int)
    else displacement.toUInt64.toNat - 2 ^ 64 := by
  have h : displacement.toInt = _ := BitVec.toInt_eq_toNat_cond displacement.toBitVec
  have hn : displacement.toUInt64.toNat = displacement.toBitVec.toNat := rfl
  rw [h, hn]
  split <;> split <;> omega

variable {b : Backend σ} {base : UInt64}

lemma place_exact (s : Opened σ) (base : UInt64) (displacement : Int64) (sum : Int)
    (hsum : sum = base.toNat + displacement.toInt) :
    if 0 ≤ sum ∧ sum < 2 ^ 64 then ∃ position : UInt64, (position.toNat : Int) = sum ∧
        s.place displacement.toUInt64 base =
          ({ result := 0, position := some position }, { s with handle := { s.handle with offset := position } })
    else s.place displacement.toUInt64 base = (Errno.eoverflow.answer, s) := by
  rw [displacement_bits] at hsum
  generalize displacement.toUInt64 = bits at hsum ⊢
  have hbits := bits.toNat_lt
  have hbase := base.toNat_lt
  have hsign : bits >>> 63 ≠ 0 ↔ ¬ bits.toNat < 2 ^ 63 := by
    have h63 : (63 : UInt64).toNat % 64 = 63 := rfl
    rw [Ne, ← UInt64.toNat_inj, UInt64.toNat_shiftRight, Nat.shiftRight_eq_div_pow, h63, UInt64.toNat_zero]
    omega
  unfold Opened.place
  by_cases hpos : bits.toNat < 2 ^ 63
  · have hneg : decide (bits >>> 63 ≠ 0) = false := by simpa [hsign] using hpos
    have hfits : bits > 0xffffffffffffffff - base ↔ ¬ base.toNat + bits.toNat < 2 ^ 64 := by
      have hmax : (0xffffffffffffffff : UInt64).toNat = 2 ^ 64 - 1 := rfl
      have hle : base ≤ 0xffffffffffffffff := by
        rw [UInt64.le_iff_toNat_le, hmax]
        omega
      rw [gt_iff_lt, UInt64.lt_iff_toNat_lt, UInt64.toNat_sub_of_le _ _ hle, hmax]
      omega
    rw [if_pos hpos] at hsum
    simp only [hneg, Bool.false_eq_true, if_false, hfits]
    by_cases hlt : base.toNat + bits.toNat < 2 ^ 64
    · rw [if_pos (by omega), if_neg (not_not.mpr hlt)]
      refine ⟨base + bits, ?_, rfl⟩
      rw [UInt64.toNat_add, Nat.mod_eq_of_lt hlt, hsum, Nat.cast_add]
    · rw [if_neg (by omega), if_pos hlt]
  · have hneg : decide (bits >>> 63 ≠ 0) = true := by simpa [hsign] using hpos
    have hmag : (~~~bits + 1).toNat = 2 ^ 64 - bits.toNat := by
      rw [UInt64.toNat_add, UInt64.toNat_not]
      simp only [UInt64.toNat_one, UInt64.size]
      omega
    have hfits : ~~~bits + 1 > base ↔ base.toNat < 2 ^ 64 - bits.toNat := by
      rw [gt_iff_lt, UInt64.lt_iff_toNat_lt, hmag]
    rw [if_neg hpos] at hsum
    simp only [hneg, if_true, hfits]
    by_cases hlt : base.toNat < 2 ^ 64 - bits.toNat
    · rw [if_neg (by omega), if_pos hlt]
    · rw [if_pos (by omega), if_neg hlt]
      refine ⟨base - (~~~bits + 1), ?_, rfl⟩
      rw [UInt64.toNat_sub_of_le _ _ (by rw [UInt64.le_iff_toNat_le, hmag]; omega), hmag]
      omega

/-! ## The call -/

/-- The base of a seek, and the filesystem behind the question for the size. -/
inductive SeekBase (b : Backend σ) (handle : Handle) (names : Namespace σ) : UInt32 → UInt64 → Namespace σ → Prop where
  | set : SeekBase b handle names 0 0 names
  | current : SeekBase b handle names 1 handle.offset names
  | end {info : FsNode} {size : UInt64} {names' : Namespace σ}
      (hstat : (fsStat b handle.reference).run names = (.ok info, names')) (hsize : info.size = size.toNat) :
      SeekBase b handle names 2 size names'

variable {handle : Handle} {names names' : Namespace σ} {whence : UInt32}

lemma SeekBase.le_two (h : SeekBase b handle names whence base names') : ¬ whence > 2 := by
  cases h <;> decide

lemma HandleTable.put_self {t : HandleTable σ} {id : Nat} :
    t.put id { handle := t.slots id, names := names' } = { t with names := names' } := by
  unfold put
  congr 1
  funext j
  split
  · rename_i hj
    rw [hj]
  · rfl

lemma SeekBase.seek (h : SeekBase b handle names whence base names') (hkind : handle.kind = .file) (bits : UInt64) :
    Opened.seek b { handle, names } bits whence.toNat true true =
        Opened.place { handle, names := names' } bits base := by
  unfold Opened.seek
  cases h with
  | set => simp [hkind]
  | current => simp [hkind]
  | «end» hstat hsize => simp [hkind, hstat, hsize]

/-- **Seeking is exact.** For an open file, every displacement and every base, the call succeeds exactly if the sum of
the base and the displacement over the integers is a word of 64 bits, which is then the offset of the handle and the
returned position; otherwise it fails with `RUM_EOVERFLOW` and the handles are unchanged. -/
theorem rumSeek_exact (b : Backend σ) (t : HandleTable σ) (id : Nat) (displacement : Int64) (whence : UInt32)
    (base : UInt64) (names' : Namespace σ) (hid : id < 32) (hkind : (t.slots id).kind = .file)
    (hbase : SeekBase b (t.slots id) t.names whence base names') :
    if 0 ≤ (base.toNat : Int) + displacement.toInt ∧ (base.toNat : Int) + displacement.toInt < 2 ^ 64 then
      ∃ position : UInt64, (position.toNat : Int) = base.toNat + displacement.toInt ∧
        t.rumSeek b id displacement whence true = (0, some position,
          { slots := fun j => if j = id then { t.slots id with offset := position } else t.slots j, names := names' })
    else t.rumSeek b id displacement whence true = (-20, none, { t with names := names' }) := by
  have hget : t.get id = some (t.slots id) := if_pos ⟨hid, by rw [hkind]; decide⟩
  have hplace := place_exact { handle := t.slots id, names := names' } base displacement _ rfl
  unfold HandleTable.rumSeek HandleTable.seekFile
  simp only [hget, if_true, hbase.le_two, ne_eq, not_true_eq_false, or_self, if_false, join_halves,
    hbase.seek hkind]
  split at hplace
  · obtain ⟨position, hposition, hrun⟩ := hplace
    rw [if_pos ‹_›]
    refine ⟨position, hposition, ?_⟩
    simp only [hrun, Option.map_some, join_halves]
    rfl
  · rw [if_neg ‹_›]
    simp only [hplace, Errno.answer, Option.map_none]
    rw [HandleTable.put_self]
    rfl

/-- A table with an open file at the offset 5. -/
def fileTable : HandleTable Unit where
  slots _ := { offset := 5, kind := .file }
  names := {
    objects := fun _ => {}, references := fun _ => {}, nextToken := 1, ready := true, busy := false, mounted := true
    generation := 1, volume := () }

/-- The largest step back does not fit, and a small one does. -/
theorem rumSeek_exact_back : fileTable.rumSeek Opened.brokenDisk 3 Int64.minValue 1 true = (-20, none, fileTable) ∧
      ∃ position : UInt64, (position.toNat : Int) = 2 ∧
        (fileTable.rumSeek Opened.brokenDisk 3 (-3) 1 true).2.1 = some position := by
  have h (displacement : Int64) := rumSeek_exact Opened.brokenDisk fileTable 3 displacement 1 5 fileTable.names
    (by decide) rfl .current
  refine ⟨?_, ?_⟩
  · have hmin := h Int64.minValue
    rwa [if_neg (by decide)] at hmin
  · have hback := h (-3)
    rw [if_pos (by decide)] at hback
    obtain ⟨position, hposition, hrun⟩ := hback
    exact ⟨position, hposition, congrArg (fun r => r.2.1) hrun⟩

end RumKernel.Process
