import Dxgmx.Elf.LoadedPages

open Library

namespace Dxgmx

section Pages

theorem alignedStart_toNat (phdr : Elf32Phdr) :
    phdr.alignedStart.toNat = phdr.vaddr.toNat / 4096 * 4096 := by
  have bound := phdr.vaddr.isLt
  have wide : (phdr.vaddr.setWidth 64).toNat = phdr.vaddr.toNat := by
    rw [BitVec.toNat_setWidth, Nat.mod_eq_of_lt (by omega)]
  have rest : (phdr.vaddr.setWidth 64 % (4096 : BitVec 64)).toNat = phdr.vaddr.toNat % 4096 := by
    rw [BitVec.toNat_umod, wide]
    rfl
  have below : phdr.vaddr.setWidth 64 % (4096 : BitVec 64) ≤ phdr.vaddr.setWidth 64 := by
    rw [BitVec.le_def, rest, wide]
    omega
  unfold Elf32Phdr.alignedStart bytesAlignDown64
  rw [BitVec.toNat_setWidth, BitVec.toNat_sub_of_le below, rest, wide]
  omega

theorem page_toNat (phdr : Elf32Phdr) (i : Nat) :
    (phdr.page i).toNat = (phdr.alignedStart.toNat + i * 4096) % 2 ^ 32 := by
  unfold Elf32Phdr.page pageSize
  rw [BitVec.toNat_add, BitVec.toNat_ofNat, Nat.add_mod_mod]

theorem page_aligned (phdr : Elf32Phdr) (i : Nat) : PageAligned (phdr.page i) := by
  unfold PageAligned pageSize
  rw [page_toNat, alignedStart_toNat]
  omega

theorem pagespan_eq (phdr : Elf32Phdr) : phdr.pagespan =
    ((phdr.memsize + (phdr.vaddr - phdr.alignedStart)).toNat + 4095) / 4096 := by
  unfold Elf32Phdr.pagespan
  generalize phdr.memsize + (phdr.vaddr - phdr.alignedStart) = sum
  have bound := sum.isLt
  have wide : (sum.setWidth 64).toNat = sum.toNat := by
    rw [BitVec.toNat_setWidth, Nat.mod_eq_of_lt (by omega)]
  have four : (4096 : BitVec 64).toNat = 4096 := rfl
  rw [bytesAlignUp64_toNat _ _ (by decide) (by rw [wide, four]; omega), wide, four,
    Nat.mul_div_cancel _ (by decide)]
  rfl

/-- `left` pages of the segment, from page `i` on. -/
def Elf32Phdr.pagesFrom (phdr : Elf32Phdr) (left i : Nat) : List Ptr :=
  (List.range' i left).map phdr.page

def Elf32Phdr.pages (phdr : Elf32Phdr) : List Ptr := phdr.pagesFrom phdr.pagespan 0

theorem pagesFrom_succ (phdr : Elf32Phdr) (left i : Nat) :
    phdr.pagesFrom (left + 1) i = phdr.page i :: phdr.pagesFrom left (i + 1) := by
  unfold Elf32Phdr.pagesFrom
  rw [List.range'_succ, List.map_cons]

end Pages

section Loops

variable {env : LoadEnv} {start s : LoadState} {modes : List (Ptr × Bool)} {pages : List Ptr}
  {phdr : Elf32Phdr}

theorem decide_pageW (flags : BitVec 16) : decide ((flags ||| pageW) &&& pageW ≠ 0) = true := by
  apply decide_eq_true
  intro zero
  have bit := congrArg (fun word => BitVec.getLsbD word 1) zero
  simp [pageW] at bit

theorem LoadedPages.setPagesFlags {left i : Nat} {old : Bool}
    (loaded : LoadedPages env start s (modes ++ (phdr.pagesFrom left i).map (·, old))) :
    ∃ s', setPagesFlags env phdr left i s = .ok s' ∧ LoadedPages env start s'
      (modes ++ (phdr.pagesFrom left i).map (·, decide (phdr.accessMode &&& pageW ≠ 0))) := by
  induction left generalizing i s modes with
  | zero => exact ⟨s, rfl, loaded⟩
  | succ left ih =>
    rw [pagesFrom_succ, List.map_cons] at loaded ⊢
    obtain ⟨tables', call, loaded1⟩ := loaded.setMode (phdr.accessMode ||| pageUser)
    rw [flags_pageUser, List.append_cons] at loaded1
    obtain ⟨s', rest, loaded2⟩ := ih loaded1
    refine ⟨s', ?_, ?_⟩
    · unfold Dxgmx.setPagesFlags
      rw [call, Exec.ok_bind]
      exact rest
    · rw [List.append_cons]
      exact loaded2

end Loops

section Sections

variable {env : LoadEnv} {s : LoadState} {file : RamfsFile}

/-- How many bytes a read copies. -/
def readCount (file : RamfsFile) (n off : BitVec 32) : Nat :=
  if n = 0 ∨ file.size ≤ off then 0 else min n.toNat (file.size - off).toNat

theorem vfsReadPages_eq (env : LoadEnv) (file : RamfsFile) (buf : Ptr) (n off : BitVec 32)
    (s : LoadState) :
    vfsReadPages env file buf n off s =
      (userCopyToPages env buf (fun m => file.data (off.toNat + m)) (readCount file n off) 0 s).bind
        fun copied => .ok ((BitVec.ofNat 32 (readCount file n off)).toInt, copied.2) := by
  unfold vfsReadPages ramfsRead readCount
  dsimp only
  split
  · rfl
  · rw [Exec.ok_bind]
    cases userCopyToPages env buf (fun m => file.data (off.toNat + m))
      (min n.toNat (file.size - off).toNat) 0 s <;> rfl

/-- How many bytes of its section a program header gets. -/
def sectionCount (file : RamfsFile) (phdr : Elf32Phdr) : Nat :=
  if phdr.offset.toInt < 0 then 0 else readCount file phdr.filesize phdr.offset

/-- The whole section stands in the file, and its size is a positive `ssize_t`. -/
def Readable (file : RamfsFile) (phdr : Elf32Phdr) : Prop :=
  phdr.filesize = 0 ∨ (0 ≤ phdr.offset.toInt ∧ phdr.filesize.toInt ≥ 0 ∧
    phdr.offset.toNat + phdr.filesize.toNat ≤ file.size.toNat)

theorem readCount_full {n off : BitVec 32} (some_ : n ≠ 0) :
    readCount file n off = n.toNat ↔ off.toNat + n.toNat ≤ file.size.toNat := by
  have positive : n.toNat ≠ 0 := fun zero => some_ (BitVec.eq_of_toNat_eq zero)
  unfold readCount
  by_cases beyond : file.size ≤ off
  · rw [if_pos (.inr beyond)]
    rw [BitVec.le_def] at beyond
    omega
  · rw [if_neg (not_or.mpr ⟨some_, beyond⟩)]
    rw [BitVec.le_def] at beyond
    rw [BitVec.toNat_sub_of_le (by rw [BitVec.le_def]; omega)]
    omega

theorem readCount_le (file : RamfsFile) (n off : BitVec 32) : readCount file n off ≤ n.toNat := by
  unfold readCount
  split <;> omega

/-- What the copy of a section returns when `count` of its `n` bytes are copied. -/
def copyStatus (count : Nat) (n : BitVec 32) : Int :=
  if (BitVec.ofNat 32 count).toInt < 0 then (BitVec.ofNat 32 count).toInt
  else if (BitVec.ofNat 32 count).toInt < n.toNat then -22
  else 0

theorem copySection_eq {phdr : Elf32Phdr} (positive : ¬ phdr.offset.toInt < 0) :
    elfloaderCopySectionFromFile env file phdr s =
      (userCopyToPages env phdr.vaddr (fun m => file.data (phdr.offset.toNat + m))
        (sectionCount file phdr) 0 s).bind
        fun copied => .ok (copyStatus (sectionCount file phdr) phdr.filesize, copied.2) := by
  unfold elfloaderCopySectionFromFile sectionCount copyStatus
  rw [if_neg positive, if_neg positive, vfsReadPages_eq]
  cases userCopyToPages env phdr.vaddr (fun m => file.data (phdr.offset.toNat + m))
      (readCount file phdr.filesize phdr.offset) 0 s with
  | error stop => rfl
  | ok copied =>
    show (if _ then _ else _) = _
    dsimp only [Except.bind]
    split
    · rfl
    · split <;> rfl

theorem copyStatus_spec {phdr : Elf32Phdr} (some_ : phdr.filesize ≠ 0)
    (positive : ¬ phdr.offset.toInt < 0) :
    (Readable file phdr → copyStatus (sectionCount file phdr) phdr.filesize = 0) ∧
      (¬ Readable file phdr → copyStatus (sectionCount file phdr) phdr.filesize < 0) ∧
      (-4096 ≤ copyStatus (sectionCount file phdr) phdr.filesize ↔
        -4096 ≤ (BitVec.ofNat 32 (sectionCount file phdr)).toInt) := by
  have full := @readCount_full file phdr.filesize phdr.offset some_
  have small := readCount_le file phdr.filesize phdr.offset
  have bound := phdr.filesize.isLt
  have signed := BitVec.toInt_eq_toNat_cond phdr.filesize
  unfold Readable copyStatus sectionCount
  rw [if_neg positive]
  generalize readCount file phdr.filesize phdr.offset = count at full small ⊢
  have value : (BitVec.ofNat 32 count).toInt =
      if 2 * count < 2 ^ 32 then (count : Int) else (count : Int) - 2 ^ 32 := by
    rw [BitVec.toInt_eq_toNat_cond, BitVec.toNat_ofNat, Nat.mod_eq_of_lt (by omega)]
    rfl
  rw [value, signed]
  refine ⟨?_, ?_, ?_⟩
  · rintro (zero | ⟨-, short, inside⟩)
    · exact absurd zero some_
    · have all := full.mpr inside
      split at short <;> split_ifs <;> omega
  · intro unreadable
    have cut : ¬ (0 ≤ phdr.filesize.toInt ∧ count = phdr.filesize.toNat) := fun both =>
      unreadable (.inr ⟨by omega, by rw [← signed]; exact both.1, full.mp both.2⟩)
    rw [signed] at cut
    split at cut <;> split_ifs <;> omega
  · split_ifs <;> omega

end Sections

end Dxgmx
