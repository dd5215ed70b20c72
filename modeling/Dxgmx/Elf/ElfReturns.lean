import Dxgmx.Elf.ElfLoading

open Library

namespace Dxgmx

def Elf32Phdr.modes (phdr : Elf32Phdr) : List (Ptr × Bool) :=
  phdr.pages.map (·, decide (phdr.accessMode &&& pageW ≠ 0))

/-- How many bytes of the segment are padding. -/
def paddingCount (phdr : Elf32Phdr) : Nat :=
  if phdr.filesize < phdr.memsize then (phdr.memsize - phdr.filesize).toNat else 0

instance decidableReadable (file : RamfsFile) (phdr : Elf32Phdr) : Decidable (Readable file phdr) :=
  inferInstanceAs (Decidable (_ ∨ _))

section

variable {env : LoadEnv} {start s : LoadState} {file : RamfsFile} {before : List Elf32Phdr}
  {phdr : Elf32Phdr} {pages : List Ptr}

theorem sectionCount_empty (empty : phdr.filesize = 0) : sectionCount file phdr = 0 := by
  unfold sectionCount readCount
  rw [if_pos (show phdr.filesize = 0 ∨ _ from .inl empty)]
  exact ite_self 0

/-- Nothing is copied, or the section is copied and the count decides about the status. -/
theorem fillSection_cases {s' : LoadState} {st : Int}
    (call : fillSection env file phdr s = .ok (st, s')) :
    (s' = s ∧ sectionCount file phdr = 0 ∧ (phdr.filesize = 0 ∨ st < 0)) ∨
      (phdr.filesize ≠ 0 ∧ ¬ phdr.offset.toInt < 0 ∧
        st = copyStatus (sectionCount file phdr) phdr.filesize ∧
        ∃ copied, userCopyToPages env phdr.vaddr (fun m => file.data (phdr.offset.toNat + m))
          (sectionCount file phdr) 0 s = .ok (copied, s')) := by
  unfold fillSection at call
  split at call
  · rename_i some_
    by_cases negative : phdr.offset.toInt < 0
    · unfold elfloaderCopySectionFromFile at call
      rw [if_pos negative] at call
      cases call
      exact .inl ⟨rfl, if_pos negative, .inr (by decide)⟩
    · rw [copySection_eq negative] at call
      obtain ⟨⟨copied, s1⟩, stores, call⟩ := Exec.bind_ok.mp call
      cases call
      exact .inr ⟨some_, negative, rfl, copied, stores⟩
  · rename_i empty
    cases call
    exact .inl ⟨rfl, sectionCount_empty (not_not.mp empty), .inl (not_not.mp empty)⟩

/-- The program headers that the loader goes through. -/
def programHeaders (file : RamfsFile) : List Elf32Phdr :=
  match elfReadGenericEhdr file, elfReadEhdr32 file with
  | .ok ehdr, .ok ehdr32 =>
    if elfloaderValidateFile ehdr < 0 ∨ ehdr.ident 4 ≠ 1 then []
    else
      match elfReadPhdrs32 file ehdr32 with
      | .ok phdrs32 => phdrs32
      | .error _ => []
  | _, _ => []

theorem ramfsRead_fst {μ : Type} (file : RamfsFile) (copy : (Nat → Byte) → Nat → μ → Int × μ)
    (n off : BitVec 32) (mem : μ) :
    (ramfsRead file copy n off mem).1 = (BitVec.ofNat 32 (readCount file n off)).toInt := by
  unfold ramfsRead readCount
  split <;> rfl

theorem elfRead_error {off : BitVec 32} {n : Nat} {st : Int} (small : n < 2 ^ 31)
    (failed : elfRead file off n = .error st) : st = -22 := by
  unfold elfRead at failed
  split at failed
  · cases failed
    rfl
  · dsimp only at failed
    split at failed
    · rename_i negative
      have count := readCount_le file (BitVec.ofNat 32 n) off
      rw [BitVec.toNat_ofNat, Nat.mod_eq_of_lt (by omega)] at count
      rw [ramfsRead_fst, BitVec.toInt_eq_toNat_cond, BitVec.toNat_ofNat,
        Nat.mod_eq_of_lt (by omega)] at negative
      split at negative <;> omega
    · split at failed
      · cases failed
        rfl
      · cases failed

theorem elfReadGenericEhdr_error {st : Int} (failed : elfReadGenericEhdr file = .error st) :
    st = -22 := by
  unfold elfReadGenericEhdr at failed
  cases read : elfRead file 0 24 with
  | error st' =>
    rw [read] at failed
    cases failed
    exact elfRead_error (by decide) read
  | ok buf =>
    rw [read] at failed
    change (if _ then _ else _) = _ at failed
    split at failed
    · cases failed
    · cases failed
      rfl

theorem elfReadEhdr32_error {st : Int} (failed : elfReadEhdr32 file = .error st) : st = -22 := by
  unfold elfReadEhdr32 at failed
  cases read : elfRead file 0 52 with
  | error st' =>
    rw [read] at failed
    cases failed
    exact elfRead_error (by decide) read
  | ok buf =>
    rw [read] at failed
    change (if _ then _ else _) = _ at failed
    split at failed
    · cases failed
    · cases failed
      rfl

theorem elfReadPhdrs32Loop_error {phoff : BitVec 32} {left i : Nat} {st : Int}
    (failed : elfReadPhdrs32Loop file phoff left i = .error st) : st = -22 := by
  induction left generalizing i with
  | zero => cases failed
  | succ left ih =>
    unfold elfReadPhdrs32Loop at failed
    cases read : elfRead file (phoff + BitVec.ofNat 32 (i * 32)) 32 with
    | error st' =>
      rw [read] at failed
      cases failed
      exact elfRead_error (by decide) read
    | ok buf =>
      rw [read] at failed
      cases rest : elfReadPhdrs32Loop file phoff left (i + 1) with
      | error st' =>
        apply ih (i := i + 1)
        rw [rest]
        change (elfReadPhdrs32Loop file phoff left (i + 1)).bind _ = _ at failed
        rw [rest] at failed
        exact failed
      | ok phdrs =>
        change (elfReadPhdrs32Loop file phoff left (i + 1)).bind _ = _ at failed
        rw [rest] at failed
        cases failed

theorem elfReadPhdrs32_error {hdr32 : Elf32Ehdr} {st : Int}
    (failed : elfReadPhdrs32 file hdr32 = .error st) : st = -22 := by
  unfold elfReadPhdrs32 at failed
  split at failed
  · cases failed
    rfl
  · split at failed
    · cases failed
      rfl
    · exact elfReadPhdrs32Loop_error failed

/-- A byte of a segment that does not wrap around is in a page of the segment. -/
theorem mem_pages (room : phdr.vaddr.toNat + phdr.memsize.toNat < 2 ^ 32) {k : Nat}
    (inside : k < phdr.memsize.toNat) :
    pageBase (phdr.vaddr + BitVec.ofNat 32 k) ∈ phdr.pages := by
  have aligned := alignedStart_toNat phdr
  have rest : (phdr.vaddr - phdr.alignedStart).toNat = phdr.vaddr.toNat % 4096 := by
    rw [BitVec.toNat_sub_of_le (by rw [BitVec.le_def, aligned]; omega), aligned]
    omega
  have span : phdr.pagespan =
      (phdr.memsize.toNat + phdr.vaddr.toNat % 4096 + 4095) / 4096 := by
    have sum : (phdr.memsize + (phdr.vaddr - phdr.alignedStart)).toNat =
        phdr.memsize.toNat + phdr.vaddr.toNat % 4096 := by
      rw [BitVec.toNat_add, rest]
      omega
    rw [pagespan_eq, sum]
  apply List.mem_map.mpr
  refine ⟨(phdr.vaddr.toNat % 4096 + k) / 4096, List.mem_range'_1.mpr ?_, ?_⟩
  · rw [span]
    omega
  · apply BitVec.eq_of_toNat_eq
    rw [page_toNat, pageBase_toNat, aligned, BitVec.toNat_add, BitVec.toNat_ofNat]
    unfold pageSize
    omega

end

def bytesU16 (n : Nat) : List Byte := [BitVec.ofNat 8 n, BitVec.ofNat 8 (n / 2 ^ 8)]

def bytesU32 (n : Nat) : List Byte := bytesU16 n ++ bytesU16 (n / 2 ^ 16)

def Elf32Phdr.bytes (phdr : Elf32Phdr) : List Byte :=
  bytesU32 phdr.type.toNat ++ bytesU32 phdr.offset.toNat ++ bytesU32 phdr.vaddr.toNat ++
    bytesU32 0 ++ bytesU32 phdr.filesize.toNat ++ bytesU32 phdr.memsize.toNat ++
    bytesU32 phdr.flags.toNat ++ bytesU32 4096

/-- An executable of class 32 whose program headers follow its ELF header. -/
def execFile (phdrs : List Elf32Phdr) : RamfsFile :=
  let bytes := [0x7f, 0x45, 0x4c, 0x46, 1, 1, 1] ++ List.replicate 9 0 ++ bytesU16 2 ++ bytesU16 3 ++
    bytesU32 1 ++ bytesU32 0x8048000 ++ bytesU32 52 ++ bytesU32 0 ++ bytesU32 0 ++ bytesU16 52 ++
    bytesU16 32 ++ bytesU16 phdrs.length ++ bytesU16 0 ++ bytesU16 0 ++ bytesU16 0 ++
    phdrs.flatMap Elf32Phdr.bytes
  ⟨BitVec.ofNat 32 bytes.length, fun m => bytes.getD m 0⟩

/-- The blocks of a heap of 2056 pages that are not handed out. -/
def freeBlocks (blocks : List Ptr) : List Ptr :=
  ((List.range 2056).map fun k => BitVec.ofNat 32 (0xe0001000 + k * 4096)).filter (· ∉ blocks)

def roomyEnv : LoadEnv where
  kimg := ⟨0xc0000000⟩
  kmallocAligned := fun blocks =>
    match freeBlocks blocks with
    | pd :: pt :: _ => ⟨some pd, some pt⟩
    | _ => ⟨none, none⟩
  track := fun _ => true
  kmalloc := fun n => n ≠ 0
  kmallocOwnsVa := fun addr => decide (0xe0000000 ≤ addr.toNat ∧ addr.toNat < 0xe1000000)

def freshProcess : LoadState where
  ps := mmInitPagingStruct
  tables := ⟨fun _ => pdInit, fun _ => ptInit, []⟩
  falloc := Falloc.boot
  stores := []
  instPtr := 0

theorem freshProcess_pteAt (i : Fin 4) (j k : Fin 512) :
    pteAt roomyEnv.kimg freshProcess.ps freshProcess.tables i j k = none := by
  have none_ : ptAt roomyEnv.kimg freshProcess.ps freshProcess.tables i j = none :=
    ptAt_none (pdAt_init _ i) j
  unfold pteAt
  rw [none_]
  rfl

theorem freshProcess_empty : EmptySpace roomyEnv freshProcess where
  walk := walkInv_init _ _
  granted := by
    constructor
    · intro i j k pte here
      rw [freshProcess_pteAt] at here
      cases here
    · intro i j k pte here
      rw [freshProcess_pteAt] at here
      cases here
  empty := rfl

theorem heapPages_nodup :
    ((List.range 2056).map fun k => (BitVec.ofNat 32 (0xe0001000 + k * 4096) : Ptr)).Nodup := by
  apply List.Nodup.map_on
  · intro x memberX y memberY same
    have value := congrArg BitVec.toNat same
    rw [BitVec.toNat_ofNat, BitVec.toNat_ofNat] at value
    rw [List.mem_range] at memberX memberY
    omega
  · exact List.nodup_range

theorem freeBlocks_nodup (blocks : List Ptr) : (freeBlocks blocks).Nodup :=
  heapPages_nodup.filter _

theorem freeBlocks_mappable {blocks : List Ptr} {block : Ptr} (member : block ∈ freeBlocks blocks) :
    Mappable roomyEnv.kimg block ∧ block ∉ blocks := by
  obtain ⟨candidate, free⟩ := List.mem_filter.mp member
  obtain ⟨k, inside, rfl⟩ := List.mem_map.mp candidate
  rw [List.mem_range] at inside
  have physical : (mmKva2pa roomyEnv.kimg (BitVec.ofNat 32 (0xe0001000 + k * 4096))).toNat =
      0x20001000 + k * 4096 := by
    show (BitVec.ofNat 32 (0xe0001000 + k * 4096) - (0xc0000000 : BitVec 32)).toNat = _
    rw [BitVec.toNat_sub, BitVec.toNat_ofNat]
    show (2 ^ 32 - 0xc0000000 + (0xe0001000 + k * 4096) % 2 ^ 32) % 2 ^ 32 = _
    omega
  refine ⟨⟨?_, fun zero => ?_⟩, of_decide_eq_true free⟩
  · unfold PageAligned pageSize
    rw [physical]
    omega
  · have value := congrArg BitVec.toNat zero
    rw [physical] at value
    simp at value

theorem freeBlocks_length (blocks : List Ptr) :
    2056 ≤ (freeBlocks blocks).length + blocks.length := by
  have length : ((List.range 2056).map fun k =>
      (BitVec.ofNat 32 (0xe0001000 + k * 4096) : Ptr)).length = 2056 := by
    rw [List.length_map, List.length_range]
  rw [List.length_eq_length_filter_add fun block => decide (block ∉ blocks)] at length
  have used : (((List.range 2056).map fun k =>
      (BitVec.ofNat 32 (0xe0001000 + k * 4096) : Ptr)).filter
        fun block => !decide (block ∉ blocks)).length ≤ blocks.length := by
    apply List.Subperm.length_le
    apply (heapPages_nodup.filter _).subperm
    intro block member
    have inside := (List.mem_filter.mp member).2
    simpa using inside
  unfold freeBlocks
  omega

theorem roomyEnv_answers (blocks : List Ptr) :
    (∃ pd pt, roomyEnv.kmallocAligned blocks = ⟨some pd, some pt⟩ ∧ pd ∈ freeBlocks blocks ∧
        pt ∈ freeBlocks blocks ∧ pd ≠ pt) ∨
      (roomyEnv.kmallocAligned blocks = ⟨none, none⟩ ∧ 2055 ≤ blocks.length) := by
  have distinct := freeBlocks_nodup blocks
  have length := freeBlocks_length blocks
  unfold roomyEnv
  dsimp only
  split
  · rename_i pd pt rest shape
    rw [shape] at distinct ⊢
    refine .inl ⟨pd, pt, rfl, List.mem_cons_self, by simp, ?_⟩
    rintro rfl
    exact (List.nodup_cons.mp distinct).1 List.mem_cons_self
  · rename_i short
    refine .inr ⟨rfl, ?_⟩
    cases shape : freeBlocks blocks with
    | nil =>
      rw [shape] at length
      simp only [List.length_nil] at length
      omega
    | cons pd rest =>
      cases rest with
      | nil =>
        rw [shape] at length
        simp only [List.length_cons, List.length_nil] at length
        omega
      | cons pt rest => exact absurd shape (short pd pt rest)

theorem roomyEnv_fresh (tables : Tables) :
    (roomyEnv.kmallocAligned tables.blocks).Fresh roomyEnv.kimg tables := by
  rcases roomyEnv_answers tables.blocks with ⟨pd, pt, answer, memberPd, memberPt, different⟩ |
    ⟨answer, -⟩
  · rw [answer]
    refine ⟨fun b same => ?_, fun b same => ?_, fun b first second => ?_⟩
    · cases same
      exact freeBlocks_mappable memberPd
    · cases same
      exact freeBlocks_mappable memberPt
    · cases first
      cases second
      exact different rfl
  · rw [answer]
    exact ⟨nofun, nofun, nofun⟩

def textPhdr : Elf32Phdr := ⟨1, 0, 0x8048000, 4, 4, 5⟩

def dataPhdr : Elf32Phdr := ⟨1, 4, 0x8049000, 4, 12, 6⟩

end Dxgmx
