import Dxgmx.Fs.Ramfs
import Dxgmx.Utils.Words
import Dxgmx.Mem.Paging

open Library

namespace Dxgmx

/-- The identification has places to index. -/
instance identNeZero : NeZero 16 := ⟨by decide⟩

structure ElfGenericEhdr where
  ident : Fin 16 → Byte
  type : BitVec 16

structure Elf32Ehdr where
  ident : Fin 16 → Byte
  entry : BitVec 32
  phoff : BitVec 32
  phentsize : BitVec 16
  phnum : BitVec 16

structure Elf32Phdr where
  type : BitVec 32
  offset : BitVec 32
  vaddr : Ptr
  filesize : BitVec 32
  memsize : BitVec 32
  flags : BitVec 32
  deriving DecidableEq, Repr

def ElfGenericEhdr.ofBytes (buf : Nat → Byte) : ElfGenericEhdr where
  ident := fun i => buf i.val
  type := readU16 buf 16

def Elf32Ehdr.ofBytes (buf : Nat → Byte) : Elf32Ehdr where
  ident := fun i => buf i.val
  entry := BitVec.ofNat 32 (readU32 buf 24)
  phoff := BitVec.ofNat 32 (readU32 buf 28)
  phentsize := readU16 buf 42
  phnum := readU16 buf 44

def Elf32Phdr.ofBytes (buf : Nat → Byte) : Elf32Phdr where
  type := BitVec.ofNat 32 (readU32 buf 0)
  offset := BitVec.ofNat 32 (readU32 buf 4)
  vaddr := BitVec.ofNat 32 (readU32 buf 8)
  filesize := BitVec.ofNat 32 (readU32 buf 16)
  memsize := BitVec.ofNat 32 (readU32 buf 20)
  flags := BitVec.ofNat 32 (readU32 buf 24)

def elfValidMagic (ident : Fin 16 → Byte) : Bool :=
  ident 0 = 0x7f ∧ ident 1 = 0x45 ∧ ident 2 = 0x4c ∧ ident 3 = 0x46

/-- `vfs_lseek` to `off` and `vfs_read` of `n` bytes into a buffer of the kernel, on a descriptor of
    a file that is open for reading. What is not read of the buffer stays 0 here. -/
def elfRead (file : RamfsFile) (off : BitVec 32) (n : Nat) : Except Int (Nat → Byte) :=
  if off.toInt < 0 then .error (-22)
  else
    let (read, buf) := ramfsRead file (fun src _ _ => (0, src)) (BitVec.ofNat 32 n) off fun _ => 0
    if read < 0 then .error read
    else if read < n then .error (-22)
    else .ok buf

def elfReadGenericEhdr (file : RamfsFile) : Except Int ElfGenericEhdr := do
  let buf ← elfRead file 0 24
  let hdr := ElfGenericEhdr.ofBytes buf
  if elfValidMagic hdr.ident then .ok hdr else .error (-22)

def elfReadEhdr32 (file : RamfsFile) : Except Int Elf32Ehdr := do
  let buf ← elfRead file 0 52
  let hdr32 := Elf32Ehdr.ofBytes buf
  if elfValidMagic hdr32.ident ∧ hdr32.ident 4 = 1 then .ok hdr32 else .error (-22)

/-- The loop of `elf_read_phdrs32` from header `i` on. -/
def elfReadPhdrs32Loop (file : RamfsFile) (phoff : BitVec 32) :
    (left i : Nat) → Except Int (List Elf32Phdr)
  | 0, _ => .ok []
  | left + 1, i => do
    let buf ← elfRead file (phoff + BitVec.ofNat 32 (i * 32)) 32
    let rest ← elfReadPhdrs32Loop file phoff left (i + 1)
    .ok (Elf32Phdr.ofBytes buf :: rest)

def elfReadPhdrs32 (file : RamfsFile) (hdr32 : Elf32Ehdr) : Except Int (List Elf32Phdr) :=
  if hdr32.phentsize ≠ 32 then .error (-22)
  else if elfValidMagic hdr32.ident = false then .error (-22)
  else elfReadPhdrs32Loop file hdr32.phoff hdr32.phnum.toNat 0

/-- The part of the machine that the loader has an effect on. `stores` is a ghost: the bytes stored
    through the pages of the new process so far with their physical addresses, the last one first. -/
structure LoadState where
  ps : PagingStruct
  tables : Tables
  falloc : Falloc
  stores : List (Ptr × Byte)
  instPtr : Ptr

/-- What the loader finds in the kernel: the answers of `kmalloc_aligned` and of the array of the
    tracked pages as it grows, of `kmalloc`, and the addresses of the kernel heap. -/
structure LoadEnv where
  kimg : KernelImage
  kmallocAligned : List Ptr → MapMem
  track : List Ptr → Bool
  kmalloc : Nat → Bool
  kmallocOwnsVa : Ptr → Bool

/-- The entries that the processor finds for an address in the loaded paging struct. -/
def mmuWalk (kimg : KernelImage) (ps : PagingStruct) (tables : Tables) (addr : Ptr) :
    Option (PageDirectoryEntry × PageTableEntry) :=
  if (ps.data (pdpteIdx addr)).present = false then none
  else
    match pdFromVaddrAbs kimg ps.data addr with
    | none => none
    | some pd =>
      if (tables.pds pd (pdeIdx addr)).present = false then none
      else
        match tableVaddr kimg (tables.pds pd (pdeIdx addr)).tableBase with
        | none => none
        | some pt =>
          if (tables.pts pt (pteIdx addr)).present = false then none
          else some (tables.pds pd (pdeIdx addr), tables.pts pt (pteIdx addr))

/-- Where a store of the kernel goes. -/
inductive StoreTarget
  | page (paddr : Ptr)
  | kernel
  | fault

/-- The kernel honours the write protection of pages. A page of its heap is mapped when it is
    touched. -/
def storeTarget (env : LoadEnv) (addr : Ptr) (s : LoadState) : StoreTarget :=
  match mmuWalk env.kimg s.ps s.tables addr with
  | none => if env.kmallocOwnsVa addr then .kernel else .fault
  | some (pde, pte) =>
    if pde.writable = false ∨ pte.writable = false then .fault
    else if pageBase addr ∈ s.ps.allocatedPages then
      .page (pteFramePaddr pte + BitVec.ofNat 32 (addr.toNat % pageSize))
    else .kernel

def LoadState.store (s : LoadState) (paddr : Ptr) (byte : Byte) : LoadState :=
  { s with stores := (paddr, byte) :: s.stores }

/-- `user_copy_to` with bytes from `i` on. It ends at the first access that faults; nothing is said
    about a kernel whose own memory is overwritten. -/
def userCopyToPages (env : LoadEnv) (dest : Ptr) (src : Nat → Byte) :
    (left i : Nat) → LoadState → Exec (Int × LoadState)
  | 0, _, s => .ok (0, s)
  | left + 1, i, s =>
    match storeTarget env (dest + BitVec.ofNat 32 i) s with
    | .page paddr => userCopyToPages env dest src left (i + 1) (s.store paddr (src i))
    | .kernel => .error .fault
    | .fault => .ok (-14, s)

/-- `memset` with zeros from byte `i` on; a page fault in it is a panic. -/
def memsetPages (env : LoadEnv) (dest : Ptr) : (left i : Nat) → LoadState → Exec LoadState
  | 0, _, s => .ok s
  | left + 1, i, s =>
    match storeTarget env (dest + BitVec.ofNat 32 i) s with
    | .page paddr => memsetPages env dest left (i + 1) (s.store paddr 0)
    | .kernel => .error .fault
    | .fault => .error .panic

/-- `vfs_read` into the pages of the new process. -/
def vfsReadPages (env : LoadEnv) (file : RamfsFile) (buf : Ptr) (n off : BitVec 32)
    (s : LoadState) : Exec (Int × LoadState) := do
  let copyTo (src : Nat → Byte) (n : Nat) (mem : Exec LoadState) : Int × Exec LoadState :=
    match mem >>= userCopyToPages env buf src n 0 with
    | .error stop => (0, .error stop)
    | .ok (st, s) => (st, .ok s)
  let (rd, mem) := ramfsRead file copyTo n off (.ok s)
  let s ← mem
  pure (rd, s)

/-- `mm_new_user_page`. A page of the kernel that loses its frame is memory overwritten as well. -/
def newUserPage (env : LoadEnv) (vaddr : Ptr) (flags : BitVec 16) (s : LoadState) :
    Exec (Int × LoadState) := do
  let replaced := (mmuWalk env.kimg s.ps s.tables vaddr).isSome
  let (st, ps, tables, falloc) ← mmNewUserPage env.kimg ffreeOne
    (env.kmallocAligned s.tables.blocks) (env.track s.ps.allocatedPages) vaddr flags s.ps s.tables
    s.falloc
  if st = 0 ∧ replaced then .error .fault
  else
    pure (st, { s with
      ps := ps
      tables := tables
      falloc := falloc })

def Elf32Phdr.alignedStart (phdr : Elf32Phdr) : Ptr :=
  (bytesAlignDown64 (phdr.vaddr.setWidth 64) 4096).setWidth 32

/-- The sum has 32 bits. -/
def Elf32Phdr.pagespan (phdr : Elf32Phdr) : Nat :=
  (bytesAlignUp64 ((phdr.memsize + (phdr.vaddr - phdr.alignedStart)).setWidth 64) 4096).toNat / 4096

def Elf32Phdr.page (phdr : Elf32Phdr) (i : Nat) : Ptr :=
  phdr.alignedStart + BitVec.ofNat 32 (i * pageSize)

/-- `phdr->flags & PAGE_ACCESS_MODE`. -/
def Elf32Phdr.accessMode (phdr : Elf32Phdr) : BitVec 16 := (phdr.flags &&& 7).setWidth 16

/-- The first loop over the pages of a segment, from page `i` on. -/
def mapPages (env : LoadEnv) (phdr : Elf32Phdr) :
    (left i : Nat) → LoadState → Exec (Int × LoadState)
  | 0, _, s => .ok (0, s)
  | left + 1, i, s => do
    let (st, s) ← newUserPage env (phdr.page i) (phdr.accessMode ||| pageW) s
    if st < 0 then pure (st, s) else mapPages env phdr left (i + 1) s

/-- The last loop over the pages of a segment, from page `i` on. -/
def setPagesFlags (env : LoadEnv) (phdr : Elf32Phdr) :
    (left i : Nat) → LoadState → Exec LoadState
  | 0, _, s => .ok s
  | left + 1, i, s => do
    let (st, tables) ← mmSetPageFlagsArch env.kimg (phdr.page i) (phdr.accessMode ||| pageUser) s.ps
      s.tables
    assert (st = 0)
    setPagesFlags env phdr left (i + 1) { s with tables := tables }

def elfloaderCopySectionFromFile (env : LoadEnv) (file : RamfsFile) (phdr : Elf32Phdr)
    (s : LoadState) : Exec (Int × LoadState) :=
  if phdr.offset.toInt < 0 then .ok (-22, s)
  else do
    let (read, s) ← vfsReadPages env file phdr.vaddr phdr.filesize phdr.offset s
    if read < 0 then pure (read, s)
    else if read < phdr.filesize.toNat then pure (-22, s)
    else pure (0, s)

/-- The section of a program header, if it has one. -/
def fillSection (env : LoadEnv) (file : RamfsFile) (phdr : Elf32Phdr) (s : LoadState) :
    Exec (Int × LoadState) :=
  if phdr.filesize ≠ 0 then elfloaderCopySectionFromFile env file phdr s else pure (0, s)

/-- The bytes after the section. -/
def padSection (env : LoadEnv) (phdr : Elf32Phdr) (s : LoadState) : Exec LoadState :=
  if phdr.filesize < phdr.memsize then
    memsetPages env (phdr.vaddr + phdr.filesize) (phdr.memsize - phdr.filesize).toNat 0 s
  else pure s

/-- One round of the loop over the program headers. -/
def loadPhdr (env : LoadEnv) (file : RamfsFile) (phdr : Elf32Phdr) (s : LoadState) :
    Exec (Int × LoadState) :=
  if phdr.type ≠ 1 then .ok (0, s)
  else do
    let (st, s) ← mapPages env phdr phdr.pagespan 0 s
    if st < 0 then pure (st, s)
    else do
      let (st, s) ← fillSection env file phdr s
      if st < 0 then pure (st, s)
      else do
        let s ← padSection env phdr s
        let s ← setPagesFlags env phdr phdr.pagespan 0 s
        pure (0, s)

def loadPhdrs (env : LoadEnv) (file : RamfsFile) :
    List Elf32Phdr → LoadState → Exec (Int × LoadState)
  | [], s => .ok (0, s)
  | phdr :: rest, s => do
    let (st, s) ← loadPhdr env file phdr s
    if st < 0 then pure (st, s) else loadPhdrs env file rest s

def elfloaderLoadFromFile32 (env : LoadEnv) (file : RamfsFile) (s : LoadState) :
    Exec (Int × LoadState) :=
  match elfReadEhdr32 file with
  | .error st => .ok (st, s)
  | .ok ehdr32 =>
    if env.kmalloc (ehdr32.phnum.toNat * 32) = false then .ok (-12, s)
    else
      match elfReadPhdrs32 file ehdr32 with
      | .error st => .ok (st, s)
      | .ok phdrs32 => do
        let (st, s) ← loadPhdrs env file phdrs32 s
        if st < 0 then pure (st, s) else pure (0, { s with instPtr := ehdr32.entry })

def elfloaderValidateFile (ehdr : ElfGenericEhdr) : Int := if ehdr.type ≠ 2 then -8 else 0

/-- The paging struct of the new process is loaded from the check of the class on. -/
def elfloaderLoadFromFile (env : LoadEnv) (file : RamfsFile) (s : LoadState) :
    Exec (Int × LoadState) :=
  match elfReadGenericEhdr file with
  | .error st => .ok (st, s)
  | .ok ehdr =>
    if elfloaderValidateFile ehdr < 0 then .ok (elfloaderValidateFile ehdr, s)
    else if ehdr.ident 4 = 1 then elfloaderLoadFromFile32 env file s
    else if ehdr.ident 4 = 2 then .error .panic
    else .ok (-22, s)

end Dxgmx
