import Dxgmx.Elf.ElfLoader
import Dxgmx.User.Access

open Library

namespace Dxgmx

/-- What the kernel answers to `proc_create_address_space`: whether there is memory for the paging
    struct, for its array of pages and for its page directory pointer table, and the file that
    `vfs_open` finds under the path. -/
structure AddressSpaceEnv extends LoadEnv where
  pagingStruct : Bool
  allocatedPages : Bool
  pdpt : Bool
  kimgVaddr : Ptr
  kernelPdpt : PageDirectoryPointerTable
  opened : Except Int RamfsFile

def procStackTop : Ptr := BitVec.ofNat 32 procHighAddress - BitVec.ofNat 32 pageSize

/-- `PROC_STACK_SIZE / PAGESIZE`. -/
def procStackPages : Nat := 2

def procStackPage (i : Nat) : Ptr := procStackTop - BitVec.ofNat 32 ((i + 1) * pageSize)

/-- The loop of `proc_create_stack` from page `i` on. -/
def procCreateStackLoop (env : LoadEnv) : (left i : Nat) → LoadState → Exec (Int × LoadState)
  | 0, _, s => .ok (0, s)
  | left + 1, i, s => do
    let (st, s) ← newUserPage env (procStackPage i) pageRW s
    if st < 0 then pure (st, s) else procCreateStackLoop env left (i + 1) s

def procCreateStack (env : LoadEnv) (s : LoadState) : Exec (Int × LoadState) :=
  procCreateStackLoop env procStackPages 0 s

/-- Only the entry of the kernel is copied. -/
def mmMapKernelIntoPagingStruct (env : AddressSpaceEnv) (ps : PagingStruct) : PagingStruct :=
  ps.setPdpte (pdpteIdx env.kimgVaddr) (env.kernelPdpt (pdpteIdx env.kimgVaddr))

/-- What `proc_load_from_file` does to the memory of the new process. -/
def AddressSpaceEnv.procLoadFromFile (env : AddressSpaceEnv) (s : LoadState) : Exec (Int × LoadState) :=
  match env.opened with
  | .error st => .ok (st, s)
  | .ok file => elfloaderLoadFromFile env.toLoadEnv file s

/-- The new process before its file is loaded. -/
def mappedKernel (env : AddressSpaceEnv) (tables : Tables) (falloc : Falloc) : LoadState where
  ps := mmMapKernelIntoPagingStruct env mmInitPagingStruct
  tables := tables
  falloc := falloc
  stores := []
  instPtr := 0

def AddressSpaceEnv.procCreateAddressSpace (env : AddressSpaceEnv) (tables : Tables) (falloc : Falloc) :
    Exec (Int × LoadState) :=
  let s := mappedKernel env tables falloc
  if env.pagingStruct = false ∨ env.allocatedPages = false ∨ env.pdpt = false then .ok (-12, s)
  else do
    let (st, s) ← env.procLoadFromFile s
    if st < 0 then pure (st, s)
    else do
      let (st, s) ← procCreateStack env.toLoadEnv s
      if st < 0 then pure (st, s) else pure (0, s)

/-- The physical memory after the stores, from what it held before the process was made. -/
def LoadState.memory (s : LoadState) (before : Ptr → Byte) (paddr : Ptr) : Byte :=
  match s.stores.find? fun store => store.1 = paddr with
  | some (_, byte) => byte
  | none => before paddr

/-- The byte of a page that is accessible to user space. -/
def userByte (env : LoadEnv) (s : LoadState) (before : Ptr → Byte) (addr : Ptr) : Option Byte :=
  match mmuWalk env.kimg s.ps s.tables addr with
  | none => none
  | some (pde, pte) =>
    if pde.userAccess && pte.userAccess then
      some (s.memory before (pteFramePaddr pte + BitVec.ofNat 32 (addr.toNat % pageSize)))
    else none

/-- Nothing depends on memory that a call makes, so two runs that differ in what the free frames
    held go the same way and end with the same stores. -/
def NoStaleMemory (env : LoadEnv) (free : Falloc) (s : LoadState) : Prop :=
  ∀ before before' : Ptr → Byte,
    (∀ paddr, free.available paddr = false → before paddr = before' paddr) →
      ∀ addr, userByte env s before addr = userByte env s before' addr

end Dxgmx
