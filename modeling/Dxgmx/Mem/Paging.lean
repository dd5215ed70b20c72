import Mathlib.Logic.Function.Basic
import Dxgmx.Mem.Falloc

open Library

namespace Dxgmx

structure PageTableEntry where
  present : Bool
  writable : Bool
  userAccess : Bool
  frameBase : Nat
  execDisable : Bool
  deriving DecidableEq, Repr

structure PageDirectoryEntry where
  present : Bool
  writable : Bool
  userAccess : Bool
  tableBase : Nat
  execDisable : Bool
  deriving DecidableEq, Repr

structure PageDirectoryPointerTableEntry where
  present : Bool
  pdBase : Nat
  deriving DecidableEq, Repr

abbrev PageTable := Fin 512 → PageTableEntry

abbrev PageDirectory := Fin 512 → PageDirectoryEntry

abbrev PageDirectoryPointerTable := Fin 4 → PageDirectoryPointerTableEntry

def ptInit : PageTable := fun _ => ⟨false, false, false, 0, false⟩

def pdInit : PageDirectory := fun _ => ⟨false, false, false, 0, false⟩

def pdptInit : PageDirectoryPointerTable := fun _ => ⟨false, 0⟩

/-- The page directories and page tables in the memory of the kernel, by address. `blocks` are the
    ones that `kmalloc_aligned` has handed out. -/
structure Tables where
  pds : Ptr → PageDirectory
  pts : Ptr → PageTable
  blocks : List Ptr

structure PagingStruct where
  allocatedPages : List Ptr
  data : PageDirectoryPointerTable

/-- The kernel maps physical memory at an offset. -/
structure KernelImage where
  kimgMapOffset : Ptr

def mmKpa2va (kimg : KernelImage) (pa : Ptr) : Ptr := pa + kimg.kimgMapOffset

def mmKva2pa (kimg : KernelImage) (va : Ptr) : Ptr := va - kimg.kimgMapOffset

/-- A base is the number of a page. -/
def baseOf (paddr : Ptr) : Nat := paddr.toNat / 4096

def paddrOf (base : Nat) : Ptr := BitVec.ofNat 32 (base * 4096)

/-- `pdpte_pd_vaddr`, `pde_pt_vaddr`: the table that an entry with this base points to. -/
def tableVaddr (kimg : KernelImage) (base : Nat) : Option Ptr :=
  if paddrOf base = 0 then none else some (mmKpa2va kimg (paddrOf base))

def pdpteIdx (vaddr : Ptr) : Fin 4 := ⟨vaddr.toNat / 2 ^ 30, by omega⟩

/-- `pde_from_vaddr`. -/
def pdeIdx (vaddr : Ptr) : Fin 512 :=
  ⟨vaddr.toNat / (4096 * 512) - vaddr.toNat / (4096 * 512 * 512) * 512, by omega⟩

/-- `pte_from_vaddr`. -/
def pteIdx (vaddr : Ptr) : Fin 512 :=
  ⟨vaddr.toNat / 4096 - vaddr.toNat / (4096 * 512) * 512, by omega⟩

def pageBase (addr : Ptr) : Ptr := addr - BitVec.ofNat 32 (addr.toNat % pageSize)

def pteFramePaddr (pte : PageTableEntry) : Ptr := paddrOf pte.frameBase

def PagingStruct.setPdpte (ps : PagingStruct) (idx : Fin 4)
    (pdpte : PageDirectoryPointerTableEntry) : PagingStruct :=
  { ps with data := Function.update ps.data idx pdpte }

/-- A block from `kmalloc_aligned` after `pd_init`. -/
def Tables.addPd (tables : Tables) (pd : Ptr) : Tables :=
  { tables with pds := Function.update tables.pds pd pdInit, blocks := pd :: tables.blocks }

/-- A block from `kmalloc_aligned` after `pt_init`. -/
def Tables.addPt (tables : Tables) (pt : Ptr) : Tables :=
  { tables with pts := Function.update tables.pts pt ptInit, blocks := pt :: tables.blocks }

def Tables.setPde (tables : Tables) (pd : Ptr) (idx : Fin 512) (pde : PageDirectoryEntry) : Tables :=
  { tables with pds := Function.update tables.pds pd (Function.update (tables.pds pd) idx pde) }

def Tables.setPte (tables : Tables) (pt : Ptr) (idx : Fin 512) (pte : PageTableEntry) : Tables :=
  { tables with pts := Function.update tables.pts pt (Function.update (tables.pts pt) idx pte) }

section Walk

variable (kimg : KernelImage) (pdpt : PageDirectoryPointerTable) (tables : Tables)

def pdFromVaddrAbs (vaddr : Ptr) : Option Ptr := tableVaddr kimg (pdpt (pdpteIdx vaddr)).pdBase

def ptFromVaddrAbs (vaddr : Ptr) : Option Ptr :=
  match pdFromVaddrAbs kimg pdpt vaddr with
  | none => none
  | some pd => tableVaddr kimg (tables.pds pd (pdeIdx vaddr)).tableBase

def mmVa2pa (vaddr : Ptr) : Ptr :=
  match ptFromVaddrAbs kimg pdpt tables vaddr with
  | none => 0
  | some pt =>
    pteFramePaddr (tables.pts pt (pteIdx vaddr)) + BitVec.ofNat 32 (vaddr.toNat % pageSize)

end Walk

def pageX : BitVec 16 := 1

def pageW : BitVec 16 := 2

def pageR : BitVec 16 := 4

def pageUser : BitVec 16 := 8

def pageRW : BitVec 16 := pageR ||| pageW

/-- A page directory entry is not demoted, but for user access. -/
def mmSetPteAndPdeFlags (pte : PageTableEntry) (pde : PageDirectoryEntry) (flags : BitVec 16) :
    PageTableEntry × PageDirectoryEntry :=
  ({ pte with
      writable := flags &&& pageW ≠ 0
      execDisable := flags &&& pageX = 0
      userAccess := flags &&& pageUser ≠ 0 },
    { pde with
      writable := pde.writable || flags &&& pageW ≠ 0
      execDisable := pde.execDisable && flags &&& pageX = 0
      userAccess := flags &&& pageUser ≠ 0 })

/-- What `kmalloc_aligned` answers where `mm_map_page` needs a table. -/
structure MapMem where
  pd : Option Ptr
  pt : Option Ptr

/-- The page directory of the entry, made if there is none. -/
def mapPageDirectory (kimg : KernelImage) (mem : MapMem) (idx : Fin 4) (ps : PagingStruct)
    (tables : Tables) : Option (Ptr × PagingStruct × Tables) :=
  match tableVaddr kimg (ps.data idx).pdBase with
  | some pd => some (pd, ps, tables)
  | none =>
    match mem.pd with
    | none => none
    | some pd =>
      some (pd, ps.setPdpte idx { ps.data idx with pdBase := baseOf (mmKva2pa kimg pd) },
        tables.addPd pd)

/-- The page table of the entry, made if there is none. -/
def mapPageTable (kimg : KernelImage) (mem : MapMem) (pd : Ptr) (idx : Fin 512) (tables : Tables) :
    Option (Ptr × Tables) :=
  match tableVaddr kimg (tables.pds pd idx).tableBase with
  | some pt => some (pt, tables)
  | none =>
    match mem.pt with
    | none => none
    | some pt =>
      some (pt, (tables.addPt pt).setPde pd idx
        { tables.pds pd idx with tableBase := baseOf (mmKva2pa kimg pt) })

def mmMapPageArch (kimg : KernelImage) (mem : MapMem) (vaddr paddr : Ptr) (flags : BitVec 16)
    (ps : PagingStruct) (tables : Tables) : Int × PagingStruct × Tables :=
  match mapPageDirectory kimg mem (pdpteIdx vaddr) ps tables with
  | none => (-12, ps, tables)
  | some (pd, ps, tables) =>
    match mapPageTable kimg mem pd (pdeIdx vaddr) tables with
    | none => (-12, ps, tables)
    | some (pt, tables) =>
      let (pte, pde) := mmSetPteAndPdeFlags
        { tables.pts pt (pteIdx vaddr) with frameBase := baseOf paddr, present := true }
        { tables.pds pd (pdeIdx vaddr) with present := true } flags
      (0, ps.setPdpte (pdpteIdx vaddr) { ps.data (pdpteIdx vaddr) with present := true },
        (tables.setPde pd (pdeIdx vaddr) pde).setPte pt (pteIdx vaddr) pte)

def mmMapPage (kimg : KernelImage) (mem : MapMem) (vaddr paddr : Ptr) (flags : BitVec 16)
    (ps : PagingStruct) (tables : Tables) : Exec (Int × PagingStruct × Tables) := do
  assert (vaddr.toNat % pageSize = 0)
  assert (paddr.toNat % pageSize = 0)
  pure (mmMapPageArch kimg mem vaddr paddr flags ps tables)

def mmSetPageFlagsArch (kimg : KernelImage) (vaddr : Ptr) (flags : BitVec 16) (ps : PagingStruct)
    (tables : Tables) : Exec (Int × Tables) := do
  assert (vaddr.toNat % pageSize = 0)
  match tableVaddr kimg (ps.data (pdpteIdx vaddr)).pdBase with
  | none => pure (-22, tables)
  | some pd =>
    match tableVaddr kimg (tables.pds pd (pdeIdx vaddr)).tableBase with
    | none => pure (-22, tables)
    | some pt =>
      if pteFramePaddr (tables.pts pt (pteIdx vaddr)) = 0 then pure (-22, tables)
      else
        let (pte, pde) := mmSetPteAndPdeFlags (tables.pts pt (pteIdx vaddr))
          (tables.pds pd (pdeIdx vaddr)) flags
        pure (0, (tables.setPde pd (pdeIdx vaddr) pde).setPte pt (pteIdx vaddr) pte)

/-- The tracked pages stand in ascending order; a page that is tracked already is a panic. -/
def pagingstructTrackPage (page : Ptr) : List Ptr → Exec (List Ptr)
  | [] => .ok [page]
  | vaddr :: rest =>
    if vaddr = page then .error .panic
    else if page < vaddr then .ok (page :: vaddr :: rest)
    else
      match pagingstructTrackPage page rest with
      | .error stop => .error stop
      | .ok rest => .ok (vaddr :: rest)

/-- `free` is `ffree_one`, and `track` says whether there is memory to track the page. -/
def mmNewUserPage (kimg : KernelImage) (free : Ptr → Falloc → Exec Falloc) (mem : MapMem)
    (track : Bool) (vaddr : Ptr) (flags : BitVec 16) (ps : PagingStruct) (tables : Tables)
    (falloc : Falloc) : Exec (Int × PagingStruct × Tables × Falloc) := do
  assert (vaddr.toNat % pageSize = 0)
  let (paddr, falloc) := fallocOneUser falloc
  if paddr = 0 then pure (-12, ps, tables, falloc)
  else
    let (st, ps, tables) := mmMapPageArch kimg mem vaddr paddr (flags ||| pageUser) ps tables
    if st < 0 then do
      let falloc ← free paddr falloc
      pure (st, ps, tables, falloc)
    else do
      assert (track = true)
      let pages ← pagingstructTrackPage vaddr ps.allocatedPages
      pure (0, { ps with allocatedPages := pages }, tables, falloc)

/-- `kfree` of a table; anything else at that address is not a live allocation. -/
def kfreeTable (addr : Option Ptr) (tables : Tables) : Exec Tables :=
  match addr with
  | none => .error .fault
  | some addr =>
    if addr ∈ tables.blocks then .ok { tables with blocks := tables.blocks.erase addr }
    else .error .panic

/-- The first loop of `mm_destroy_paging_struct_arch`. -/
def destroyPages (kimg : KernelImage) (free : Ptr → Falloc → Exec Falloc)
    (pdpt : PageDirectoryPointerTable) :
    List Ptr → Tables → Falloc → Exec (Tables × Falloc)
  | [], tables, falloc => .ok (tables, falloc)
  | page :: rest, tables, falloc =>
    match ptFromVaddrAbs kimg pdpt tables page with
    | none => .error .fault
    | some pt => do
      let pte := { tables.pts pt (pteIdx page) with frameBase := 0, present := false }
      let tables := tables.setPte pt (pteIdx page) pte
      let falloc ← free (pteFramePaddr pte) falloc
      destroyPages kimg free pdpt rest tables falloc

/-- The second and the third loop: tables that follow each other are freed once. -/
def destroyTables (table : Ptr → Tables → Option Ptr) :
    (last : Option Ptr) → List Ptr → Tables → Exec Tables
  | _, [], tables => .ok tables
  | last, page :: rest, tables =>
    if last = table page tables then destroyTables table last rest tables
    else
      match kfreeTable (table page tables) tables with
      | .error stop => .error stop
      | .ok freed => destroyTables table (table page tables) rest freed

/-- The page directory pointer table goes with the paging struct. -/
def mmDestroyPagingStruct (kimg : KernelImage) (free : Ptr → Falloc → Exec Falloc)
    (ps : PagingStruct) (tables : Tables) (falloc : Falloc) : Exec (Tables × Falloc) := do
  let (tables, falloc) ← destroyPages kimg free ps.data ps.allocatedPages tables falloc
  let tables ← destroyTables (fun page tables => ptFromVaddrAbs kimg ps.data tables page) none
    ps.allocatedPages tables
  let tables ← destroyTables (fun page _ => pdFromVaddrAbs kimg ps.data page) none
    ps.allocatedPages tables
  pure (tables, falloc)

/-- The paging struct that `mm_init_paging_struct` makes. -/
def mmInitPagingStruct : PagingStruct := ⟨[], pdptInit⟩

end Dxgmx
