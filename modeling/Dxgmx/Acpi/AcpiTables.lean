import Dxgmx.Kstdlib.String
import Dxgmx.Mem.DmaTranslation

open Library

namespace Dxgmx

/-- The physical memory, and the answers of the allocators: to `mm_map_page` for tables, to
    `bitmap_init`, and to `acpi_new_table` for each entry of the RSDT. -/
structure AcpiEnv where
  kimg : KernelImage
  phys : Ptr → Byte
  mems : Nat → MapMem
  bitmapMemory : Bool
  tableMemory : Nat → Bool

inductive AcpiTableType
  | hpet
  | facp
  | apic
  | waet
  deriving DecidableEq

structure AcpiTable where
  type : AcpiTableType
  vaddr : Ptr
  deriving DecidableEq

/-- What `dma_map_range` mapped for a table. -/
structure MappedTable where
  vaddr : Ptr
  bytes : Nat

/-- A load of some bytes of a table. -/
structure TableRead where
  table : MappedTable
  addr : Ptr
  count : Nat

/-- An entry of an RSDT of `len` bytes is read at an offset. -/
structure EntryRead where
  len : BitVec 32
  offset : Nat

/-- The process of the kernel and `g_acpi_tables`. The reads are a ghost. -/
structure AcpiState where
  proc : DmaProc DmaPaging
  tables : List AcpiTable
  tableReads : List TableRead
  entryReads : List EntryRead

def longOf (bytes : List Byte) : BitVec 32 :=
  bytes.foldr (fun byte rest => rest <<< 8 ||| byte.setWidth 32) 0

def byteSum (bytes : List Byte) : BitVec 32 :=
  bytes.foldl (fun sum byte => sum + byte.setWidth 32) 0

/-- The `count` bytes of physical memory from an address on. -/
def AcpiEnv.bytesAt (env : AcpiEnv) (paddr : Ptr) (count : Nat) : List Byte :=
  (List.range count).map fun i => env.phys (paddr + BitVec.ofNat 32 i)

def AcpiEnv.longAt (env : AcpiEnv) (paddr : Ptr) : BitVec 32 := longOf (env.bytesAt paddr 4)

section Rsdp

variable (env : AcpiEnv)

/-- The bytes of `RSD PTR `. -/
def rsdpSignature : List Byte := [0x52, 0x53, 0x44, 0x20, 0x50, 0x54, 0x52, 0x20]

/-- One of the two loops, over the addresses of `lines` lines of 16 bytes. The kernel maps the low
    memory, so these loads need no mapping. -/
def acpiScanRsdp (start : Ptr) (lines : Nat) : Option Ptr :=
  ((List.range lines).map fun i => start + BitVec.ofNat 32 (16 * i)).find? fun addr =>
    env.bytesAt addr 8 = rsdpSignature

def acpiFindRsdp : Option Ptr :=
  let ebda : Ptr := (env.phys 0x40F ++ env.phys 0x40E).setWidth 32 <<< 4
  (acpiScanRsdp env ebda 0x40).or (acpiScanRsdp env 0xE0000 0x2000)

def acpiIsRsdpValid (rsdp : Ptr) : Bool :=
  let rev := env.phys (rsdp + 15)
  let sum := byteSum (env.bytesAt rsdp 20) +
    if rev = 2 then byteSum (env.bytesAt (rsdp + 20) 16) else 0
  sum &&& 0xFF = 0

/-- `rsdpv1.rsdt_base`. -/
def rsdtBase (rsdp : Ptr) : Ptr := env.longAt (rsdp + 16)

end Rsdp

section Tables

variable (env : AcpiEnv)

/-- An address whose page is not present is a page fault. -/
def acpiLoad (table : MappedTable) (addr : Ptr) (count : Nat) (s : AcpiState) :
    Exec (List Byte × AcpiState) :=
  let loaded := (List.range count).mapM fun i =>
    (translate env.kimg s.proc.pagingStruct.toPagingState (addr + BitVec.ofNat 32 i)).map env.phys
  match loaded with
  | none => .error .fault
  | some bytes => .ok (bytes, { s with tableReads := s.tableReads ++ [⟨table, addr, count⟩] })

def acpiLoadLong (table : MappedTable) (addr : Ptr) (s : AcpiState) :
    Exec (BitVec 32 × AcpiState) := do
  let (bytes, s) ← acpiLoad env table addr 4 s
  .ok (longOf bytes, s)

/-- `header->len`. -/
def acpiLoadLen (table : MappedTable) (s : AcpiState) : Exec (BitVec 32 × AcpiState) :=
  acpiLoadLong env table (table.vaddr + 4) s

def acpiIsSdtHeaderValid (header : MappedTable) (s : AcpiState) : Exec (Bool × AcpiState) :=
  if header.vaddr = 0 then .ok (false, s)
  else do
    let (len, s) ← acpiLoadLen env header s
    let (bytes, s) ← acpiLoad env header header.vaddr len.toNat s
    .ok (byteSum bytes &&& 0xFF = 0, s)

/-- The types in the order of the comparisons. -/
def acpiTableType (signature : List Byte) : Option AcpiTableType :=
  if signature = [0x48, 0x50, 0x45, 0x54] then some .hpet
  else if signature = [0x46, 0x41, 0x43, 0x50] then some .facp
  else if signature = [0x41, 0x50, 0x49, 0x43] then some .apic
  else if signature = [0x57, 0x41, 0x45, 0x54] then some .waet
  else none

/-- `memory` says whether `krealloc` succeeds. -/
def acpiRegisterTable (memory : Bool) (hdr : MappedTable) (s : AcpiState) :
    Exec (Int × AcpiState) := do
  let (signature, s) ← acpiLoad env hdr hdr.vaddr 4 s
  match acpiTableType signature with
  | none => .ok (-22, s)
  | some type =>
    if memory = false then .ok (-12, s)
    else .ok (0, { s with tables := s.tables ++ [⟨type, hdr.vaddr⟩] })

/-- `dma_map_range` for the process of the kernel. -/
def acpiMap (paddr : Ptr) (n : BitVec 32) (s : AcpiState) :
    Exec (Except Int MappedTable × AcpiState) := do
  let (res, proc) ←
    dmaMapRange (dmaMapPage env.kimg env.mems) paddr n (4 ||| pageW) env.bitmapMemory s.proc
  .ok (res.map fun vaddr => ⟨vaddr, (dmaPages n).toNat * pageSize⟩, { s with proc := proc })

/-- The minimum that is mapped is a page. -/
def acpiMapTable (hdrPaddr : Ptr) (s : AcpiState) : Exec (Except Int MappedTable × AcpiState) := do
  let (res, s) ← acpiMap env hdrPaddr 4096 s
  match res with
  | .error st => .ok (.error st, s)
  | .ok hdr => do
    let (len, s) ← acpiLoadLen env hdr s
    if 4096 < len then acpiMap env hdrPaddr len s else .ok (.ok hdr, s)

/-- One turn of the loop of `acpi_enumerate_rsd_tables`, over an RSDT of `len` bytes. It may end the
    loop with an error. -/
def acpiEnumerateTurn (rsdt : MappedTable) (len : BitVec 32) (i : Nat) (s : AcpiState) :
    Exec (Option Int × AcpiState) := do
  let offset := 36 + 4 * i
  let (hdrPaddr, s) ← acpiLoadLong env rsdt (rsdt.vaddr + BitVec.ofNat 32 offset) s
  let s := { s with entryReads := s.entryReads ++ [⟨len, offset⟩] }
  let (res, s) ← acpiMapTable env hdrPaddr s
  match res with
  | .error st => .ok (some st, s)
  | .ok hdr => do
    let (valid, s) ← acpiIsSdtHeaderValid env hdr s
    if valid then do
      let (_, s) ← acpiRegisterTable env (env.tableMemory i) hdr s
      .ok (none, s)
    else .ok (none, s)

def acpiEnumerateLoop (rsdt : MappedTable) (len : BitVec 32) :
    (left i : Nat) → AcpiState → Exec (Int × AcpiState)
  | 0, _, s => .ok (0, s)
  | left + 1, i, s => do
    let (stop, s) ← acpiEnumerateTurn env rsdt len i s
    match stop with
    | some st => .ok (st, s)
    | none => acpiEnumerateLoop rsdt len left (i + 1) s

def acpiEnumerateRsdTables (rsdt : MappedTable) (s : AcpiState) : Exec (Int × AcpiState) := do
  let (len, s) ← acpiLoadLen env rsdt s
  let tables := (len - 36) / 4
  acpiEnumerateLoop env rsdt len tables.toNat 0 s

def acpiInitRsdt (s : AcpiState) : Exec (Int × AcpiState) :=
  match (acpiFindRsdp env).filter (acpiIsRsdpValid env) with
  | none => .ok (-22, s)
  | some rsdp => do
    let (res, s) ← acpiMapTable env (rsdtBase env rsdp) s
    match res with
    | .error st => .ok (st, s)
    | .ok rsdt => do
      let (valid, s) ← acpiIsSdtHeaderValid env rsdt s
      if valid then acpiEnumerateRsdTables env rsdt s else .ok (-22, s)

end Tables

/-- Each load of a table was of the range that was mapped for it, and each load of an entry within
    the length that the RSDT gives. -/
structure AcpiSafe (s : AcpiState) : Prop where
  tables : ∀ read ∈ s.tableReads, ∀ k < read.count,
    (read.addr + BitVec.ofNat 32 k - read.table.vaddr).toNat < read.table.bytes
  entries : ∀ read ∈ s.entryReads, read.offset + 4 ≤ read.len.toNat

/-- The call returns, and all of its reads are safe. -/
def AcpiInitRight (env : AcpiEnv) (s : AcpiState) : Prop :=
  ∃ st s', acpiInitRsdt env s = .ok (st, s') ∧ AcpiSafe s'

end Dxgmx
