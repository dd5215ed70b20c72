import Dxgmx.Fs.Fat
import Dxgmx.Fs.VnodeReferences
import Dxgmx.Library.Traversal

open Library Relation

namespace Dxgmx

section

variable {read : PartRead} {ctx : Fat32DirCtx} {loc next : FatEntryLoc} {vnode : FatVnode}
variable {mem : FatDirMem} {dir cached : VirtualNode} {fs fs' : FileSystem} {st : Int}

def fatDirStart (cluster : BitVec 32) : FatEntryLoc := ⟨cluster, 0, false⟩

end

instance finite_fatEntryLoc : Finite FatEntryLoc := by
  refine Finite.of_injective (fun loc => (loc.cluster, loc.offset, loc.readNext)) ?_
  rintro ⟨⟩ ⟨⟩ same
  simp only [Prod.mk.injEq] at same
  obtain ⟨rfl, rfl, rfl⟩ := same
  rfl

/-- The device is taken for a FAT32 volume. -/
def FatAccepted (blkdev : FatBlkdev) (ctx : Fat32DirCtx) : Prop :=
  fatValidate true blkdev = 0 ∧ fatParseMetadata true blkdev = .ok (.ok ctx) ∧ ctx.type = .fat32

/-- The boot record of a volume with clusters of 16 KiB, which hold 512 entries each. -/
def bootBytes : List Byte :=
  [0xeb, 0x58, 0x90, 0x6d, 0x6b, 0x66, 0x73, 0x2e, 0x66, 0x61, 0x74, 0x00, 0x02, 32, 32, 0,
    2, 0, 0, 0, 0, 0xf8, 0, 0, 32, 0, 64, 0, 0, 0, 0, 0,
    0, 0, 0x40, 0, 0, 4, 0, 0, 0, 0, 0, 0, 2, 0, 0, 0]

/-- Behind the tables every entry is one of a deleted file. -/
def deletedFilesByte (addr : Nat) : Byte :=
  if addr < 512 then bootBytes.getD addr 0 else if addr < 2080 * 512 then 0xff else 0xe5

def deletedFiles : FatBlkdev where
  sectorsize := 512
  read sec n :=
    if sec + n ≤ 2 ^ 22 then .ok fun i => deletedFilesByte (sec * 512 + i) else .error (-22)

def deletedFilesCtx : Fat32DirCtx where
  sectorsize := 512
  sectorsPerCluster := 32
  clusterCount := 131007
  reservedSectorCount := 32
  firstDataSector := 2080
  clustersize := 16384
  type := .fat32
  rootDirCluster := 2
  entriesPerClusterdir := 512

theorem deletedFiles_accepted : FatAccepted deletedFiles deletedFilesCtx := by
  have boot : FatBootRecord.load (fun i => deletedFilesByte (0 * 512 + i)) =
      ⟨512, 32, 32, 2, 0, 0, 0, 2 ^ 22⟩ := by rfl
  have boot32 : Fat32BootRecord.load (fun i => deletedFilesByte (0 * 512 + i)) = ⟨1024, 2⟩ := by rfl
  have sector : deletedFiles.read 0 1 = .ok fun i => deletedFilesByte (0 * 512 + i) := rfl
  refine ⟨by decide, ?_, rfl⟩
  unfold fatParseMetadata
  rw [sector]
  dsimp only
  rw [boot, boot32]
  rfl

end Dxgmx
