import Dxgmx.Fs.FatDirWalk

open Library

namespace Dxgmx

namespace FatBootRecord

def sectorCount (bpb : FatBootRecord) : Nat := max bpb.sectorCount16 bpb.sectorsCount32

/-- The driver takes `sector_count16` where the record has `sectors_per_fat16`. -/
def sectorsPerFat (bpb : FatBootRecord) (bpb32 : Fat32BootRecord) : Nat :=
  if bpb.sectorsPerFat16 = 0 then bpb32.sectorsPerFat32 else bpb.sectorCount16

def rootDirSectorCount (bpb : FatBootRecord) : Nat :=
  (bpb.rootDirEntriesCount * 32 + (bpb.sectorsize - 1)) / bpb.sectorsize

/-- The sectors before the data, as an integer. -/
def metadataSectors (bpb : FatBootRecord) (bpb32 : Fat32BootRecord) : Nat :=
  bpb.reservedSectorCount + bpb.fatCount * bpb.sectorsPerFat bpb32 + bpb.rootDirSectorCount

def dataClusters (bpb : FatBootRecord) (bpb32 : Fat32BootRecord) : Nat :=
  (bpb.sectorCount - bpb.metadataSectors bpb32) / bpb.sectorsPerCluster

/-- The product, the sum and the difference that `fat_parse_metadata` computes fit into 32 bits. -/
structure Unwrapped (bpb : FatBootRecord) (bpb32 : Fat32BootRecord) : Prop where
  product : bpb.fatCount * bpb.sectorsPerFat bpb32 < 2 ^ 32
  sum : bpb.metadataSectors bpb32 < 2 ^ 32
  difference : bpb.metadataSectors bpb32 ≤ bpb.sectorCount

/-- There are clusters, what stands before them fits into the volume, and if they are enough for FAT32
    the root directory starts in one of them. -/
structure Consistent (bpb : FatBootRecord) (bpb32 : Fat32BootRecord) : Prop where
  clusters : bpb.sectorsPerCluster ≠ 0
  room : bpb.metadataSectors bpb32 ≤ bpb.sectorCount
  root : 65525 ≤ bpb.dataClusters bpb32 →
    2 ≤ bpb32.rootDirCluster.toNat ∧ bpb32.rootDirCluster.toNat ≤ bpb.dataClusters bpb32 + 1

end FatBootRecord

/-- The clusters of a FAT32 volume lie in the volume, and the root directory starts in one of them. -/
structure GeometryInside (ctx : Fat32DirCtx) (sectorCount : Nat) : Prop where
  data : ctx.firstDataSector + ctx.clusterCount * ctx.sectorsPerCluster ≤ sectorCount
  sectors : 1 ≤ ctx.sectorsPerCluster
  size : 512 ≤ ctx.clustersize
  root : 2 ≤ ctx.rootDirCluster.toNat ∧ ctx.rootDirCluster.toNat ≤ ctx.clusterCount + 1

/-- `fat_parse_metadata` divides by no zero and wraps nowhere, and a volume that it takes for FAT32
    has its clusters inside. -/
structure GeometryRight (blkdev : FatBlkdev) (bpb : FatBootRecord) (bpb32 : Fat32BootRecord) :
    Prop where
  divides : ∃ ctx, fatParseMetadata true blkdev = .ok (.ok ctx)
  unwrapped : bpb.Unwrapped bpb32
  inside : ∀ ctx, FatAccepted blkdev ctx → GeometryInside ctx bpb.sectorCount

variable {blkdev : FatBlkdev} {buf : Nat → Byte} {bpb : FatBootRecord} {bpb32 : Fat32BootRecord}
  {ctx : Fat32DirCtx}

theorem readU32_lt (buf : Nat → Byte) (off : Nat) : readU32 buf off < 2 ^ 32 := by
  have first := (buf off).isLt
  have second := (buf (off + 1)).isLt
  have third := (buf (off + 2)).isLt
  have fourth := (buf (off + 3)).isLt
  unfold readU32
  omega

theorem sectorCount_lt (buf : Nat → Byte) : (FatBootRecord.load buf).sectorCount < 2 ^ 32 := by
  have short : (FatBootRecord.load buf).sectorCount16 < 2 ^ 16 := (readU16 buf 19).isLt
  have long : (FatBootRecord.load buf).sectorsCount32 < 2 ^ 32 := readU32_lt buf 32
  unfold FatBootRecord.sectorCount
  omega

/-- The sizes of sectors that `fat_validate` lets pass. -/
theorem fatValidate_sectorsize (sector : blkdev.read 0 1 = .ok buf)
    (valid : fatValidate true blkdev = 0) :
    (FatBootRecord.load buf).sectorsize ∈ [512, 1024, 2048, 4096] := by
  unfold fatValidate at valid
  rw [sector] at valid
  dsimp only at valid
  by_contra odd
  simp [odd] at valid

/-- The sectors of the root directory are a `u16`. -/
theorem rootDirSectorCount_lt (large : 512 ≤ (FatBootRecord.load buf).sectorsize) :
    (FatBootRecord.load buf).rootDirSectorCount < 2 ^ 16 := by
  have entries : (FatBootRecord.load buf).rootDirEntriesCount < 2 ^ 16 := (readU16 buf 17).isLt
  unfold FatBootRecord.rootDirSectorCount
  rw [Nat.div_lt_iff_lt_mul (by omega)]
  omega

theorem fatParseMetadata_faults (sector : blkdev.read 0 1 = .ok buf)
    (none : (FatBootRecord.load buf).sectorsPerCluster = 0) :
    fatParseMetadata true blkdev = .error .fault := by
  unfold fatParseMetadata
  rw [sector]
  exact if_pos (Or.inr none)

theorem fat32_iff (clusters : Nat) :
    (if clusters < 4085 then FatType.fat12 else if clusters < 65525 then .fat16 else .fat32) =
      .fat32 ↔ 65525 ≤ clusters := by
  split
  · exact iff_of_false nofun (by omega)
  · split
    · exact iff_of_false nofun (by omega)
    · exact iff_of_true rfl (by omega)

/-- What is computed where nothing is divided by zero. -/
theorem fatParseMetadata_parses (sector : blkdev.read 0 1 = .ok buf)
    (large : 512 ≤ (FatBootRecord.load buf).sectorsize)
    (some_ : (FatBootRecord.load buf).sectorsPerCluster ≠ 0) :
    ∃ ctx, fatParseMetadata true blkdev = .ok (.ok ctx) ∧
      ctx.sectorsPerCluster = (FatBootRecord.load buf).sectorsPerCluster ∧
      ctx.clustersize =
        (FatBootRecord.load buf).sectorsPerCluster * (FatBootRecord.load buf).sectorsize ∧
      ctx.firstDataSector =
        (FatBootRecord.load buf).metadataSectors (Fat32BootRecord.load buf) % 2 ^ 32 ∧
      ctx.clusterCount = ((FatBootRecord.load buf).sectorCount + 2 ^ 32 - ctx.firstDataSector) %
        2 ^ 32 / (FatBootRecord.load buf).sectorsPerCluster ∧
      (ctx.type = .fat32 ↔ 65525 ≤ ctx.clusterCount) ∧
      (65525 ≤ ctx.clusterCount →
        ctx.rootDirCluster = (Fat32BootRecord.load buf).rootDirCluster) := by
  have short := rootDirSectorCount_lt large
  have whole : (FatBootRecord.load buf).rootDirSectorCount % 2 ^ 16 =
      (FatBootRecord.load buf).rootDirSectorCount := Nat.mod_eq_of_lt short
  unfold fatParseMetadata
  rw [sector]
  dsimp only
  rw [if_neg (by simp), if_neg (not_or.mpr ⟨by omega, some_⟩)]
  refine ⟨_, rfl, rfl, rfl, ?_, rfl, fat32_iff _, fun enough => if_neg (Nat.not_lt.mpr enough)⟩
  dsimp only
  unfold FatBootRecord.metadataSectors FatBootRecord.sectorsPerFat
  unfold FatBootRecord.rootDirSectorCount at whole ⊢
  rw [whole]

/-- Where the metadata fits into the volume, the words are the integers. -/
theorem fatParseMetadata_consistent (sector : blkdev.read 0 1 = .ok buf)
    (large : 512 ≤ (FatBootRecord.load buf).sectorsize)
    (some_ : (FatBootRecord.load buf).sectorsPerCluster ≠ 0)
    (room : (FatBootRecord.load buf).metadataSectors (Fat32BootRecord.load buf) ≤
      (FatBootRecord.load buf).sectorCount)
    (parsed : fatParseMetadata true blkdev = .ok (.ok ctx)) :
    ctx.firstDataSector = (FatBootRecord.load buf).metadataSectors (Fat32BootRecord.load buf) ∧
      ctx.clusterCount = (FatBootRecord.load buf).dataClusters (Fat32BootRecord.load buf) := by
  have bound := sectorCount_lt buf
  obtain ⟨ctx', parsed', -, -, first, clusters, -⟩ := fatParseMetadata_parses sector large some_
  cases parsed.symm.trans parsed'
  rw [Nat.mod_eq_of_lt (by omega)] at first
  refine ⟨first, ?_⟩
  have difference : ((FatBootRecord.load buf).sectorCount + 2 ^ 32 - ctx.firstDataSector) % 2 ^ 32 =
      (FatBootRecord.load buf).sectorCount - ctx.firstDataSector := by
    rw [first]
    omega
  rw [clusters, difference, first]
  rfl

/-- The geometry of a volume that `fat_validate` accepts is right exactly when its boot record is
    consistent. -/
theorem geometryRight_iff (blkdev : FatBlkdev) (buf : Nat → Byte)
    (sector : blkdev.read 0 1 = .ok buf) (valid : fatValidate true blkdev = 0) :
    GeometryRight blkdev (FatBootRecord.load buf) (Fat32BootRecord.load buf) ↔
      (FatBootRecord.load buf).Consistent (Fat32BootRecord.load buf) := by
  have large : 512 ≤ (FatBootRecord.load buf).sectorsize := by
    have sizes := fatValidate_sectorsize sector valid
    simp only [List.mem_cons, List.not_mem_nil, or_false] at sizes
    omega
  constructor
  · intro right
    have some_ : (FatBootRecord.load buf).sectorsPerCluster ≠ 0 := by
      intro none
      obtain ⟨ctx, parsed⟩ := right.divides
      cases (fatParseMetadata_faults sector none).symm.trans parsed
    refine ⟨some_, right.unwrapped.difference, fun enough => ?_⟩
    obtain ⟨ctx, parsed, -, -, -, -, type, root⟩ := fatParseMetadata_parses sector large some_
    obtain ⟨-, count⟩ :=
      fatParseMetadata_consistent sector large some_ right.unwrapped.difference parsed
    rw [← count] at enough ⊢
    rw [← root enough]
    exact (right.inside ctx ⟨valid, parsed, type.mpr enough⟩).root
  · intro consistent
    have bound := sectorCount_lt buf
    have room := consistent.room
    obtain ⟨ctx, parsed, sectors, size, -, -, type, root⟩ :=
      fatParseMetadata_parses sector large consistent.clusters
    obtain ⟨first, count⟩ :=
      fatParseMetadata_consistent sector large consistent.clusters consistent.room parsed
    refine ⟨⟨ctx, parsed⟩, ⟨?_, by omega, room⟩, ?_⟩
    · unfold FatBootRecord.metadataSectors at room
      omega
    · rintro other ⟨-, parsed', isFat32⟩
      cases parsed.symm.trans parsed'
      have enough := type.mp isFat32
      have positive : 1 ≤ (FatBootRecord.load buf).sectorsPerCluster :=
        Nat.one_le_iff_ne_zero.mpr consistent.clusters
      refine ⟨?_, by rw [sectors]; exact positive, ?_, ?_⟩
      · have whole := Nat.div_mul_le_self ((FatBootRecord.load buf).sectorCount -
          (FatBootRecord.load buf).metadataSectors (Fat32BootRecord.load buf))
          (FatBootRecord.load buf).sectorsPerCluster
        rw [first, count, sectors]
        unfold FatBootRecord.dataClusters
        omega
      · rw [size]
        exact Nat.le_trans large (Nat.le_mul_of_pos_left _ positive)
      · rw [root enough, count]
        exact consistent.root (count ▸ enough)

theorem geometryRight_deletedFiles :
    GeometryRight deletedFiles ⟨512, 32, 32, 2, 0, 0, 0, 2 ^ 22⟩ ⟨1024, 2⟩ := by
  have boot : FatBootRecord.load (fun i => deletedFilesByte (0 * 512 + i)) =
      ⟨512, 32, 32, 2, 0, 0, 0, 2 ^ 22⟩ := by rfl
  have boot32 : Fat32BootRecord.load (fun i => deletedFilesByte (0 * 512 + i)) = ⟨1024, 2⟩ := by rfl
  have right := (geometryRight_iff deletedFiles (fun i => deletedFilesByte (0 * 512 + i)) rfl
    deletedFiles_accepted.1).mpr
  rw [boot, boot32] at right
  exact right ⟨by decide, by decide, fun _ => by decide⟩

/-- The boot record of `deletedFiles` with no sector in a cluster. -/
def noClusters : FatBlkdev where
  sectorsize := 512
  read _ _ := .ok fun i => (bootBytes.set 13 0).getD i 0

/-- It is accepted, and then divided by zero. -/
theorem not_geometryRight_noClusters : fatValidate true noClusters = 0 ∧
    fatParseMetadata true noClusters = .error .fault ∧
    ∀ bpb bpb32, ¬ GeometryRight noClusters bpb bpb32 := by
  have faults : fatParseMetadata true noClusters = .error .fault := fatParseMetadata_faults rfl rfl
  refine ⟨by decide, faults, fun bpb bpb32 right => ?_⟩
  obtain ⟨ctx, parsed⟩ := right.divides
  cases faults.symm.trans parsed

/-- The low 28 bits of an entry of the table are the number of one of the clusters. -/
def LinksOn (clusterCount entry : Nat) : Prop :=
  2 ≤ entry % 2 ^ 28 ∧ entry % 2 ^ 28 ≤ clusterCount + 1

/-- `fat_next_clus` and `fat_advance_loc_clus` move to the same cluster where the entry of the current
    one links on, and fail everywhere else. -/
structure StepsRight (read : PartRead) (ctx : Fat32DirCtx) (loc : FatEntryLoc) : Prop where
  moves : ∀ entry, fatEntryForClus read ctx.toFat32Ctx loc.cluster.toNat = .ok entry →
    LinksOn ctx.clusterCount entry →
    ∃ next : BitVec 32, fatNextClus read ctx.toFat32Ctx loc.cluster.toNat = .ok next.toNat ∧
      fatAdvanceLocClus read ctx loc = .ok { loc with cluster := next, readNext := false }
  fails : (∀ entry, fatEntryForClus read ctx.toFat32Ctx loc.cluster.toNat = .ok entry →
      ¬ LinksOn ctx.clusterCount entry) →
    (∃ st, fatNextClus read ctx.toFat32Ctx loc.cluster.toNat = .error st) ∧
      ∃ st, fatAdvanceLocClus read ctx loc = .error st

/-- Nothing is lost by comparing the whole entry with the number of clusters. -/
structure ComparesWhole (clusterCount entry : Nat) : Prop where
  last : LinksOn clusterCount entry → entry ≤ clusterCount
  reserved : 2 ≤ entry → entry ≤ clusterCount → 2 ≤ entry % 2 ^ 28

theorem comparesWhole_iff (clusterCount entry : Nat) : ComparesWhole clusterCount entry ↔
    (2 ≤ entry ∧ entry ≤ clusterCount ↔ LinksOn clusterCount entry) := by
  have less := Nat.mod_le entry (2 ^ 28)
  constructor
  · rintro ⟨last, reserved⟩
    exact ⟨fun inside => ⟨reserved inside.1 inside.2, by omega⟩,
      fun links => ⟨by have := links.1; omega, last links⟩⟩
  · exact fun same => ⟨fun links => (same.mpr links).2, fun two below => (same.mp ⟨two, below⟩).1⟩

section

variable {read : PartRead} {ctx : Fat32DirCtx} {loc : FatEntryLoc} {entry : Nat} {st : Int}

theorem fatEntryForClus_lt (entryOk : fatEntryForClus read ctx.toFat32Ctx loc.cluster.toNat = .ok entry) :
    entry < 2 ^ 32 := by
  unfold fatEntryForClus at entryOk
  simp only [bind, Except.bind, pure, Except.pure] at entryOk
  split at entryOk
  · cases entryOk
  · cases entryOk
    exact readU32_lt _ _

theorem fatNextClus_entry (entryOk : fatEntryForClus read ctx.toFat32Ctx loc.cluster.toNat = .ok entry) :
    fatNextClus read ctx.toFat32Ctx loc.cluster.toNat =
      if 2 ≤ entry ∧ entry ≤ ctx.clusterCount then .ok entry else .error (-22) := by
  unfold fatNextClus
  rw [entryOk]

theorem fatAdvanceLocClus_entry
    (entryOk : fatEntryForClus read ctx.toFat32Ctx loc.cluster.toNat = .ok entry) :
    fatAdvanceLocClus read ctx loc = if 2 ≤ entry ∧ entry ≤ ctx.clusterCount then
      .ok { loc with cluster := BitVec.ofNat 32 entry, readNext := false } else .error (-22) := by
  unfold fatAdvanceLocClus
  rw [entryOk]
  rfl

theorem fatAdvanceLocClus_error
    (failed : fatEntryForClus read ctx.toFat32Ctx loc.cluster.toNat = .error st) :
    fatAdvanceLocClus read ctx loc = .error st := by
  unfold fatAdvanceLocClus
  rw [failed]
  rfl

/-- An errno that is taken as a `u32` is no data cluster, unless there are nearly `2 ^ 32` of them. -/
theorem fatNextClus_error (failed : fatEntryForClus read ctx.toFat32Ctx loc.cluster.toNat = .error st) :
    fatNextClus read ctx.toFat32Ctx loc.cluster.toNat =
      if 2 ≤ (BitVec.ofInt 32 st).toNat ∧ (BitVec.ofInt 32 st).toNat ≤ ctx.clusterCount then
        .ok (BitVec.ofInt 32 st).toNat else .error (-22) := by
  unfold fatNextClus
  rw [failed]

theorem stepsRight_entry (entryOk : fatEntryForClus read ctx.toFat32Ctx loc.cluster.toNat = .ok entry) :
    StepsRight read ctx loc ↔ ComparesWhole ctx.clusterCount entry := by
  rw [comparesWhole_iff]
  have next := fatNextClus_entry entryOk
  have advance := fatAdvanceLocClus_entry entryOk
  constructor
  · intro right
    constructor
    · intro inside
      by_contra ends
      obtain ⟨⟨st, failed⟩, -⟩ := right.fails fun other otherOk => by
        cases entryOk.symm.trans otherOk
        exact ends
      rw [if_pos inside] at next
      cases next.symm.trans failed
    · intro links
      obtain ⟨cluster, moved, -⟩ := right.moves entry entryOk links
      by_contra outside
      rw [if_neg outside] at next
      cases next.symm.trans moved
  · intro same
    constructor
    · intro other otherOk links
      cases entryOk.symm.trans otherOk
      rw [if_pos (same.mpr links)] at next advance
      refine ⟨BitVec.ofNat 32 entry, ?_, advance⟩
      rw [next, BitVec.toNat_ofNat, Nat.mod_eq_of_lt (fatEntryForClus_lt entryOk)]
    · intro ends
      have outside := fun inside => ends entry entryOk (same.mp inside)
      rw [if_neg outside] at next advance
      exact ⟨⟨_, next⟩, _, advance⟩

theorem stepsRight_error (failed : fatEntryForClus read ctx.toFat32Ctx loc.cluster.toNat = .error st) :
    StepsRight read ctx loc ↔
      ¬ (2 ≤ (BitVec.ofInt 32 st).toNat ∧ (BitVec.ofInt 32 st).toNat ≤ ctx.clusterCount) := by
  have next := fatNextClus_error failed
  constructor
  · intro right inside
    have noEntry : ∀ entry, fatEntryForClus read ctx.toFat32Ctx loc.cluster.toNat = .ok entry →
        ¬ LinksOn ctx.clusterCount entry := by
      intro entry entryOk
      cases failed.symm.trans entryOk
    obtain ⟨⟨other, notMoved⟩, -⟩ := right.fails noEntry
    rw [if_pos inside] at next
    cases next.symm.trans notMoved
  · intro outside
    rw [if_neg outside] at next
    refine ⟨fun entry entryOk => ?_, fun _ => ⟨⟨_, next⟩, _, fatAdvanceLocClus_error failed⟩⟩
    cases failed.symm.trans entryOk

end

/-- The two steps along a chain are right exactly where comparing the whole entry loses nothing, and
    the errno of a failed read is no data cluster. -/
theorem stepsRight_iff (read : PartRead) (ctx : Fat32DirCtx) (loc : FatEntryLoc) :
    StepsRight read ctx loc ↔
      match fatEntryForClus read ctx.toFat32Ctx loc.cluster.toNat with
      | .ok entry => ComparesWhole ctx.clusterCount entry
      | .error st =>
        ¬ (2 ≤ (BitVec.ofInt 32 st).toNat ∧ (BitVec.ofInt 32 st).toNat ≤ ctx.clusterCount) := by
  cases result : fatEntryForClus read ctx.toFat32Ctx loc.cluster.toNat with
  | ok entry => exact stepsRight_entry result
  | error st => exact stepsRight_error result

/-- As in `deletedFiles`, but the chain of cluster 2 goes on in the last cluster, 131008. -/
def lastClusterByte (addr : Nat) : Byte :=
  if 32 * 512 + 8 ≤ addr ∧ addr < 32 * 512 + 12 then
    [0xc0, 0xff, 0x01, 0x00].getD (addr - (32 * 512 + 8)) 0
  else deletedFilesByte addr

def lastClusterLinked : FatBlkdev where
  sectorsize := 512
  read sec n :=
    if sec + n ≤ 2 ^ 22 then .ok fun i => lastClusterByte (sec * 512 + i) else .error (-22)

theorem not_stepsRight_lastCluster : FatAccepted lastClusterLinked deletedFilesCtx ∧
    fatEntryForClus lastClusterLinked.read deletedFilesCtx.toFat32Ctx 2 =
      .ok (deletedFilesCtx.clusterCount + 1) ∧
    fatNextClus lastClusterLinked.read deletedFilesCtx.toFat32Ctx 2 = .error (-22) ∧
    ¬ StepsRight lastClusterLinked.read deletedFilesCtx ⟨2, 0, true⟩ := by
  have boot : FatBootRecord.load (fun i => lastClusterByte (0 * 512 + i)) =
      ⟨512, 32, 32, 2, 0, 0, 0, 2 ^ 22⟩ := by rfl
  have boot32 : Fat32BootRecord.load (fun i => lastClusterByte (0 * 512 + i)) = ⟨1024, 2⟩ := by rfl
  have sector : lastClusterLinked.read 0 1 = .ok fun i => lastClusterByte (0 * 512 + i) := rfl
  have accepted : FatAccepted lastClusterLinked deletedFilesCtx := by
    refine ⟨by decide, ?_, rfl⟩
    unfold fatParseMetadata
    rw [sector]
    dsimp only
    rw [boot, boot32]
    rfl
  have entry : fatEntryForClus lastClusterLinked.read deletedFilesCtx.toFat32Ctx 2 =
      .ok (deletedFilesCtx.clusterCount + 1) := by rfl
  refine ⟨accepted, entry, by rfl, fun right => ?_⟩
  obtain ⟨cluster, moved, -⟩ := right.moves _ entry ⟨by decide, by decide⟩
  have failed : fatNextClus lastClusterLinked.read deletedFilesCtx.toFat32Ctx 2 = .error (-22) := by
    rfl
  cases failed.symm.trans moved

end Dxgmx
