import Dxgmx.Kstdlib.String
import Dxgmx.Utils.Words
import Dxgmx.Fs.Fs

open Library

namespace Dxgmx

inductive FatType
  | fat12
  | fat16
  | fat32
  deriving DecidableEq, Repr

/-- The fields of a `FAT32Ctx` that reading a file uses. -/
structure Fat32Ctx where
  sectorsize : Nat
  sectorsPerCluster : Nat
  clusterCount : Nat
  reservedSectorCount : Nat
  firstDataSector : Nat
  clustersize : Nat
  type : FatType

/-- `part->read`: the bytes of `n` sectors from a block on, or a negative errno. -/
abbrev PartRead := Nat → Nat → Except Int (Nat → Byte)

def fatEntryForClus (read : PartRead) (ctx : Fat32Ctx) (clus : Nat) : Except Int Nat := do
  let fatOffset := if ctx.type = .fat32 then clus * 4 % 2 ^ 32 else clus * 2 % 2 ^ 32
  let sec := (ctx.reservedSectorCount + fatOffset / ctx.sectorsize) % 2 ^ 32
  let buf ← read sec 1
  pure (readU32 buf (fatOffset % ctx.sectorsize))

/-- The entry, or the errno of a failed read, is taken as a `u32`. -/
def fatNextClus (read : PartRead) (ctx : Fat32Ctx) (clus : Nat) : Except Int Nat :=
  let next := match fatEntryForClus read ctx clus with
    | .ok entry => entry
    | .error st => (BitVec.ofInt 32 st).toNat
  if 2 ≤ next ∧ next ≤ ctx.clusterCount then .ok next else .error (-22)

def fatClusterToSector (ctx : Fat32Ctx) (cluster : Nat) : Nat :=
  ((cluster + 2 ^ 32 - 2) * ctx.sectorsPerCluster + ctx.firstDataSector) % 2 ^ 32

/-- The loop that skips whole clusters. -/
def fatSkipClusters (read : PartRead) (ctx : Fat32Ctx) :
    (clusterOffset cluster : Nat) → Except Int Nat
  | 0, cluster => .ok cluster
  | left + 1, cluster => do
    let cluster ← fatNextClus read ctx cluster
    fatSkipClusters read ctx left cluster

/-- The reading loop. The working size is a multiple of the cluster size, `left` of them, and cluster
    number `clusbufOff` goes to its place in `clusbuf`. -/
def fatReadClusters (read : PartRead) (ctx : Fat32Ctx) :
    (left clusbufOff cluster : Nat) → (Nat → Byte) → Except Int (Nat → Byte)
  | 0, _, _, clusbuf => .ok clusbuf
  | left + 1, clusbufOff, cluster, clusbuf => do
    let bytes ← read (fatClusterToSector ctx cluster) ctx.sectorsPerCluster
    let place := clusbufOff * ctx.clustersize
    let clusbuf := fun m =>
      if place ≤ m ∧ m < place + ctx.sectorsPerCluster * ctx.sectorsize then bytes (m - place)
      else clusbuf m
    let cluster ← fatNextClus read ctx cluster
    fatReadClusters read ctx left (clusbufOff + 1) cluster clusbuf

/-- The parts of a vnode that reading uses. -/
structure FileVnode where
  n : Nat
  size : BitVec 32

/-- `fatbuf` says whether the first `kmalloc` succeeds, `clusbuf` is the memory from the second block
    on if that one does. `userCopyTo` copies to the buffer of the caller; its result is dropped. -/
def fatRead {μ : Type} (read : PartRead) (ctx : Fat32Ctx) (vnode : FileVnode) (fatbuf : Bool)
    (clusbuf : Option (Nat → Byte)) (userCopyTo : (Nat → Byte) → Nat → μ → Int × μ)
    (n : BitVec 32) (off : BitVec 32) (mem : μ) : Int × μ :=
  if n = 0 ∨ vnode.size ≤ off then (0, mem)
  else
    let n := min n.toNat (vnode.size - off).toNat
    if fatbuf = false then (-12, mem)
    else
      match fatSkipClusters read ctx (off.toNat / ctx.clustersize) vnode.n with
      | .error st => (st, mem)
      | .ok cluster =>
        let wanted := BitVec.ofNat 64 ((n + off.toNat % ctx.clustersize) % 2 ^ 32)
        let workingSize :=
          (bytesAlignUp64 wanted (BitVec.ofNat 64 ctx.clustersize)).toNat % 2 ^ 32
        match clusbuf with
        | none => (-12, mem)
        | some clusbuf =>
          match fatReadClusters read ctx (workingSize / ctx.clustersize) 0 cluster clusbuf with
          | .error st => (st, mem)
          | .ok clusbuf =>
            let (_, mem) := userCopyTo (fun m => clusbuf (off.toNat + m)) n mem
            ((BitVec.ofNat 32 n).toInt, mem)

/-- What the driver uses of the device it is mounted from. -/
structure FatBlkdev where
  sectorsize : Nat
  read : PartRead

structure FatBootRecord where
  sectorsize : Nat
  sectorsPerCluster : Nat
  reservedSectorCount : Nat
  fatCount : Nat
  rootDirEntriesCount : Nat
  sectorCount16 : Nat
  sectorsPerFat16 : Nat
  sectorsCount32 : Nat

structure Fat32BootRecord where
  sectorsPerFat32 : Nat
  rootDirCluster : BitVec 32

def FatBootRecord.load (buf : Nat → Byte) : FatBootRecord where
  sectorsize := (readU16 buf 11).toNat
  sectorsPerCluster := (buf 13).toNat
  reservedSectorCount := (readU16 buf 14).toNat
  fatCount := (buf 16).toNat
  rootDirEntriesCount := (readU16 buf 17).toNat
  sectorCount16 := (readU16 buf 19).toNat
  sectorsPerFat16 := (readU16 buf 22).toNat
  sectorsCount32 := readU32 buf 32

/-- It stands behind the 36 bytes of the first record. -/
def Fat32BootRecord.load (buf : Nat → Byte) : Fat32BootRecord where
  sectorsPerFat32 := readU32 buf 36
  rootDirCluster := BitVec.ofNat 32 (readU32 buf 44)

/-- The fields of a `FAT32Ctx` that reading a directory uses besides. -/
structure Fat32DirCtx extends Fat32Ctx where
  rootDirCluster : BitVec 32
  entriesPerClusterdir : Nat

/-- `mem` says whether there is memory for a sector. -/
def fatValidate (mem : Bool) (blkdev : FatBlkdev) : Int :=
  if mem = false then -12
  else
    match blkdev.read 0 1 with
    | .error st => st
    | .ok buf =>
      let bpb := FatBootRecord.load buf
      let bpb32 := Fat32BootRecord.load buf
      if bpb.sectorsize ≠ blkdev.sectorsize then -22
      else if bpb.sectorsPerFat16 = 0 ∧ bpb32.sectorsPerFat32 ≠ 0 ∨ bpb.sectorsPerFat16 ≠ 0 then
        if bpb.sectorsize ∈ [512, 1024, 2048, 4096] then 0 else -22
      else -22

/-- The sizes are divided by what stands in the boot record. -/
def fatParseMetadata (mem : Bool) (blkdev : FatBlkdev) : Exec (Except Int Fat32DirCtx) :=
  if mem = false then .ok (.error (-12))
  else
    match blkdev.read 0 1 with
    | .error st => .ok (.error st)
    | .ok buf =>
      let bpb := FatBootRecord.load buf
      let bpb32 := Fat32BootRecord.load buf
      let sectorsPerFat :=
        if bpb.sectorsPerFat16 = 0 then bpb32.sectorsPerFat32 else bpb.sectorCount16
      let sectorCount := max bpb.sectorCount16 bpb.sectorsCount32
      if bpb.sectorsize = 0 ∨ bpb.sectorsPerCluster = 0 then .error .fault
      else
        let rootDirSectorCount :=
          (bpb.rootDirEntriesCount * 32 + (bpb.sectorsize - 1)) / bpb.sectorsize % 2 ^ 16
        let firstDataSector :=
          (bpb.reservedSectorCount + bpb.fatCount * sectorsPerFat + rootDirSectorCount) % 2 ^ 32
        let dataSectorCount := (sectorCount + 2 ^ 32 - firstDataSector) % 2 ^ 32
        let clusterCount := dataSectorCount / bpb.sectorsPerCluster
        let clustersize := bpb.sectorsPerCluster * bpb.sectorsize
        .ok (.ok {
          sectorsize := bpb.sectorsize
          sectorsPerCluster := bpb.sectorsPerCluster
          clusterCount := clusterCount
          reservedSectorCount := bpb.reservedSectorCount
          firstDataSector := firstDataSector
          clustersize := clustersize
          type := if clusterCount < 4085 then .fat12 else if clusterCount < 65525 then .fat16
            else .fat32
          rootDirCluster := if clusterCount < 65525 then 0 else bpb32.rootDirCluster
          entriesPerClusterdir := clustersize / 32 })

/-- The 32 bytes of an entry, which are a `FATEntry` or a `FATLFNEntry`. -/
structure FatEntry where
  bytes : Nat → Byte

namespace FatEntry

def name (entry : FatEntry) : List Byte := (List.range 8).map entry.bytes

def ext (entry : FatEntry) : List Byte := (List.range 3).map fun i => entry.bytes (8 + i)

def attributes (entry : FatEntry) : Byte := entry.bytes 11

def cluster (entry : FatEntry) : BitVec 32 :=
  (readU16 entry.bytes 20).setWidth 32 <<< 16 ||| (readU16 entry.bytes 26).setWidth 32

def fileSize (entry : FatEntry) : BitVec 32 := BitVec.ofNat 32 (readU32 entry.bytes 28)

def order (entry : FatEntry) : Byte := entry.bytes 0

end FatEntry

def fatEntryVolId : Byte := 0x08

def fatEntryDir : Byte := 0x10

def fatEntryLfn : Byte := 0x0f

def fatFileMode : BitVec 32 := 0x1ed

def fatDirMode : BitVec 32 := fatFileMode ||| 0x4000

/-- The mode is that of a directory: `(mode & S_IFMT) == S_IFDIR`. -/
def isFatDir (mode : BitVec 32) : Bool := mode &&& 0xf000 = 0x4000

structure FatEntryLoc where
  cluster : BitVec 32
  offset : BitVec 8
  readNext : Bool
  deriving DecidableEq, Repr

inductive FatClusterType
  | free
  | used
  | reserved
  | bad
  | eof
  | broken
  deriving DecidableEq, Repr

section

variable (read : PartRead) (ctx : Fat32DirCtx)

def fatClusterType (cluster : BitVec 32) : Except Int FatClusterType := do
  let fat ← fatEntryForClus read ctx.toFat32Ctx cluster.toNat
  if fat = 0 then pure .free
  else if fat ≤ ctx.clusterCount then pure .used
  else if fat ≤ 0xffffff6 then pure .reserved
  else if fat = 0xffffff7 then pure .bad
  else if 0xffffff8 ≤ fat then pure .eof
  else pure .broken

def fatReadOneCluster (clus : BitVec 32) : Except Int (Nat → Byte) :=
  read (fatClusterToSector ctx.toFat32Ctx clus.toNat) ctx.sectorsPerCluster

def fatAdvanceLoc (loc : FatEntryLoc) : FatEntryLoc :=
  if loc.offset.toNat + 1 = ctx.entriesPerClusterdir then
    { loc with offset := 0, readNext := true }
  else { loc with offset := loc.offset + 1, readNext := false }

def fatAdvanceLocClus (loc : FatEntryLoc) : Except Int FatEntryLoc := do
  let nextCluster ← fatEntryForClus read ctx.toFat32Ctx loc.cluster.toNat
  if 2 ≤ nextCluster ∧ nextCluster ≤ ctx.clusterCount then
    pure { loc with cluster := BitVec.ofNat 32 nextCluster, readNext := false }
  else .error (-22)

def fatReadOneEntry (clustersrc : Nat → Byte) (idx : Nat) : FatEntry :=
  ⟨fun i => clustersrc (idx * 32 + i)⟩

def fatEntryIsLastInDir (entry : FatEntry) : Bool := entry.bytes 0 = 0

def fatIsEntryDeleted (entry : FatEntry) : Bool := entry.bytes 0 = 0xe5

def fatIsDotOrDotdot (entry : FatEntry) : Bool :=
  if entry.bytes 1 = 0x20 then entry.bytes 0 = dot
  else if entry.bytes 2 = 0x20 then entry.bytes 0 = dot ∧ entry.bytes 1 = dot
  else false

/-- What `strcpy` takes of a part of a name: it is padded with spaces. -/
def fatLegacyPart (part : List Byte) : List Byte :=
  let lower := (part.takeWhile (· ≠ 0x20)).map fun c => if 0x41 ≤ c ∧ c ≤ 0x5a then c + 32 else c
  lower.takeWhile (· ≠ 0)

def fatCopyLegacyName (entry : FatEntry) : List Byte :=
  if entry.bytes 8 = 0x20 then fatLegacyPart entry.name
  else fatLegacyPart entry.name ++ dot :: fatLegacyPart entry.ext

def fatLfnEntriesCount (lfnEntry : FatEntry) : Nat := (lfnEntry.order &&& ~~~0x40).toNat

def fatLfnNameSize (lfnEntry : FatEntry) : Nat := fatLfnEntriesCount lfnEntry * 13 + 1

/-- `n` characters of a long name, of which each keeps its low byte. -/
def fatLfnPart (lfnEntry : FatEntry) (off n : Nat) : List Byte :=
  let chars := (List.range n).map fun k => readU16 lfnEntry.bytes (off + 2 * k)
  (chars.takeWhile fun c => c ≠ 0 ∧ c ≠ 0xffff).map (BitVec.setWidth 8)

def fatLfnName (lfnEntry : FatEntry) : List Byte :=
  fatLfnPart lfnEntry 1 5 ++ fatLfnPart lfnEntry 14 6 ++ fatLfnPart lfnEntry 28 2

/-- The step to the next cluster, if the location asks for it. A failure keeps the location it leaves
    behind. -/
def fatReadNext (loc : FatEntryLoc) : Except (Int × FatEntryLoc) FatEntryLoc :=
  if loc.readNext then
    match fatAdvanceLocClus read ctx loc with
    | .error st => .error (st, loc)
    | .ok loc =>
      match fatClusterType read ctx loc.cluster with
      | .ok .used => .ok loc
      | .ok .eof => .ok loc
      | _ => .error (-22, loc)
  else .ok loc

def fatReadNextCluster (clusterbuf : Nat → Byte) (loc : FatEntryLoc) :
    Except (Int × FatEntryLoc) (FatEntryLoc × (Nat → Byte)) :=
  if loc.readNext then do
    let loc ← fatReadNext read ctx loc
    match fatReadOneCluster read ctx loc.cluster with
    | .error st => .error (st, loc)
    | .ok clusterbuf => .ok (loc, clusterbuf)
  else .ok (loc, clusterbuf)

/-- The loop of `fat_read_lfns`, of which `left` entries may follow. -/
def fatReadLfns : (left : Nat) → (clusterbuf : Nat → Byte) → FatEntryLoc → (dest : Nat → Byte) →
    FatEntry → Except (Int × FatEntryLoc) (FatEntryLoc × (Nat → Byte) × FatEntry)
  | 0, _, loc, dest, entry =>
    if entry.attributes = fatEntryLfn then .error (-22, loc) else .ok (loc, dest, entry)
  | left + 1, clusterbuf, loc, dest, entry =>
    if entry.attributes = fatEntryLfn then do
      let dest := storeBytes dest (left * 13) (fatLfnName entry)
      let (loc, clusterbuf) ← fatReadNextCluster read ctx clusterbuf loc
      let entry := fatReadOneEntry clusterbuf loc.offset.toNat
      fatReadLfns left clusterbuf (fatAdvanceLoc ctx loc) dest entry
    else .ok (loc, dest, entry)

/-- What `kmalloc` answers while one entry is read: to the two buffers, to the name, to the vnode and
    to its own name and list node. The vnode takes the address `fresh`. -/
structure FatDirMem where
  fatbuf : Bool
  clusbuf : Bool
  name : Bool
  vnode : Bool
  linked : Bool
  fresh : VirtualNodeRef

/-- The fields of a vnode that an entry fills. -/
structure FatVnode where
  name : Option (List Byte)
  n : BitVec 32
  mode : BitVec 32
  size : BitVec 32

def FatEntry.fill (entry : FatEntry) (name : Option (List Byte)) : FatVnode where
  name := name
  n := entry.cluster
  mode := if entry.attributes &&& fatEntryDir ≠ 0 then fatDirMode else fatFileMode
  size := entry.fileSize

/-- What is made of an entry of a cluster that has been read. Without memory for a short name the
    call returns what reading the cluster returned, which is no error. -/
def fatEntryToVnode (name : Bool) (clusbuf : Nat → Byte) (loc : FatEntryLoc) :
    Except (Int × FatEntryLoc) (FatEntryLoc × FatVnode) :=
  let entry := fatReadOneEntry clusbuf loc.offset.toNat
  if fatEntryIsLastInDir entry then .error (-2, loc)
  else
    let loc := fatAdvanceLoc ctx loc
    if fatIsEntryDeleted entry ∨ fatIsDotOrDotdot entry then .error (-11, loc)
    else if entry.attributes = fatEntryLfn then
      if name = false then .error (-12, loc)
      else do
        let (loc, dest, last) ←
          fatReadLfns read ctx (fatLfnEntriesCount entry) clusbuf loc (fun _ => 0) entry
        let name := (List.range (fatLfnNameSize entry)).map dest
        .ok (loc, last.fill (some (name.takeWhile (· ≠ 0))))
    else if entry.attributes = fatEntryVolId then .error (-11, loc)
    else .ok (loc, entry.fill (if name then some (fatCopyLegacyName entry) else none))

def fatDirEntryToVnode (mem : FatDirMem) (loc : FatEntryLoc) :
    Except (Int × FatEntryLoc) (FatEntryLoc × FatVnode) :=
  if mem.fatbuf = false then .error (-12, loc)
  else do
    let loc ← fatReadNext read ctx loc
    if mem.clusbuf = false then .error (-12, loc)
    else
      match fatReadOneCluster read ctx loc.cluster with
      | .error st => .error (st, loc)
      | .ok clusbuf => fatEntryToVnode read ctx mem.name clusbuf loc

end

/-- `fs_new_vnode_cache` and the fields that are set behind it. It takes the name of no vnode as a
    string. -/
def fatCacheVnode (mem : FatDirMem) (dir : VirtualNode) (vnode : FatVnode) (fs : FileSystem) :
    Exec (Option VirtualNode × FileSystem) :=
  match vnode.name with
  | none => if mem.vnode then .error .fault else .ok (none, fs)
  | some name =>
    match fsNewVnodeCache (mem.vnode && mem.linked) mem.fresh name fs with
    | none => .ok (none, fs)
    | some (cached, fs) =>
      let cached := { cached with
        n := vnode.n.toNat, mode := vnode.mode, size := vnode.size, parent := some dir.addr }
      .ok (some cached, fs.setVnode cached)

/-- How a turn of the loop of `fat_enumerate_and_cache_dir` ends. -/
inductive FatTurn
  | done (st : Int)
  | skipped (loc : FatEntryLoc)
  | cached (loc : FatEntryLoc) (vnode : VirtualNode)

/-- A turn of the loop up to the recursion. -/
def fatEnumerateEntry (read : PartRead) (ctx : Fat32DirCtx) (mem : FatDirMem) (dir : VirtualNode)
    (loc : FatEntryLoc) (fs : FileSystem) : Exec (FatTurn × FileSystem) :=
  match fatDirEntryToVnode read ctx mem loc with
  | .error (st, loc) =>
    if st = -11 then .ok (.skipped loc, fs)
    else if st = -2 then .ok (.done 0, fs)
    else .ok (.done st, fs)
  | .ok (loc, vnode) => do
    let (cached, fs) ← fatCacheVnode mem dir vnode fs
    match cached with
    | none => .ok (.skipped loc, fs)
    | some cached => .ok (.cached loc cached, fs)

mutual

/-- The loop of `fat_enumerate_and_cache_dir`. `turn` counts the turns in all directories: `mem` says
    what `kmalloc` answers in each of them. -/
def fatEnumerateDir (mem : Nat → FatDirMem) (read : PartRead) (ctx : Fat32DirCtx) :
    (fuel : Nat) → (dir : VirtualNode) → FatEntryLoc → (turn : Nat) → FileSystem →
      Exec (Int × Nat × FileSystem)
  | 0, _, _, _, _ => .error .fuel
  | fuel + 1, dir, loc, turn, fs => do
    let (entry, fs) ← fatEnumerateEntry read ctx (mem turn) dir loc fs
    match entry with
    | .done st => .ok (st, turn + 1, fs)
    | .skipped loc => fatEnumerateDir mem read ctx fuel dir loc (turn + 1) fs
    | .cached loc cached =>
      if isFatDir cached.mode then do
        let (_, turn, fs) ← fatEnumerateAndCacheDir mem read ctx fuel cached (turn + 1) fs
        fatEnumerateDir mem read ctx fuel dir loc turn fs
      else fatEnumerateDir mem read ctx fuel dir loc (turn + 1) fs

def fatEnumerateAndCacheDir (mem : Nat → FatDirMem) (read : PartRead) (ctx : Fat32DirCtx) :
    (fuel : Nat) → (dir : VirtualNode) → (turn : Nat) → FileSystem → Exec (Int × Nat × FileSystem)
  | 0, _, _, _ => .error .fuel
  | fuel + 1, dir, turn, fs => do
    assert (isFatDir dir.mode)
    fatEnumerateDir mem read ctx fuel dir ⟨BitVec.ofNat 32 dir.n, 0, false⟩ turn fs

end

end Dxgmx
