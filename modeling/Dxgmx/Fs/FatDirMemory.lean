import Dxgmx.Fs.FatGeometry
import Dxgmx.Kstdlib.StdioBound
import Dxgmx.Library.Blocks
import Dxgmx.Library.InPlace

open Library Relation

namespace Dxgmx

abbrev FatHeap := Blocks (List Byte)

/-- What a read that fails leaves of the bytes of its buffer is up to the device. -/
structure FatDevice extends FatBlkdev where
  partly : Nat → Nat → List Byte → List Byte
  keepsLength : ∀ sec n block, (partly sec n block).length = block.length

/-- The addresses that `kmalloc` gives to the two buffers and to a name, of which 0 is NULL, and what
    stands there before they are written to. -/
structure FatDirBlocks where
  fatbuf : Nat
  clusbuf : Nat
  name : Nat
  junk : Nat → Nat → Byte

/-- No address is handed out while it is in use. -/
structure FatDirBlocks.Fresh (blocks : FatDirBlocks) (heap : FatHeap) : Prop where
  fatbuf : heap blocks.fatbuf = none
  clusbuf : heap blocks.clusbuf = none
  name : heap blocks.name = none
  clusbufOther : blocks.clusbuf ≠ 0 → blocks.clusbuf ≠ blocks.fatbuf
  nameOther : blocks.name ≠ 0 → blocks.name ≠ blocks.fatbuf ∧ blocks.name ≠ blocks.clusbuf

/-- What the vnode keeps of an entry; its name is a pointer. -/
structure FatVnodeFields where
  name : Nat
  n : BitVec 32
  mode : BitVec 32
  size : BitVec 32

def FatEntry.fillFields (entry : FatEntry) (name : Nat) : FatVnodeFields where
  name := name
  n := entry.cluster
  mode := if entry.attributes &&& fatEntryDir ≠ 0 then fatDirMode else fatFileMode
  size := entry.fileSize

/-- Bytes stored in a block, from `i` on. -/
def storeIn (addr i : Nat) (bytes : List Byte) (heap : FatHeap) : Exec FatHeap := do
  let block ← heap.load addr
  let block ← putAll i bytes block
  heap.store addr block

/-- `part->read(part, sec, n, buf)`. -/
def FatDevice.readInto (dev : FatDevice) (sec n buf : Nat) (heap : FatHeap) :
    Exec (Except Int Unit × FatHeap) :=
  match dev.read sec n with
  | .error st => do
    let block ← heap.load buf
    let heap ← heap.store buf (dev.partly sec n block)
    pure (.error st, heap)
  | .ok bytes => do
    let heap ← storeIn buf 0 ((List.range (n * dev.sectorsize)).map bytes) heap
    pure (.ok (), heap)

def fatLegacyNameSize (entry : FatEntry) : Nat :=
  let size := (entry.name.takeWhile (· ≠ 0x20)).length
  let extSize := (entry.ext.takeWhile (· ≠ 0x20)).length
  if extSize = 0 then size + 1 else size + extSize + 1 + 1

section

variable (dev : FatDevice) (ctx : Fat32DirCtx)

def fatEntryForClusIn (clus buf : Nat) (heap : FatHeap) : Exec (Except Int Nat × FatHeap) := do
  let fatOffset := if ctx.type = .fat32 then clus * 4 % 2 ^ 32 else clus * 2 % 2 ^ 32
  let sec := (ctx.reservedSectorCount + fatOffset / ctx.sectorsize) % 2 ^ 32
  let (st, heap) ← dev.readInto sec 1 buf heap
  match st with
  | .error st => pure (.error st, heap)
  | .ok () => do
    let block ← heap.load buf
    let bytes ← fetchAll (fatOffset % ctx.sectorsize) 4 block
    pure (.ok (readU32 (fun i => bytes.getD i 0) 0), heap)

def fatClusterTypeIn (cluster : BitVec 32) (buf : Nat) (heap : FatHeap) :
    Exec (Except Int FatClusterType × FatHeap) := do
  let (fat, heap) ← fatEntryForClusIn dev ctx cluster.toNat buf heap
  match fat with
  | .error st => pure (.error st, heap)
  | .ok fat =>
    if fat = 0 then pure (.ok .free, heap)
    else if fat ≤ ctx.clusterCount then pure (.ok .used, heap)
    else if fat ≤ 0xffffff6 then pure (.ok .reserved, heap)
    else if fat = 0xffffff7 then pure (.ok .bad, heap)
    else if 0xffffff8 ≤ fat then pure (.ok .eof, heap)
    else pure (.ok .broken, heap)

def fatReadOneClusterIn (buf : Nat) (clus : BitVec 32) (heap : FatHeap) :
    Exec (Except Int Unit × FatHeap) :=
  dev.readInto (fatClusterToSector ctx.toFat32Ctx clus.toNat) ctx.sectorsPerCluster buf heap

def fatAdvanceLocClusIn (loc : FatEntryLoc) (buf : Nat) (heap : FatHeap) :
    Exec (Except Int FatEntryLoc × FatHeap) := do
  let (nextCluster, heap) ← fatEntryForClusIn dev ctx loc.cluster.toNat buf heap
  match nextCluster with
  | .error st => pure (.error st, heap)
  | .ok nextCluster =>
    if 2 ≤ nextCluster ∧ nextCluster ≤ ctx.clusterCount then
      pure (.ok { loc with cluster := BitVec.ofNat 32 nextCluster, readNext := false }, heap)
    else pure (.error (-22), heap)

def fatReadOneEntryIn (clustersrc idx : Nat) (heap : FatHeap) : Exec FatEntry := do
  let block ← heap.load clustersrc
  let bytes ← fetchAll (idx * 32) 32 block
  pure ⟨fun i => bytes.getD i 0⟩

def fatReadNextIn (fatbuf : Nat) (loc : FatEntryLoc) (heap : FatHeap) :
    Exec (Except (Int × FatEntryLoc) FatEntryLoc × FatHeap) :=
  if loc.readNext then do
    let (next, heap) ← fatAdvanceLocClusIn dev ctx loc fatbuf heap
    match next with
    | .error st => pure (.error (st, loc), heap)
    | .ok loc => do
      let (type, heap) ← fatClusterTypeIn dev ctx loc.cluster fatbuf heap
      match type with
      | .ok .used => pure (.ok loc, heap)
      | .ok .eof => pure (.ok loc, heap)
      | _ => pure (.error (-22, loc), heap)
  else pure (.ok loc, heap)

def fatReadNextClusterIn (clusterbuf fatbuf : Nat) (loc : FatEntryLoc) (heap : FatHeap) :
    Exec (Except (Int × FatEntryLoc) FatEntryLoc × FatHeap) :=
  if loc.readNext then do
    let (next, heap) ← fatReadNextIn dev ctx fatbuf loc heap
    match next with
    | .error stop => pure (.error stop, heap)
    | .ok loc => do
      let (st, heap) ← fatReadOneClusterIn dev ctx clusterbuf loc.cluster heap
      match st with
      | .error st => pure (.error (st, loc), heap)
      | .ok () => pure (.ok loc, heap)
  else pure (.ok loc, heap)

/-- The loop of `fat_read_lfns`: `left` is `total_lfns - lfn_entries_read`. -/
def fatReadLfnsIn (clusterbuf fatbuf dest : Nat) : (left : Nat) → FatEntryLoc → FatEntry → FatHeap →
    Exec (Except (Int × FatEntryLoc) (FatEntryLoc × FatEntry) × FatHeap)
  | 0, loc, entry, heap =>
    if entry.attributes = fatEntryLfn then pure (.error (-22, loc), heap)
    else pure (.ok (loc, entry), heap)
  | left + 1, loc, entry, heap =>
    if entry.attributes = fatEntryLfn then do
      let heap ← storeIn dest (left * 13) (fatLfnName entry) heap
      let (next, heap) ← fatReadNextClusterIn dev ctx clusterbuf fatbuf loc heap
      match next with
      | .error stop => pure (.error stop, heap)
      | .ok loc => do
        let entry ← fatReadOneEntryIn clusterbuf loc.offset.toNat heap
        fatReadLfnsIn clusterbuf fatbuf dest left (fatAdvanceLoc ctx loc) entry heap
    else pure (.ok (loc, entry), heap)

/-- The end of `fat_dir_entry_to_vnode`, on success and from `out_err` on. -/
def fatDirOut {α : Type} (blocks : FatDirBlocks) (res : α) (heap : FatHeap) : Exec (α × FatHeap) := do
  let heap ← heap.free blocks.fatbuf
  let heap ← heap.free blocks.clusbuf
  pure (res, heap)

/-- The long-name path. -/
def fatLongNameIn (blocks : FatDirBlocks) (loc : FatEntryLoc) (entry : FatEntry) (heap : FatHeap) :
    Exec (Except (Int × FatEntryLoc) (FatEntryLoc × FatVnodeFields) × FatHeap) :=
  if blocks.name = 0 then fatDirOut blocks (.error (-12, loc)) heap
  else do
    let heap ← heap.alloc blocks.name ((List.range (fatLfnNameSize entry)).map fun _ => 0)
    let (res, heap) ← fatReadLfnsIn dev ctx blocks.clusbuf blocks.fatbuf blocks.name
      (fatLfnEntriesCount entry) loc entry heap
    match res with
    | .error stop => do
      let heap ← heap.free blocks.name
      fatDirOut blocks (.error stop) heap
    | .ok (loc, last) => fatDirOut blocks (.ok (loc, last.fillFields blocks.name)) heap

/-- The legacy name is stored byte by byte, its terminator last. -/
def fatShortNameIn (blocks : FatDirBlocks) (loc : FatEntryLoc) (entry : FatEntry) (heap : FatHeap) :
    Exec (Except (Int × FatEntryLoc) (FatEntryLoc × FatVnodeFields) × FatHeap) :=
  if blocks.name = 0 then fatDirOut blocks (.ok (loc, entry.fillFields 0)) heap
  else do
    let heap ← heap.alloc blocks.name
      ((List.range (fatLegacyNameSize entry)).map (blocks.junk blocks.name))
    let heap ← storeIn blocks.name 0 (fatCopyLegacyName entry ++ [0]) heap
    fatDirOut blocks (.ok (loc, entry.fillFields blocks.name)) heap

def fatEntryToVnodeIn (blocks : FatDirBlocks) (loc : FatEntryLoc) (heap : FatHeap) :
    Exec (Except (Int × FatEntryLoc) (FatEntryLoc × FatVnodeFields) × FatHeap) := do
  let entry ← fatReadOneEntryIn blocks.clusbuf loc.offset.toNat heap
  if fatEntryIsLastInDir entry then fatDirOut blocks (.error (-2, loc)) heap
  else
    let loc := fatAdvanceLoc ctx loc
    if fatIsEntryDeleted entry ∨ fatIsDotOrDotdot entry then
      fatDirOut blocks (.error (-11, loc)) heap
    else if entry.attributes = fatEntryLfn then fatLongNameIn dev ctx blocks loc entry heap
    else if entry.attributes = fatEntryVolId then fatDirOut blocks (.error (-11, loc)) heap
    else fatShortNameIn blocks loc entry heap

/-- `fat_dir_entry_to_vnode` on the buffers it allocates. -/
def fatDirEntryToVnodeIn (blocks : FatDirBlocks) (loc : FatEntryLoc) (heap : FatHeap) :
    Exec (Except (Int × FatEntryLoc) (FatEntryLoc × FatVnodeFields) × FatHeap) :=
  if blocks.fatbuf = 0 then pure (.error (-12, loc), heap)
  else do
    let heap ← heap.alloc blocks.fatbuf ((List.range dev.sectorsize).map (blocks.junk blocks.fatbuf))
    let (next, heap) ← fatReadNextIn dev ctx blocks.fatbuf loc heap
    match next with
    | .error stop => do
      let heap ← heap.free blocks.fatbuf
      pure (.error stop, heap)
    | .ok loc =>
      if blocks.clusbuf = 0 then do
        let heap ← heap.free blocks.fatbuf
        pure (.error (-12, loc), heap)
      else do
        let heap ← heap.alloc blocks.clusbuf
          ((List.range ctx.clustersize).map (blocks.junk blocks.clusbuf))
        let (st, heap) ← fatReadOneClusterIn dev ctx blocks.clusbuf loc.cluster heap
        match st with
        | .error st => fatDirOut blocks (.error (st, loc)) heap
        | .ok () => fatEntryToVnodeIn dev ctx blocks loc heap

end

/-- What `fat_validate` and `fat_parse_metadata` leave of the sizes of an accepted volume. -/
structure FatSizes (dev : FatDevice) (ctx : Fat32DirCtx) : Prop where
  sectorsize : ctx.sectorsize = dev.sectorsize
  sizes : dev.sectorsize ∈ [512, 1024, 2048, 4096]
  type : ctx.type = .fat32
  clustersize : ctx.clustersize = ctx.sectorsPerCluster * dev.sectorsize
  entries : ctx.entriesPerClusterdir = ctx.clustersize / 32
  some_ : 0 < ctx.entriesPerClusterdir

section

variable {dev : FatDevice} {ctx : Fat32DirCtx} {heap base : FatHeap}

theorem fatAccepted_sizes (accepted : FatAccepted dev.toFatBlkdev ctx) : FatSizes dev ctx := by
  obtain ⟨valid, parsed, isFat32⟩ := accepted
  cases sector : dev.read 0 1 with
  | error st =>
    unfold fatParseMetadata at parsed
    rw [sector] at parsed
    cases parsed
  | ok buf =>
    have sizes := fatValidate_sectorsize sector valid
    have same : (FatBootRecord.load buf).sectorsize = dev.sectorsize := by
      unfold fatValidate at valid
      rw [sector] at valid
      by_contra other
      simp [other] at valid
    unfold fatParseMetadata at parsed
    rw [sector] at parsed
    dsimp only at parsed
    rw [if_neg (by simp)] at parsed
    split at parsed
    · cases parsed
    · rename_i divisors
      cases parsed
      have positive : 0 < (FatBootRecord.load buf).sectorsPerCluster := by
        by_contra none
        exact divisors (.inr (by omega))
      refine ⟨same, same ▸ sizes, isFat32, by rw [← same], rfl, ?_⟩
      dsimp only
      apply Nat.div_pos _ (by decide)
      have large : 32 ≤ (FatBootRecord.load buf).sectorsize := by
        simp only [List.mem_cons, List.not_mem_nil, or_false] at sizes
        omega
      exact Nat.le_trans large (Nat.le_mul_of_pos_left _ positive)

theorem storeIn_ok {addr i : Nat} {bytes block stored : List Byte} (live : heap addr = some block)
    (put : putAll i bytes block = .ok stored) :
    storeIn addr i bytes heap = .ok (Function.update heap addr (some stored)) := by
  unfold storeIn
  rw [Blocks.load_live live, Exec.ok_bind, put, Exec.ok_bind, Blocks.store_live live]

/-- A call that writes to one buffer only, within its `n` bytes, and returns `res`. -/
def UsesBuffer {ρ : Type} (buf n : Nat) (heap : FatHeap) (run : Exec (ρ × FatHeap)) (res : ρ) : Prop :=
  ∃ block : List Byte, block.length = n ∧ run = .ok (res, Function.update heap buf (some block))

section UsesBuffer

variable {ρ σ : Type} {buf n : Nat} {block : List Byte}

theorem usesBuffer_pure (live : heap buf = some block) (size : block.length = n) (res : ρ) :
    UsesBuffer buf n heap (pure (res, heap)) res := by
  refine ⟨block, size, ?_⟩
  rw [← live, Function.update_eq_self]
  rfl

theorem UsesBuffer.bind {run : Exec (ρ × FatHeap)} {res : ρ} {rest : ρ × FatHeap → Exec (σ × FatHeap)}
    {final : σ} (first : UsesBuffer buf n heap run res)
    (later : ∀ heap block, heap buf = some block → block.length = n →
      UsesBuffer buf n heap (rest (res, heap)) final) :
    UsesBuffer buf n heap (run >>= rest) final := by
  obtain ⟨block, size, done⟩ := first
  obtain ⟨block', size', finished⟩ := later _ block (Function.update_self ..) size
  refine ⟨block', size', ?_⟩
  rw [done, Exec.ok_bind, finished, Function.update_idem]

/-- A read of whole sectors into a buffer of their size. -/
theorem readInto_uses (live : heap buf = some block) {sec count : Nat}
    (size : block.length = count * dev.sectorsize) :
    match dev.read sec count with
    | .error st =>
      UsesBuffer buf (count * dev.sectorsize) heap (dev.readInto sec count buf heap) (.error st)
    | .ok bytes => dev.readInto sec count buf heap =
        .ok (.ok (), Function.update heap buf
          (some ((List.range (count * dev.sectorsize)).map bytes))) := by
  unfold FatDevice.readInto
  cases dev.read sec count with
  | error st =>
    refine ⟨dev.partly sec count block, (dev.keepsLength sec count block).trans size, ?_⟩
    dsimp only
    rw [Blocks.load_live live, Exec.ok_bind, Blocks.store_live live, Exec.ok_bind]
    rfl
  | ok bytes =>
    have put : putAll 0 ((List.range (count * dev.sectorsize)).map bytes) block =
        .ok ((List.range (count * dev.sectorsize)).map bytes) := by
      apply putAll_whole
      rw [size, List.length_map, List.length_range]
    dsimp only
    rw [storeIn_ok live put]
    rfl

end UsesBuffer

section

variable {buf : Nat} {block : List Byte} {loc : FatEntryLoc}

theorem fatEntryForClusIn_uses (sizes : FatSizes dev ctx) (live : heap buf = some block)
    (size : block.length = dev.sectorsize) (clus : Nat) :
    UsesBuffer buf dev.sectorsize heap (fatEntryForClusIn dev ctx clus buf heap)
      (fatEntryForClus dev.read ctx.toFat32Ctx clus) := by
  unfold fatEntryForClusIn fatEntryForClus
  rw [if_pos sizes.type]
  dsimp only
  generalize (ctx.reservedSectorCount + clus * 4 % 2 ^ 32 / ctx.sectorsize) % 2 ^ 32 = sec
  have read := @readInto_uses dev heap buf block live sec 1 (by rw [size, Nat.one_mul])
  cases sector : dev.read sec 1 with
  | error st =>
    rw [sector] at read
    dsimp only at read
    rw [Nat.one_mul] at read
    exact read.bind fun heap block live size => usesBuffer_pure live size _
  | ok bytes =>
    have inside : clus * 4 % 2 ^ 32 % ctx.sectorsize + 4 ≤ 1 * dev.sectorsize := by
      have sizes' := sizes.sizes
      simp only [List.mem_cons, List.not_mem_nil, or_false] at sizes'
      rw [sizes.sectorsize]
      rcases sizes' with same | same | same | same <;> rw [same] <;> omega
    rw [sector] at read
    dsimp only at read
    refine ⟨(List.range (1 * dev.sectorsize)).map bytes, by simp, ?_⟩
    rw [read, Exec.ok_bind]
    dsimp only
    rw [Blocks.load_live (Function.update_self ..), Exec.ok_bind, fetchAll_tabulated inside,
      Exec.ok_bind]
    rfl

theorem fatClusterTypeIn_uses (sizes : FatSizes dev ctx) (live : heap buf = some block)
    (size : block.length = dev.sectorsize) (cluster : BitVec 32) :
    UsesBuffer buf dev.sectorsize heap (fatClusterTypeIn dev ctx cluster buf heap)
      (fatClusterType dev.read ctx cluster) := by
  unfold fatClusterTypeIn fatClusterType
  apply (fatEntryForClusIn_uses sizes live size cluster.toNat).bind
  intro heap block live size
  cases fatEntryForClus dev.read ctx.toFat32Ctx cluster.toNat with
  | error st => exact usesBuffer_pure live size _
  | ok fat =>
    simp only [bind, Except.bind]
    split_ifs <;> exact usesBuffer_pure live size _

theorem fatAdvanceLocClusIn_uses (sizes : FatSizes dev ctx) (live : heap buf = some block)
    (size : block.length = dev.sectorsize) (loc : FatEntryLoc) :
    UsesBuffer buf dev.sectorsize heap (fatAdvanceLocClusIn dev ctx loc buf heap)
      (fatAdvanceLocClus dev.read ctx loc) := by
  unfold fatAdvanceLocClusIn fatAdvanceLocClus
  apply (fatEntryForClusIn_uses sizes live size loc.cluster.toNat).bind
  intro heap block live size
  cases fatEntryForClus dev.read ctx.toFat32Ctx loc.cluster.toNat with
  | error st => exact usesBuffer_pure live size _
  | ok next =>
    simp only [bind, Except.bind]
    split_ifs <;> exact usesBuffer_pure live size _

theorem fatReadNextIn_uses (sizes : FatSizes dev ctx) (live : heap buf = some block)
    (size : block.length = dev.sectorsize) (loc : FatEntryLoc) :
    UsesBuffer buf dev.sectorsize heap (fatReadNextIn dev ctx buf loc heap)
      (fatReadNext dev.read ctx loc) := by
  unfold fatReadNextIn fatReadNext
  by_cases next : loc.readNext
  · rw [if_pos next, if_pos next]
    apply (fatAdvanceLocClusIn_uses sizes live size loc).bind
    intro heap block live size
    cases fatAdvanceLocClus dev.read ctx loc with
    | error st => exact usesBuffer_pure live size _
    | ok loc =>
      apply (fatClusterTypeIn_uses sizes live size loc.cluster).bind
      intro heap block live size
      dsimp only
      cases fatClusterType dev.read ctx loc.cluster with
      | error st => exact usesBuffer_pure live size _
      | ok type => cases type <;> exact usesBuffer_pure live size _
  · rw [if_neg next, if_neg next]
    exact usesBuffer_pure live size _

end

/-- The 32 bytes that are read of an entry. -/
def FatEntry.cut (entry : FatEntry) : FatEntry := ⟨fun i => if i < 32 then entry.bytes i else 0⟩

section Cut

variable (entry : FatEntry)

theorem attributes_cut : entry.cut.attributes = entry.attributes := rfl

theorem fatEntryIsLastInDir_cut : fatEntryIsLastInDir entry.cut = fatEntryIsLastInDir entry := rfl

theorem fatIsEntryDeleted_cut : fatIsEntryDeleted entry.cut = fatIsEntryDeleted entry := rfl

theorem fatIsDotOrDotdot_cut : fatIsDotOrDotdot entry.cut = fatIsDotOrDotdot entry := rfl

theorem fatLfnEntriesCount_cut : fatLfnEntriesCount entry.cut = fatLfnEntriesCount entry := rfl

theorem fatLfnNameSize_cut : fatLfnNameSize entry.cut = fatLfnNameSize entry := rfl

theorem readU16_cut {off : Nat} (inside : off + 1 < 32) :
    readU16 entry.cut.bytes off = readU16 entry.bytes off := by
  unfold readU16 FatEntry.cut
  dsimp only
  rw [if_pos (by omega), if_pos inside]

theorem fatLfnPart_cut {off n : Nat} (inside : off + 2 * n ≤ 32) :
    fatLfnPart entry.cut off n = fatLfnPart entry off n := by
  unfold fatLfnPart
  have same : (List.range n).map (fun k => readU16 entry.cut.bytes (off + 2 * k)) =
      (List.range n).map fun k => readU16 entry.bytes (off + 2 * k) := by
    apply List.map_congr_left
    intro k member
    have small := List.mem_range.mp member
    exact readU16_cut entry (by omega)
  rw [same]

theorem fatLfnName_cut : fatLfnName entry.cut = fatLfnName entry := by
  unfold fatLfnName
  rw [fatLfnPart_cut entry (by decide), fatLfnPart_cut entry (by decide),
    fatLfnPart_cut entry (by decide)]

theorem fatLegacyNameSize_cut : fatLegacyNameSize entry.cut = fatLegacyNameSize entry := rfl

theorem fatCopyLegacyName_cut : fatCopyLegacyName entry.cut = fatCopyLegacyName entry := rfl

end Cut

theorem fatLfnPart_length (entry : FatEntry) (off n : Nat) : (fatLfnPart entry off n).length ≤ n := by
  unfold fatLfnPart
  rw [List.length_map]
  have shorter := (List.takeWhile_sublist (fun c : BitVec 16 => decide (c ≠ 0 ∧ c ≠ 0xffff))
    (l := (List.range n).map fun k => readU16 entry.bytes (off + 2 * k))).length_le
  rwa [List.length_map, List.length_range] at shorter

theorem fatLfnName_length (entry : FatEntry) : (fatLfnName entry).length ≤ 13 := by
  have first := fatLfnPart_length entry 1 5
  have second := fatLfnPart_length entry 14 6
  have third := fatLfnPart_length entry 28 2
  unfold fatLfnName
  rw [List.length_append, List.length_append]
  omega

theorem fatReadOneEntryIn_ok {clustersrc idx size : Nat} {clusterbuf : Nat → Byte}
    (live : heap clustersrc = some ((List.range size).map clusterbuf)) (inside : idx * 32 + 32 ≤ size) :
    fatReadOneEntryIn clustersrc idx heap = .ok (fatReadOneEntry clusterbuf idx).cut := by
  unfold fatReadOneEntryIn
  rw [Blocks.load_live live, Exec.ok_bind, fetchAll_tabulated inside, Exec.ok_bind]
  congr 1
  unfold FatEntry.cut
  congr 1
  funext i
  by_cases small : i < 32
  · simp [small, fatReadOneEntry]
  · simp [small]

theorem putAll_tabulated {n i : Nat} {f : Nat → Byte} {bytes : List Byte}
    (inside : bytes = [] ∨ i + bytes.length ≤ n) :
    putAll i bytes ((List.range n).map f) = .ok ((List.range n).map (storeBytes f i bytes)) := by
  induction bytes generalizing i f with
  | nil => rfl
  | cons byte bytes ih =>
    rw [List.length_cons] at inside
    have room : i + (bytes.length + 1) ≤ n := by simpa using inside
    unfold putAll storeBytes
    rw [put_tabulated (by omega), Exec.ok_bind]
    exact ih (.inr (by omega))

/-- Both buffers are allocated at their sizes, and the rest of the heap is that of `base`. -/
structure FatBuffersLive (dev : FatDevice) (ctx : Fat32DirCtx) (blocks : FatDirBlocks)
    (base heap : FatHeap) : Prop where
  other : blocks.clusbuf ≠ blocks.fatbuf
  fatbuf : ∃ block, heap blocks.fatbuf = some block ∧ block.length = dev.sectorsize
  clusbuf : ∃ block, heap blocks.clusbuf = some block ∧ block.length = ctx.clustersize
  rest : ∀ addr, addr ≠ blocks.fatbuf → addr ≠ blocks.clusbuf → heap addr = base addr

section

variable {blocks : FatDirBlocks} {block : List Byte}

theorem FatBuffersLive.storeFatbuf (live : FatBuffersLive dev ctx blocks base heap)
    (size : block.length = dev.sectorsize) :
    FatBuffersLive dev ctx blocks base (Function.update heap blocks.fatbuf (some block)) where
  other := live.other
  fatbuf := ⟨block, Function.update_self .., size⟩
  clusbuf := by
    obtain ⟨old, there, size⟩ := live.clusbuf
    exact ⟨old, by rw [Function.update_of_ne live.other, there], size⟩
  rest := by
    intro addr notFatbuf notClusbuf
    rw [Function.update_of_ne notFatbuf]
    exact live.rest addr notFatbuf notClusbuf

theorem FatBuffersLive.storeClusbuf (live : FatBuffersLive dev ctx blocks base heap)
    (size : block.length = ctx.clustersize) :
    FatBuffersLive dev ctx blocks base (Function.update heap blocks.clusbuf (some block)) where
  other := live.other
  fatbuf := by
    obtain ⟨old, there, size⟩ := live.fatbuf
    exact ⟨old, by rw [Function.update_of_ne live.other.symm, there], size⟩
  clusbuf := ⟨block, Function.update_self .., size⟩
  rest := by
    intro addr notFatbuf notClusbuf
    rw [Function.update_of_ne notClusbuf]
    exact live.rest addr notFatbuf notClusbuf

/-- A block besides the buffers is allocated, stored to or freed. -/
theorem FatBuffersLive.besides {addr : Nat} (live : FatBuffersLive dev ctx blocks base heap)
    (notFatbuf : addr ≠ blocks.fatbuf) (notClusbuf : addr ≠ blocks.clusbuf)
    (stored : Option (List Byte)) :
    FatBuffersLive dev ctx blocks (Function.update base addr stored)
      (Function.update heap addr stored) where
  other := live.other
  fatbuf := by rw [Function.update_of_ne notFatbuf.symm]; exact live.fatbuf
  clusbuf := by rw [Function.update_of_ne notClusbuf.symm]; exact live.clusbuf
  rest := by
    intro other apart apart'
    by_cases same : other = addr
    · rw [same, Function.update_self, Function.update_self]
    · rw [Function.update_of_ne same, Function.update_of_ne same]
      exact live.rest other apart apart'

/-- Both buffers are freed on every way out. -/
theorem fatDirOut_ok {α : Type} (live : FatBuffersLive dev ctx blocks base heap)
    (noFatbuf : base blocks.fatbuf = none) (noClusbuf : base blocks.clusbuf = none) (res : α) :
    fatDirOut blocks res heap = .ok (res, base) := by
  obtain ⟨fatbuf, fatbufThere, -⟩ := live.fatbuf
  obtain ⟨clusbuf, clusbufThere, -⟩ := live.clusbuf
  have left : Function.update heap blocks.fatbuf none blocks.clusbuf = some clusbuf := by
    rw [Function.update_of_ne live.other, clusbufThere]
  unfold fatDirOut
  rw [Blocks.free_eq fatbufThere, Exec.ok_bind, Blocks.free_eq left, Exec.ok_bind]
  have same : Function.update (Function.update heap blocks.fatbuf none) blocks.clusbuf none = base := by
    funext addr
    by_cases isClusbuf : addr = blocks.clusbuf
    · rw [isClusbuf, Function.update_self, noClusbuf]
    · rw [Function.update_of_ne isClusbuf]
      by_cases isFatbuf : addr = blocks.fatbuf
      · rw [isFatbuf, Function.update_self, noFatbuf]
      · rw [Function.update_of_ne isFatbuf]
        exact live.rest addr isFatbuf isClusbuf
  rw [same]
  rfl

theorem FatBuffersLive.alloc {fatbuf clusbuf : List Byte} (other : blocks.clusbuf ≠ blocks.fatbuf)
    (fatbufSize : fatbuf.length = dev.sectorsize) (clusbufSize : clusbuf.length = ctx.clustersize) :
    FatBuffersLive dev ctx blocks heap (Function.update
      (Function.update heap blocks.fatbuf (some fatbuf)) blocks.clusbuf (some clusbuf)) where
  other := other
  fatbuf := by
    refine ⟨fatbuf, ?_, fatbufSize⟩
    rw [Function.update_of_ne other.symm, Function.update_self]
  clusbuf := ⟨clusbuf, Function.update_self .., clusbufSize⟩
  rest := by
    intro addr notFatbuf notClusbuf
    rw [Function.update_of_ne notClusbuf, Function.update_of_ne notFatbuf]

theorem FatBuffersLive.name_unused (live : FatBuffersLive dev ctx blocks base heap)
    (fresh : blocks.Fresh base) (named : blocks.name ≠ 0) : heap blocks.name = none := by
  obtain ⟨notFatbuf, notClusbuf⟩ := fresh.nameOther named
  rw [live.rest _ notFatbuf notClusbuf, fresh.name]

/-- The way out with a name leaves the name's block. -/
theorem fatDirOut_named {α : Type} {stored : Option (List Byte)} (fresh : blocks.Fresh base)
    (named : blocks.name ≠ 0)
    (live : FatBuffersLive dev ctx blocks (Function.update base blocks.name stored) heap) (res : α) :
    fatDirOut blocks res heap = .ok (res, Function.update base blocks.name stored) := by
  obtain ⟨notFatbuf, notClusbuf⟩ := fresh.nameOther named
  apply fatDirOut_ok live
  · rw [Function.update_of_ne notFatbuf.symm, fresh.fatbuf]
  · rw [Function.update_of_ne notClusbuf.symm, fresh.clusbuf]

theorem fatReadOneClusterIn_ok (sizes : FatSizes dev ctx)
    (live : FatBuffersLive dev ctx blocks base heap) (clus : BitVec 32) :
    ∃ heap', FatBuffersLive dev ctx blocks base heap' ∧
      match fatReadOneCluster dev.read ctx clus with
      | .error st => fatReadOneClusterIn dev ctx blocks.clusbuf clus heap = .ok (.error st, heap')
      | .ok clusterbuf => fatReadOneClusterIn dev ctx blocks.clusbuf clus heap = .ok (.ok (), heap') ∧
        heap' blocks.clusbuf = some ((List.range ctx.clustersize).map clusterbuf) := by
  obtain ⟨block, there, size⟩ := live.clusbuf
  unfold fatReadOneClusterIn fatReadOneCluster
  have read := @readInto_uses dev heap blocks.clusbuf block there
    (fatClusterToSector ctx.toFat32Ctx clus.toNat) _ (size.trans sizes.clustersize)
  cases sector : dev.read (fatClusterToSector ctx.toFat32Ctx clus.toNat) ctx.sectorsPerCluster with
  | error st =>
    rw [sector] at read
    obtain ⟨block, size, read⟩ := read
    exact ⟨_, live.storeClusbuf (size.trans sizes.clustersize.symm), read⟩
  | ok clusterbuf =>
    rw [sector] at read
    dsimp only at read ⊢
    rw [← sizes.clustersize] at read
    exact ⟨_, live.storeClusbuf (by simp), read, Function.update_self ..⟩

/-- A cluster is read where the place asks for the next one; the entry read next lies in the buffer. -/
theorem fatReadNextClusterIn_ok (sizes : FatSizes dev ctx) {clusterbuf : Nat → Byte}
    (live : FatBuffersLive dev ctx blocks base heap)
    (content : heap blocks.clusbuf = some ((List.range ctx.clustersize).map clusterbuf))
    (loc : FatEntryLoc) :
    ∃ heap', FatBuffersLive dev ctx blocks base heap' ∧
      match fatReadNextCluster dev.read ctx clusterbuf loc with
      | .error stop => fatReadNextClusterIn dev ctx blocks.clusbuf blocks.fatbuf loc heap =
          .ok (.error stop, heap')
      | .ok (loc', clusterbuf') =>
        fatReadNextClusterIn dev ctx blocks.clusbuf blocks.fatbuf loc heap = .ok (.ok loc', heap') ∧
          heap' blocks.clusbuf = some ((List.range ctx.clustersize).map clusterbuf') := by
  unfold fatReadNextClusterIn fatReadNextCluster
  by_cases next : loc.readNext
  · rw [if_pos next, if_pos next]
    obtain ⟨fatbuf, fatbufThere, fatbufSize⟩ := live.fatbuf
    obtain ⟨block, size, entered⟩ := fatReadNextIn_uses sizes fatbufThere fatbufSize loc
    have live := live.storeFatbuf size
    rw [entered, Exec.ok_bind]
    cases fatReadNext dev.read ctx loc with
    | error stop => exact ⟨_, live, rfl⟩
    | ok loc =>
      obtain ⟨heap', live, read⟩ := fatReadOneClusterIn_ok sizes live loc.cluster
      refine ⟨heap', live, ?_⟩
      dsimp only
      simp only [bind, Except.bind]
      cases cluster : fatReadOneCluster dev.read ctx loc.cluster with
      | error st =>
        rw [cluster] at read
        dsimp only at read ⊢
        rw [read]
        rfl
      | ok clusterbuf =>
        rw [cluster] at read
        dsimp only at read ⊢
        rw [read.1]
        exact ⟨rfl, read.2⟩
  · rw [if_neg next, if_neg next]
    exact ⟨heap, live, rfl, content⟩

theorem fatAdvanceLoc_inside (some_ : 0 < ctx.entriesPerClusterdir) {loc : FatEntryLoc}
    (inside : loc.offset.toNat < ctx.entriesPerClusterdir) :
    (fatAdvanceLoc ctx loc).offset.toNat < ctx.entriesPerClusterdir := by
  unfold fatAdvanceLoc
  by_cases last : loc.offset.toNat + 1 = ctx.entriesPerClusterdir
  · rw [if_pos last]
    exact some_
  · rw [if_neg last]
    -- the eight bits may wrap to 0
    have wraps : (loc.offset + 1).toNat ≤ loc.offset.toNat + 1 := by
      rw [BitVec.toNat_add]
      exact Nat.mod_le _ _
    show (loc.offset + 1).toNat < _
    omega

/-- However the call ends, what it leaves of the location has the property. -/
def LeavesLoc {ρ : Type} (p : FatEntryLoc → Prop) (loc : ρ → FatEntryLoc) :
    Except (Int × FatEntryLoc) ρ → Prop
  | .error (_, left) => p left
  | .ok res => p (loc res)

section LeavesLoc

variable {read : PartRead} {loc : FatEntryLoc}

theorem LeavesLoc.bind {ρ σ : Type} {p q : FatEntryLoc → Prop} {locOf : ρ → FatEntryLoc}
    {locOf' : σ → FatEntryLoc} {first : Except (Int × FatEntryLoc) ρ}
    {rest : ρ → Except (Int × FatEntryLoc) σ} (before : LeavesLoc p locOf first)
    (weaker : ∀ loc, p loc → q loc) (later : ∀ res, p (locOf res) → LeavesLoc q locOf' (rest res)) :
    LeavesLoc q locOf' (first >>= rest) := by
  cases first with
  | error stop => exact weaker _ before
  | ok res => exact later res before

theorem fatAdvanceLocClus_offset {next : FatEntryLoc}
    (moved : fatAdvanceLocClus read ctx loc = .ok next) : next.offset = loc.offset := by
  unfold fatAdvanceLocClus at moved
  simp only [bind, Except.bind, pure, Except.pure] at moved
  split at moved
  · cases moved
  · split at moved
    · cases moved
      rfl
    · cases moved

theorem fatReadNext_offset (loc : FatEntryLoc) :
    LeavesLoc (·.offset = loc.offset) id (fatReadNext read ctx loc) := by
  unfold fatReadNext
  split
  · cases moved : fatAdvanceLocClus read ctx loc with
    | error st => exact rfl
    | ok next =>
      have kept := fatAdvanceLocClus_offset moved
      dsimp only
      split <;> exact kept
  · exact rfl

theorem fatReadNextCluster_offset (clusterbuf : Nat → Byte) (loc : FatEntryLoc) :
    LeavesLoc (·.offset = loc.offset) Prod.fst (fatReadNextCluster read ctx clusterbuf loc) := by
  unfold fatReadNextCluster
  split
  · apply (fatReadNext_offset loc).bind (fun _ kept => kept)
    intro next kept
    split <;> exact kept
  · exact rfl

theorem fatReadLfns_inside (some_ : 0 < ctx.entriesPerClusterdir) (left : Nat)
    (clusterbuf dest : Nat → Byte) (entry : FatEntry)
    (inside : loc.offset.toNat < ctx.entriesPerClusterdir) :
    LeavesLoc (·.offset.toNat < ctx.entriesPerClusterdir) Prod.fst
      (fatReadLfns read ctx left clusterbuf loc dest entry) := by
  induction left generalizing clusterbuf dest loc entry with
  | zero =>
    unfold fatReadLfns
    split <;> exact inside
  | succ left ih =>
    unfold fatReadLfns
    split
    · apply (fatReadNextCluster_offset clusterbuf loc).bind (fun _ kept => kept ▸ inside)
      rintro ⟨next, clusterbuf⟩ kept
      exact ih clusterbuf _ _ (fatAdvanceLoc_inside some_ (kept ▸ inside))
    · exact inside

theorem fatEntryToVnode_inside (some_ : 0 < ctx.entriesPerClusterdir) (name : Bool)
    (clusbuf : Nat → Byte) (inside : loc.offset.toNat < ctx.entriesPerClusterdir) :
    LeavesLoc (·.offset.toNat < ctx.entriesPerClusterdir) Prod.fst
      (fatEntryToVnode read ctx name clusbuf loc) := by
  have behind := fatAdvanceLoc_inside some_ inside
  unfold fatEntryToVnode
  dsimp only
  split_ifs
  case pos => exact inside
  case neg =>
    exact (fatReadLfns_inside some_ _ clusbuf _ _ behind).bind (fun _ kept => kept) fun _ kept => kept
  all_goals exact behind

/-- The place of an entry stays inside a cluster. -/
theorem fatDirEntryToVnode_inside (some_ : 0 < ctx.entriesPerClusterdir) (mem : FatDirMem)
    (inside : loc.offset.toNat < ctx.entriesPerClusterdir) :
    LeavesLoc (·.offset.toNat < ctx.entriesPerClusterdir) Prod.fst
      (fatDirEntryToVnode read ctx mem loc) := by
  unfold fatDirEntryToVnode
  split
  · exact inside
  · apply (fatReadNext_offset loc).bind (fun _ kept => kept ▸ inside)
    intro next kept
    have inside' : next.offset.toNat < ctx.entriesPerClusterdir := by
      rw [show next.offset = loc.offset from kept]
      exact inside
    split
    · exact inside'
    · split
      · exact inside'
      · exact fatEntryToVnode_inside some_ mem.name _ inside'

end LeavesLoc

theorem FatSizes.entry_inside (sizes : FatSizes dev ctx) {loc : FatEntryLoc}
    (inside : loc.offset.toNat < ctx.entriesPerClusterdir) :
    loc.offset.toNat * 32 + 32 ≤ ctx.clustersize := by
  rw [sizes.entries] at inside
  omega

/-- The loop stores inside the name, from the place that the entries still to come leave, and keeps the
    bytes behind. -/
theorem fatReadLfnsIn_ok (sizes : FatSizes dev ctx) {size left : Nat} {clusterbuf dest : Nat → Byte}
    {loc : FatEntryLoc} (entry : FatEntry) (notFatbuf : blocks.name ≠ blocks.fatbuf)
    (notClusbuf : blocks.name ≠ blocks.clusbuf) (room : left * 13 < size)
    (inside : loc.offset.toNat < ctx.entriesPerClusterdir)
    (live : FatBuffersLive dev ctx blocks
      (Function.update base blocks.name (some ((List.range size).map dest))) heap)
    (content : heap blocks.clusbuf = some ((List.range ctx.clustersize).map clusterbuf)) :
    ∃ heap' dest', (∀ m, left * 13 ≤ m → dest' m = dest m) ∧
      FatBuffersLive dev ctx blocks
        (Function.update base blocks.name (some ((List.range size).map dest'))) heap' ∧
      match fatReadLfns dev.read ctx left clusterbuf loc dest entry with
      | .error stop => fatReadLfnsIn dev ctx blocks.clusbuf blocks.fatbuf blocks.name left loc entry.cut
          heap = .ok (.error stop, heap')
      | .ok (loc', dest'', last) => dest'' = dest' ∧
        fatReadLfnsIn dev ctx blocks.clusbuf blocks.fatbuf blocks.name left loc entry.cut heap =
          .ok (.ok (loc', last.cut), heap') := by
  induction left generalizing clusterbuf dest loc entry heap with
  | zero =>
    refine ⟨heap, dest, fun m _ => rfl, live, ?_⟩
    unfold fatReadLfns fatReadLfnsIn
    rw [attributes_cut]
    by_cases long : entry.attributes = fatEntryLfn
    · rw [if_pos long, if_pos long]
      rfl
    · rw [if_neg long, if_neg long]
      exact ⟨rfl, rfl⟩
  | succ left ih =>
    unfold fatReadLfns fatReadLfnsIn
    rw [attributes_cut, fatLfnName_cut]
    by_cases long : entry.attributes = fatEntryLfn
    · rw [if_pos long, if_pos long]
      have short := fatLfnName_length entry
      have named : heap blocks.name = some ((List.range size).map dest) := by
        rw [live.rest _ notFatbuf notClusbuf, Function.update_self]
      have put : putAll (left * 13) (fatLfnName entry) ((List.range size).map dest) = _ :=
        putAll_tabulated (.inr (by omega))
      rw [storeIn_ok named put, Exec.ok_bind]
      have stored := live.besides notFatbuf notClusbuf
        (some ((List.range size).map (storeBytes dest (left * 13) (fatLfnName entry))))
      rw [Function.update_idem] at stored
      have content' : Function.update heap blocks.name
          (some ((List.range size).map (storeBytes dest (left * 13) (fatLfnName entry))))
          blocks.clusbuf = some ((List.range ctx.clustersize).map clusterbuf) := by
        rw [Function.update_of_ne notClusbuf.symm, content]
      obtain ⟨heap', live', read⟩ := fatReadNextClusterIn_ok sizes stored content' loc
      have kept : ∀ m, (left + 1) * 13 ≤ m →
          storeBytes dest (left * 13) (fatLfnName entry) m = dest m :=
        fun m behind => storeBytes_after _ _ _ _ (by omega)
      cases next : fatReadNextCluster dev.read ctx clusterbuf loc with
      | error stop =>
        rw [next] at read
        dsimp only at read
        rw [read]
        exact ⟨heap', _, kept, live', rfl⟩
      | ok result =>
        obtain ⟨loc', clusterbuf'⟩ := result
        rw [next] at read
        obtain ⟨read, content⟩ := read
        have inside : loc'.offset.toNat < ctx.entriesPerClusterdir := by
          have kept := @fatReadNextCluster_offset ctx dev.read clusterbuf loc
          rw [next] at kept
          rw [show loc'.offset = loc.offset from kept]
          exact inside
        obtain ⟨heap'', dest', kept', live'', rest⟩ := ih (fatReadOneEntry clusterbuf' loc'.offset.toNat)
          (by omega) (fatAdvanceLoc_inside sizes.some_ inside) live' content
        have kept'' : ∀ m, (left + 1) * 13 ≤ m → dest' m = dest m :=
          fun m behind => (kept' m (by omega)).trans (kept m behind)
        refine ⟨heap'', dest', kept'', live'', ?_⟩
        rw [read, Exec.ok_bind]
        dsimp only
        rw [fatReadOneEntryIn_ok content (sizes.entry_inside inside), Exec.ok_bind]
        exact rest
    · rw [if_neg long, if_neg long]
      exact ⟨heap, dest, fun m _ => rfl, live, rfl, rfl⟩

/-- What `kmalloc` answers, as `fatDirEntryToVnode` takes it. -/
def FatDirBlocks.answers (blocks : FatDirBlocks) : FatDirMem where
  fatbuf := blocks.fatbuf ≠ 0
  clusbuf := blocks.clusbuf ≠ 0
  name := blocks.name ≠ 0
  vnode := true
  linked := true
  fresh := 0

/-- A call does what `fatDirEntryToVnode` says. Of what it allocates nothing is left if it fails, and
    the name alone if it does not; the name ends inside its block. -/
def LeavesName (blocks : FatDirBlocks) (heap : FatHeap)
    (run : Exec (Except (Int × FatEntryLoc) (FatEntryLoc × FatVnodeFields) × FatHeap)) :
    Except (Int × FatEntryLoc) (FatEntryLoc × FatVnode) → Prop
  | .error stop => run = .ok (.error stop, heap)
  | .ok (loc, vnode) =>
    match vnode.name with
    | none => run = .ok (.ok (loc, ⟨0, vnode.n, vnode.mode, vnode.size⟩), heap)
    | some text => ∃ block, cstring block = .ok text ∧
        run = .ok (.ok (loc, ⟨blocks.name, vnode.n, vnode.mode, vnode.size⟩),
          Function.update heap blocks.name (some block))

theorem fatLongNameIn_ok (sizes : FatSizes dev ctx) {clusterbuf : Nat → Byte} {loc : FatEntryLoc}
    (entry : FatEntry) (fresh : blocks.Fresh base)
    (inside : loc.offset.toNat < ctx.entriesPerClusterdir)
    (live : FatBuffersLive dev ctx blocks base heap)
    (content : heap blocks.clusbuf = some ((List.range ctx.clustersize).map clusterbuf)) :
    LeavesName blocks base (fatLongNameIn dev ctx blocks loc entry.cut heap)
      (if decide (blocks.name ≠ 0) = false then .error (-12, loc)
      else do
        let (loc, dest, last) ← fatReadLfns dev.read ctx (fatLfnEntriesCount entry) clusterbuf loc
          (fun _ => 0) entry
        let name := (List.range (fatLfnNameSize entry)).map dest
        .ok (loc, last.fill (some (name.takeWhile (· ≠ 0))))) := by
  unfold fatLongNameIn
  rw [fatLfnNameSize_cut, fatLfnEntriesCount_cut]
  by_cases null : blocks.name = 0
  · rw [if_pos null, if_pos (by simp [null])]
    exact fatDirOut_ok live fresh.fatbuf fresh.clusbuf _
  · rw [if_neg null, if_neg (by simp [null])]
    obtain ⟨notFatbuf, notClusbuf⟩ := fresh.nameOther null
    have unused := live.name_unused fresh null
    have allocated := live.besides notFatbuf notClusbuf
      (some ((List.range (fatLfnNameSize entry)).map fun _ => 0))
    have content' : Function.update heap blocks.name
        (some ((List.range (fatLfnNameSize entry)).map fun _ => 0)) blocks.clusbuf =
          some ((List.range ctx.clustersize).map clusterbuf) := by
      rw [Function.update_of_ne notClusbuf.symm, content]
    have room : fatLfnEntriesCount entry * 13 < fatLfnNameSize entry := Nat.lt_succ_self _
    obtain ⟨heap', dest', kept, live', loop⟩ :=
      fatReadLfnsIn_ok sizes entry notFatbuf notClusbuf room inside allocated content'
    rw [Blocks.alloc_ok.mpr ⟨unused, rfl⟩, Exec.ok_bind]
    cases read : fatReadLfns dev.read ctx (fatLfnEntriesCount entry) clusterbuf loc (fun _ => 0) entry with
    | error stop =>
      rw [read] at loop
      dsimp only at loop
      have there : heap' blocks.name = some ((List.range (fatLfnNameSize entry)).map dest') := by
        rw [live'.rest _ notFatbuf notClusbuf]
        exact Function.update_self ..
      have freed := live'.besides notFatbuf notClusbuf none
      rw [Function.update_idem, ← fresh.name, Function.update_eq_self, fresh.name] at freed
      rw [loop, Exec.ok_bind]
      dsimp only
      rw [Blocks.free_eq there, Exec.ok_bind]
      exact fatDirOut_ok freed fresh.fatbuf fresh.clusbuf _
    | ok result =>
      obtain ⟨next, dest, last⟩ := result
      rw [read] at loop
      obtain ⟨rfl, loop⟩ := loop
      rw [loop, Exec.ok_bind]
      refine ⟨_, ?_, fatDirOut_named fresh null live' _⟩
      -- the last byte is still the zero of `kcalloc`
      have ends : (0 : Byte) ∈ (List.range (fatLfnNameSize entry)).map dest := by
        rw [← kept _ (Nat.le_refl _)]
        exact List.mem_map_of_mem (List.mem_range.mpr (Nat.lt_succ_self _))
      unfold cstring
      rw [if_pos ends]

theorem fatLegacyPart_length (part : List Byte) :
    (fatLegacyPart part).length ≤ (part.takeWhile (· ≠ 0x20)).length := by
  unfold fatLegacyPart
  apply Nat.le_trans (List.takeWhile_sublist _).length_le
  rw [List.length_map]

theorem fatCopyLegacyName_fits (entry : FatEntry) :
    (fatCopyLegacyName entry ++ [0]).length ≤ fatLegacyNameSize entry := by
  have name := fatLegacyPart_length entry.name
  have ext := fatLegacyPart_length entry.ext
  unfold fatCopyLegacyName fatLegacyNameSize
  rw [List.length_append, List.length_singleton]
  by_cases short : entry.bytes 8 = 0x20
  · rw [if_pos short]
    dsimp only
    split_ifs <;> omega
  · have some_ : (entry.ext.takeWhile (· ≠ 0x20)).length ≠ 0 := by
      have first : entry.ext.takeWhile (· ≠ 0x20) =
          entry.bytes 8 :: [entry.bytes 9, entry.bytes 10].takeWhile (· ≠ 0x20) :=
        List.takeWhile_cons_of_pos (by simpa using short)
      rw [first]
      exact Nat.succ_ne_zero _
    rw [if_neg short]
    dsimp only
    rw [if_neg some_, List.length_append, List.length_cons]
    omega

theorem fatLegacyPart_clean (part : List Byte) : 0 ∉ fatLegacyPart part := by
  intro zero
  unfold fatLegacyPart at zero
  simpa using List.mem_takeWhile_imp zero

theorem fatCopyLegacyName_clean (entry : FatEntry) : 0 ∉ fatCopyLegacyName entry := by
  unfold fatCopyLegacyName
  split_ifs
  · exact fatLegacyPart_clean _
  · rw [List.mem_append, List.mem_cons]
    rintro (zero | zero | zero)
    · exact fatLegacyPart_clean _ zero
    · exact absurd zero (by decide)
    · exact fatLegacyPart_clean _ zero

theorem fatShortNameIn_ok {loc : FatEntryLoc} (entry : FatEntry) (fresh : blocks.Fresh base)
    (live : FatBuffersLive dev ctx blocks base heap) :
    LeavesName blocks base (fatShortNameIn blocks loc entry.cut heap)
      (.ok (loc, entry.fill (if decide (blocks.name ≠ 0) then some (fatCopyLegacyName entry)
        else none))) := by
  unfold fatShortNameIn
  rw [fatCopyLegacyName_cut, fatLegacyNameSize_cut]
  by_cases null : blocks.name = 0
  · rw [if_pos null, if_neg (by simp [null])]
    exact fatDirOut_ok live fresh.fatbuf fresh.clusbuf _
  · rw [if_neg null, if_pos (by simp [null])]
    obtain ⟨notFatbuf, notClusbuf⟩ := fresh.nameOther null
    have unused := live.name_unused fresh null
    generalize made : (List.range (fatLegacyNameSize entry)).map (blocks.junk blocks.name) = block
    have fits : (fatCopyLegacyName entry ++ [0]).length ≤ block.length := by
      rw [← made, List.length_map, List.length_range]
      exact fatCopyLegacyName_fits entry
    have stored := live.besides notFatbuf notClusbuf (some (fatCopyLegacyName entry ++ [0] ++
      block.drop (fatCopyLegacyName entry ++ [0]).length))
    rw [Blocks.alloc_ok.mpr ⟨unused, rfl⟩, Exec.ok_bind,
      storeIn_ok (Function.update_self ..) (putAll_front fits), Exec.ok_bind, Function.update_idem]
    refine ⟨_, ?_, fatDirOut_named fresh null stored _⟩
    rw [List.append_assoc]
    exact cstring_terminated (fatCopyLegacyName_clean entry) _

theorem fatEntryToVnodeIn_ok (sizes : FatSizes dev ctx) {clusterbuf : Nat → Byte} {loc : FatEntryLoc}
    (fresh : blocks.Fresh base) (inside : loc.offset.toNat < ctx.entriesPerClusterdir)
    (live : FatBuffersLive dev ctx blocks base heap)
    (content : heap blocks.clusbuf = some ((List.range ctx.clustersize).map clusterbuf)) :
    LeavesName blocks base (fatEntryToVnodeIn dev ctx blocks loc heap)
      (fatEntryToVnode dev.read ctx (decide (blocks.name ≠ 0)) clusterbuf loc) := by
  unfold fatEntryToVnodeIn fatEntryToVnode
  rw [fatReadOneEntryIn_ok content (sizes.entry_inside inside), Exec.ok_bind]
  generalize fatReadOneEntry clusterbuf loc.offset.toNat = entry
  dsimp only
  rw [fatEntryIsLastInDir_cut, fatIsEntryDeleted_cut, fatIsDotOrDotdot_cut, attributes_cut]
  have behind := fatAdvanceLoc_inside sizes.some_ inside
  by_cases last : fatEntryIsLastInDir entry
  · rw [if_pos last, if_pos last]
    exact fatDirOut_ok live fresh.fatbuf fresh.clusbuf _
  rw [if_neg last, if_neg last]
  by_cases ignored : fatIsEntryDeleted entry ∨ fatIsDotOrDotdot entry
  · rw [if_pos ignored, if_pos ignored]
    exact fatDirOut_ok live fresh.fatbuf fresh.clusbuf _
  rw [if_neg ignored, if_neg ignored]
  by_cases long : entry.attributes = fatEntryLfn
  · rw [if_pos long, if_pos long]
    exact fatLongNameIn_ok sizes entry fresh behind live content
  rw [if_neg long, if_neg long]
  by_cases label : entry.attributes = fatEntryVolId
  · rw [if_pos label, if_pos label]
    exact fatDirOut_ok live fresh.fatbuf fresh.clusbuf _
  rw [if_neg label, if_neg label]
  exact fatShortNameIn_ok entry fresh live

theorem fatDirEntryToVnodeIn_ok (sizes : FatSizes dev ctx) {loc : FatEntryLoc}
    (fresh : blocks.Fresh heap) (inside : loc.offset.toNat < ctx.entriesPerClusterdir) :
    LeavesName blocks heap (fatDirEntryToVnodeIn dev ctx blocks loc heap)
      (fatDirEntryToVnode dev.read ctx blocks.answers loc) := by
  unfold fatDirEntryToVnodeIn fatDirEntryToVnode FatDirBlocks.answers
  by_cases noFatbuf : blocks.fatbuf = 0
  · rw [if_pos noFatbuf, if_pos (by simp [noFatbuf])]
    rfl
  rw [if_neg noFatbuf, if_neg (by simp [noFatbuf]), Blocks.alloc_ok.mpr ⟨fresh.fatbuf, rfl⟩,
    Exec.ok_bind]
  have whole : ((List.range dev.sectorsize).map (blocks.junk blocks.fatbuf)).length =
      dev.sectorsize := by
    rw [List.length_map, List.length_range]
  obtain ⟨block, size, entered⟩ := fatReadNextIn_uses sizes (Function.update_self ..) whole loc
  rw [entered, Exec.ok_bind, Function.update_idem]
  have freed : Blocks.free blocks.fatbuf (Function.update heap blocks.fatbuf (some block)) =
      .ok heap := by
    rw [Blocks.free_eq (Function.update_self ..), Function.update_idem, ← fresh.fatbuf,
      Function.update_eq_self]
  have kept := @fatReadNext_offset ctx dev.read loc
  cases next : fatReadNext dev.read ctx loc with
  | error stop =>
    dsimp only
    rw [freed]
    rfl
  | ok next' =>
    rw [next] at kept
    have inside : next'.offset.toNat < ctx.entriesPerClusterdir := by
      rw [show next'.offset = loc.offset from kept]
      exact inside
    simp only [bind, Except.bind]
    by_cases noClusbuf : blocks.clusbuf = 0
    · rw [if_pos noClusbuf, if_pos (by simp [noClusbuf]), freed]
      rfl
    rw [if_neg noClusbuf, if_neg (by simp [noClusbuf])]
    have other := fresh.clusbufOther noClusbuf
    have unused : Function.update heap blocks.fatbuf (some block) blocks.clusbuf = none := by
      rw [Function.update_of_ne other, fresh.clusbuf]
    rw [Blocks.alloc_ok.mpr ⟨unused, rfl⟩]
    dsimp only
    have junk : ((List.range ctx.clustersize).map (blocks.junk blocks.clusbuf)).length =
        ctx.clustersize := by
      rw [List.length_map, List.length_range]
    have live := @FatBuffersLive.alloc dev ctx heap blocks block _ other size junk
    obtain ⟨heap', live', read⟩ := fatReadOneClusterIn_ok sizes live next'.cluster
    cases cluster : fatReadOneCluster dev.read ctx next'.cluster with
    | error st =>
      rw [cluster] at read
      dsimp only at read
      rw [read]
      exact fatDirOut_ok live' fresh.fatbuf fresh.clusbuf _
    | ok clusbuf =>
      rw [cluster] at read
      obtain ⟨read, content⟩ := read
      rw [read]
      exact fatEntryToVnodeIn_ok sizes fresh inside live' content

end

end

/-- The place that a call gets from one before it, which skipped its entry or made a vnode of it. -/
def FatDirMoves (read : PartRead) (ctx : Fat32DirCtx) (loc next : FatEntryLoc) : Prop :=
  ∃ mem, fatDirEntryToVnode read ctx mem loc = .error (-11, next) ∨
    ∃ vnode, fatDirEntryToVnode read ctx mem loc = .ok (next, vnode)

theorem fatDirMoves_inside {read : PartRead} {ctx : Fat32DirCtx}
    (some_ : 0 < ctx.entriesPerClusterdir) {cluster : BitVec 32} {loc : FatEntryLoc}
    (reached : ReflTransGen (FatDirMoves read ctx) (fatDirStart cluster) loc) :
    loc.offset.toNat < ctx.entriesPerClusterdir := by
  induction reached with
  | refl => exact some_
  | tail _ moves ih =>
    obtain ⟨mem, skipped | ⟨vnode, made⟩⟩ := moves
    · have left := @fatDirEntryToVnode_inside ctx read _ some_ mem ih
      rw [skipped] at left
      exact left
    · have left := @fatDirEntryToVnode_inside ctx read _ some_ mem ih
      rw [made] at left
      exact left

/-- Whatever an accepted volume holds, a call of `fat_dir_entry_to_vnode` reads and writes inside its
    blocks, leaves nothing of them when it fails, and ends the name inside its block otherwise. -/
theorem fatDirEntryToVnode_contained (dev : FatDevice) (ctx : Fat32DirCtx) (cluster : BitVec 32)
    (loc : FatEntryLoc) (blocks : FatDirBlocks) (heap : FatHeap)
    (accepted : FatAccepted dev.toFatBlkdev ctx)
    (reached : ReflTransGen (FatDirMoves dev.read ctx) (fatDirStart cluster) loc)
    (fresh : blocks.Fresh heap) :
    LeavesName blocks heap (fatDirEntryToVnodeIn dev ctx blocks loc heap)
      (fatDirEntryToVnode dev.read ctx blocks.answers loc) := by
  have sizes := fatAccepted_sizes accepted
  exact fatDirEntryToVnodeIn_ok sizes fresh (fatDirMoves_inside sizes.some_ reached)

/-- `deletedFiles`, of which a failed read leaves the buffer as it was. -/
def deletedFilesDevice : FatDevice where
  toFatBlkdev := deletedFiles
  partly _ _ block := block
  keepsLength _ _ _ := rfl

theorem fatDirEntryToVnode_contained_deleted :
    LeavesName ⟨1, 2, 3, fun _ _ => 0⟩ (fun _ => none)
      (fatDirEntryToVnodeIn deletedFilesDevice deletedFilesCtx ⟨1, 2, 3, fun _ _ => 0⟩
        (fatDirStart 2) fun _ => none)
      (fatDirEntryToVnode deletedFiles.read deletedFilesCtx
        (FatDirBlocks.answers ⟨1, 2, 3, fun _ _ => 0⟩) (fatDirStart 2)) := by
  apply fatDirEntryToVnode_contained deletedFilesDevice deletedFilesCtx 2 (fatDirStart 2)
  · exact deletedFiles_accepted
  · exact .refl
  · exact ⟨rfl, rfl, rfl, fun _ => by decide, fun _ => by decide⟩

end Dxgmx
