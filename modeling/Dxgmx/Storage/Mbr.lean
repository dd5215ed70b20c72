import Dxgmx.Kstdlib.StdioText
import Dxgmx.Storage.Blkdevm
import Dxgmx.Utils.Words

open Library

namespace Dxgmx

def uuidLength : Nat := 36

/-- `UUID_FMT`. -/
def uuidFmt : List Byte := "%08X-%04X-%04X-%04X-%012X".toList.map chr ++ [0]

/-- A `u64` takes two words of the argument list, the lower one first. -/
def uuidFormat (a : BitVec 32) (b c d : BitVec 16) (e : BitVec 64) (dest : Nat → Byte) :
    Exec (Int × (Nat → Byte)) :=
  vsnprintf dest (BitVec.ofNat 32 (uuidLength + 1)) uuidFmt
    [.word a, .word (b.setWidth 32), .word (c.setWidth 32), .word (d.setWidth 32),
      .word (e.setWidth 32), .word ((e >>> 32).setWidth 32)]

/-- A partition's record and the `u16` at its start. -/
structure MBRRecord extends MBRPartition where
  checksum : BitVec 16

/-- An MBR with what its UUIDs are made of. -/
structure MBRSector where
  bootstrap : Nat → Byte
  uid : BitVec 32
  reserved : BitVec 16
  partitions : List MBRRecord
  signature : BitVec 16
  four : partitions.length = 4

def MBRSector.toMBR (mbr : MBRSector) : MBR where
  reserved := mbr.reserved
  partitions := mbr.partitions.map MBRRecord.toMBRPartition
  signature := mbr.signature
  four := by rw [List.length_map, mbr.four]

def MBRRecord.load (buf : Nat → Byte) (off : Nat) : MBRRecord where
  lbaStart := BitVec.ofNat 32 (readU32 buf (off + 8))
  sectorCount := BitVec.ofNat 32 (readU32 buf (off + 12))
  checksum := readU16 buf off

def MBRSector.load (buf : Nat → Byte) : MBRSector where
  bootstrap := buf
  uid := BitVec.ofNat 32 (readU32 buf 440)
  reserved := readU16 buf 444
  partitions := (List.range 4).map fun i => MBRRecord.load buf (446 + 16 * i)
  signature := readU16 buf 510
  four := rfl

def MBRSector.bootstrapWord (mbr : MBRSector) (off : Nat) : BitVec 16 :=
  (mbr.bootstrap off ^^^ mbr.bootstrap (off + 1) ^^^ mbr.bootstrap (off + 2) ^^^
    mbr.bootstrap (off + 3)).setWidth 16

def mbrUuidForPart (mbr : MBRSector) (partIdx : Nat) (dest : Nat → Byte) :
    Exec (Int × (Nat → Byte)) :=
  match mbr.partitions[partIdx]? with
  | none => .ok (-22, dest)
  | some mbrpart =>
    uuidFormat mbr.uid mbrpart.checksum (mbr.bootstrapWord 0) (mbr.bootstrapWord 4)
      (BitVec.ofNat 64 (partIdx + 1)) dest

/-- What the device and the allocator answer, and what stands in the blocks of the UUIDs before. -/
structure MbrAnswers where
  buf : Bool
  read : Int
  sector : Nat → Byte
  partitions : Bool
  suffix : Nat → Bool
  uuid : Nat → Bool
  junk : Nat → Nat → Byte

def MbrAnswers.mbr (answers : MbrAnswers) : MBRSector := .load answers.sector

def MbrAnswers.mem (answers : MbrAnswers) : PartitionMem where
  buf := answers.buf
  read := answers.read
  mbr := answers.mbr.toMBR
  partitions := answers.partitions
  suffix := answers.suffix
  uuid := answers.uuid

/-- A partition with the block of its UUID. -/
structure UuidPartition extends Partition where
  uuid : List Byte

/-- The loop that fills in the partitions, with their UUIDs. -/
def partitiontableFillUuids (answers : MbrAnswers) : (idx : Nat) → List MBRRecord →
    Exec (Option (List UuidPartition))
  | _, [] => .ok (some [])
  | idx, mbrpart :: rest =>
    if mbrpart.allocated = false then partitiontableFillUuids answers idx rest
    else
      match partitionGenerateSuffix (answers.suffix idx) idx with
      | none => .ok none
      | some suffix =>
        if answers.uuid idx = false then .ok none
        else do
          let (_, uuid) ← mbrUuidForPart answers.mbr idx (answers.junk idx)
          let parts ← partitiontableFillUuids answers (idx + 1) rest
          pure (parts.map fun parts =>
            ⟨⟨mbrpart.lbaStart.setWidth 64, mbrpart.sectorCount.setWidth 64, suffix⟩,
              (List.range (uuidLength + 1)).map uuid⟩ :: parts)

/-- `partitiontable_create` with the UUIDs. -/
def partitiontableCreateUuids (blkdev : BlockDevice) (answers : MbrAnswers) :
    Exec (Int × List UuidPartition) :=
  if mbrRead blkdev answers.mem < 0 then .ok (mbrRead blkdev answers.mem, [])
  else if mbrValidate answers.mem.mbr < 0 then .ok (mbrValidate answers.mem.mbr, [])
  else if answers.mbr.partitions.countP (·.allocated) = 0 then .ok (0, [])
  else if answers.partitions = false then .ok (-12, [])
  else do
    match ← partitiontableFillUuids answers 0 answers.mbr.partitions with
    | none => pure (-12, [])
    | some partitions => pure (0, partitions)

section Uuid

/-- The text of a UUID. -/
def uuidText (a : BitVec 32) (b c d : BitVec 16) (e : BitVec 64) : List Byte :=
  hexPadded 8 a ++ [chr '-'] ++ hexPadded 4 (b.setWidth 32) ++ [chr '-'] ++
    hexPadded 4 (c.setWidth 32) ++ [chr '-'] ++ hexPadded 4 (d.setWidth 32) ++ [chr '-'] ++
      hexPadded 12 (e.setWidth 32)

theorem utoa_hex_length_word (a : BitVec 32) {width : Nat} (wide : 8 ≤ width) :
    (utoa a 16).length ≤ width :=
  Nat.le_trans (utoa_hex_length_le a (k := 8) (by decide) a.isLt) wide

theorem utoa_hex_length_u16 (b : BitVec 16) : (utoa (b.setWidth 32) 16).length ≤ 4 := by
  apply utoa_hex_length_le _ (by decide)
  rw [BitVec.toNat_setWidth]
  exact Nat.lt_of_le_of_lt (Nat.mod_le _ _) b.isLt

theorem printfConversion_hex (digit : Byte) (width : Nat) (value : BitVec 32) (fmt : List Byte)
    (args : List VaArg) (shape : (digit, width) ∈ [(chr '4', 4), (chr '8', 8)]) :
    printfConversion (chr '0' :: digit :: chr 'X' :: fmt) (.word value :: args) =
      .ok (some (.ofText (hexPadded width value)), fmt, args) := by
  simp only [List.mem_cons, List.not_mem_nil, or_false, Prod.mk.injEq] at shape
  rcases shape with ⟨rfl, rfl⟩ | ⟨rfl, rfl⟩ <;> rfl

theorem printfConversion_hex12 (value : BitVec 32) (fmt : List Byte) (args : List VaArg) :
    printfConversion (chr '0' :: chr '1' :: chr '2' :: chr 'X' :: fmt) (.word value :: args) =
      .ok (some (.ofText (hexPadded 12 value)), fmt, args) := rfl

/-- A field of four digits and the dash behind it. -/
theorem prints_field {fuel : Nat} {fmt text total : List Byte} {args : List VaArg} (b : BitVec 16)
    (ended : 0 ∈ fmt) (room : text.length + 5 ≤ 36)
    (rest : Prints 37 fuel fmt args (text ++ hexPadded 4 (b.setWidth 32) ++ [chr '-']) total) :
    Prints 37 (fuel + 2) (chr '%' :: chr '0' :: chr '4' :: chr 'X' :: chr '-' :: fmt)
      (.word (b.setWidth 32) :: args) text total := by
  have width := hexPadded_length (by decide : 4 ≤ 21) (utoa_hex_length_u16 b)
  have some_ : hexPadded 4 (b.setWidth 32) ≠ [] := fun empty => by simp [empty] at width
  apply prints_conversion (by decide) (hexPadded_clean (by decide))
    (printfConversion_hex (chr '4') 4 _ _ _ (by decide)) some_ (by omega)
  apply prints_literal (by decide) (by decide) (by decide) ended _ rest
  rw [List.length_append]
  omega

theorem uuidText_length (a : BitVec 32) (b c d : BitVec 16) (e : BitVec 64) :
    (uuidText a b c d e).length = 36 := by
  unfold uuidText
  simp only [List.length_append, List.length_singleton]
  rw [hexPadded_length (by decide) (utoa_hex_length_word a (by decide)),
    hexPadded_length (by decide) (utoa_hex_length_u16 b),
    hexPadded_length (by decide) (utoa_hex_length_u16 c),
    hexPadded_length (by decide) (utoa_hex_length_u16 d),
    hexPadded_length (by decide) (utoa_hex_length_word (e.setWidth 32) (by decide))]

theorem uuidFmt_eq : uuidFmt = chr '%' :: chr '0' :: chr '8' :: chr 'X' :: chr '-' ::
    chr '%' :: chr '0' :: chr '4' :: chr 'X' :: chr '-' ::
    chr '%' :: chr '0' :: chr '4' :: chr 'X' :: chr '-' ::
    chr '%' :: chr '0' :: chr '4' :: chr 'X' :: chr '-' ::
    chr '%' :: chr '0' :: chr '1' :: chr '2' :: chr 'X' :: [0] := by decide

theorem prints_uuid (a : BitVec 32) (b c d : BitVec 16) (e high : BitVec 32) :
    Prints 37 27 uuidFmt [.word a, .word (b.setWidth 32), .word (c.setWidth 32),
      .word (d.setWidth 32), .word e, .word high] []
      (hexPadded 8 a ++ [chr '-'] ++ hexPadded 4 (b.setWidth 32) ++ [chr '-'] ++
        hexPadded 4 (c.setWidth 32) ++ [chr '-'] ++ hexPadded 4 (d.setWidth 32) ++ [chr '-'] ++
        hexPadded 12 e) := by
  have first := hexPadded_length (by decide : 8 ≤ 21) (utoa_hex_length_word a (Nat.le_refl 8))
  have second := hexPadded_length (by decide : 4 ≤ 21) (utoa_hex_length_u16 b)
  have third := hexPadded_length (by decide : 4 ≤ 21) (utoa_hex_length_u16 c)
  have fourth := hexPadded_length (by decide : 4 ≤ 21) (utoa_hex_length_u16 d)
  have last := hexPadded_length (by decide : 12 ≤ 21) (utoa_hex_length_word e (by decide : 8 ≤ 12))
  have some_ : hexPadded 8 a ≠ [] := fun empty => by simp [empty] at first
  have some_' : hexPadded 12 e ≠ [] := fun empty => by simp [empty] at last
  rw [uuidFmt_eq]
  apply prints_conversion (by decide) (hexPadded_clean (by decide))
    (printfConversion_hex (chr '8') 8 _ _ _ (by decide)) some_ (by rw [first]; decide)
  rw [List.nil_append]
  apply prints_literal (by decide) (by decide) (by decide) (by decide) (by omega)
  apply prints_field b (by decide)
  · simp only [List.length_append, List.length_singleton]
    omega
  apply prints_field c (by decide)
  · simp only [List.length_append, List.length_singleton]
    omega
  apply prints_field d (by decide)
  · simp only [List.length_append, List.length_singleton]
    omega
  apply prints_conversion (by decide) (hexPadded_clean (by decide)) (printfConversion_hex12 _ _ _) some_'
  · simp only [List.length_append, List.length_singleton]
    omega
  exact prints_end

theorem uuidFormat_ok (a : BitVec 32) (b c d : BitVec 16) (e : BitVec 64) (dest : Nat → Byte) :
    ∃ dest', uuidFormat a b c d e dest = .ok (36, dest') ∧
      (List.range (uuidLength + 1)).map dest' = uuidText a b c d e ++ [0] := by
  have whole := uuidText_length a b c d e
  have prints : Prints (BitVec.ofNat 32 (uuidLength + 1)).toNat (uuidFmt.length + 1) uuidFmt
      [.word a, .word (b.setWidth 32), .word (c.setWidth 32), .word (d.setWidth 32),
        .word (e.setWidth 32), .word ((e >>> 32).setWidth 32)] [] (uuidText a b c d e) :=
    prints_uuid a b c d (e.setWidth 32) ((e >>> 32).setWidth 32)
  obtain ⟨dest', printed, there⟩ := prints.vsnprintf (by omega) dest
  have bytes := there.bytes
  rw [whole] at printed bytes
  exact ⟨dest', printed, bytes⟩

/-- The last field of a UUID can be read off its text. -/
theorem uuidText_last {a a' : BitVec 32} {b c d b' c' d' : BitVec 16} {e e' : BitVec 64}
    (same : uuidText a b c d e = uuidText a' b' c' d' e') :
    hexPadded 12 (e.setWidth 32) = hexPadded 12 (e'.setWidth 32) := by
  unfold uuidText at same
  apply List.append_inj_right' same
  rw [hexPadded_length (by decide) (utoa_hex_length_word _ (by decide)),
    hexPadded_length (by decide) (utoa_hex_length_word _ (by decide))]

end Uuid

def MBRSector.record (mbr : MBRSector) (i : Nat) : MBRRecord :=
  mbr.partitions.getD i ⟨⟨0, 0⟩, 0⟩

/-- The slots that are allocated, in order. -/
def MBRSector.slots (mbr : MBRSector) : List Nat :=
  (List.range 4).filter fun i => (mbr.record i).allocated

/-- No allocated slot stands behind one that is not. -/
def MBRSector.Packed (mbr : MBRSector) : Prop :=
  ∀ i j, i < j → j ∈ mbr.slots → i ∈ mbr.slots

/-- Partition number `k`, which is that of slot `i`. -/
structure SlotPartition (mbr : MBRSector) (k i : Nat) (part : UuidPartition) : Prop where
  lba : part.lba = (mbr.record i).lbaStart.setWidth 64
  sectorCount : part.sectorCount = (mbr.record i).sectorCount.setWidth 64
  suffix : part.suffix = partitionSuffix k
  uuid : ∃ dest ret dest', mbrUuidForPart mbr i dest = .ok (ret, dest') ∧
    part.uuid = (List.range (uuidLength + 1)).map dest'

/-- A table is made of the first sectors that have the signature and one of the two values in the
    reserved field, and holds a partition for each allocated slot. -/
structure TableRight (mbr : MBRSector) (result : Exec (Int × List UuidPartition)) : Prop where
  created : (∃ parts, result = .ok (0, parts)) ↔
    mbr.signature = 0xAA55 ∧ (mbr.reserved = 0 ∨ mbr.reserved = 0x5A5A)
  counted : ∀ parts, result = .ok (0, parts) → parts.length = mbr.slots.length
  listed : ∀ parts, result = .ok (0, parts) → ∀ (k i : Nat) part, mbr.slots[k]? = some i →
    parts[k]? = some part → SlotPartition mbr k i part
  distinct : ∀ parts, result = .ok (0, parts) → (parts.map UuidPartition.uuid).Nodup

structure MbrAnswers.Enough (answers : MbrAnswers) : Prop where
  buf : answers.buf = true
  read : 0 ≤ answers.read
  partitions : answers.partitions = true
  suffix : ∀ n, answers.suffix n = true
  uuid : ∀ n, answers.uuid n = true

section Fill

variable {mbr : MBRSector} {answers : MbrAnswers} {blkdev : BlockDevice}

/-- The block of the UUID of a slot. -/
def MBRSector.uuidBlock (mbr : MBRSector) (i : Nat) : List Byte :=
  uuidText mbr.uid (mbr.record i).checksum (mbr.bootstrapWord 0) (mbr.bootstrapWord 4)
    (BitVec.ofNat 64 (i + 1)) ++ [0]

theorem MBRSector.partitions_eq (mbr : MBRSector) :
    mbr.partitions = (List.range 4).map mbr.record := by
  apply List.ext_getElem
  · rw [mbr.four]
    rfl
  · intro i left right
    rw [List.getElem_map, List.getElem_range]
    unfold MBRSector.record
    rw [List.getD_eq_getElem?_getD, List.getElem?_eq_getElem left, Option.getD_some]

theorem MBRSector.allocated_eq (mbr : MBRSector) :
    mbr.partitions.filter (·.allocated) = mbr.slots.map mbr.record := by
  rw [mbr.partitions_eq, List.filter_map]
  rfl

theorem mbrUuidForPart_ok {i : Nat} (slot : i < 4) (dest : Nat → Byte) :
    ∃ dest', mbrUuidForPart mbr i dest = .ok (36, dest') ∧
      (List.range (uuidLength + 1)).map dest' = mbr.uuidBlock i := by
  have there : mbr.partitions[i]? = some (mbr.record i) := by
    rw [mbr.partitions_eq, List.getElem?_map, List.getElem?_range slot]
    rfl
  unfold mbrUuidForPart
  rw [there]
  exact uuidFormat_ok _ _ _ _ _ dest

theorem uuidBlock_inj {i j : Nat} (left : i < 4) (right : j < 4)
    (same : mbr.uuidBlock i = mbr.uuidBlock j) : i = j := by
  have last := uuidText_last (List.append_cancel_right same)
  have apart : ∀ i < 4, ∀ j < 4, hexPadded 12 ((BitVec.ofNat 64 (i + 1)).setWidth 32) =
      hexPadded 12 ((BitVec.ofNat 64 (j + 1)).setWidth 32) → i = j := by decide
  exact apart i left j right last

/-- The partitions that the records stand for, numbered from `idx` on. -/
def MBRSector.numberedUuids (mbr : MBRSector) : (idx : Nat) → List MBRRecord → List UuidPartition
  | _, [] => []
  | idx, mbrpart :: rest =>
    ⟨⟨mbrpart.lbaStart.setWidth 64, mbrpart.sectorCount.setWidth 64, partitionSuffix idx⟩,
      mbr.uuidBlock idx⟩ :: mbr.numberedUuids (idx + 1) rest

theorem MBRSector.numberedUuids_length (idx : Nat) (mbrparts : List MBRRecord) :
    (mbr.numberedUuids idx mbrparts).length = mbrparts.length := by
  induction mbrparts generalizing idx with
  | nil => rfl
  | cons mbrpart rest ih => exact congrArg Nat.succ (ih (idx + 1))

theorem MBRSector.numberedUuids_getElem? (idx k : Nat) (mbrparts : List MBRRecord) :
    (mbr.numberedUuids idx mbrparts)[k]? = mbrparts[k]?.map fun mbrpart =>
      ⟨⟨mbrpart.lbaStart.setWidth 64, mbrpart.sectorCount.setWidth 64, partitionSuffix (idx + k)⟩,
        mbr.uuidBlock (idx + k)⟩ := by
  induction mbrparts generalizing idx k with
  | nil => rfl
  | cons mbrpart rest ih =>
    cases k with
    | zero => rfl
    | succ k =>
      have later := ih (idx + 1) k
      rw [Nat.add_right_comm] at later
      exact later

theorem partitiontableFillUuids_ok (enough : answers.Enough) (idx : Nat) (mbrparts : List MBRRecord)
    (room : idx + mbrparts.length ≤ 4) :
    partitiontableFillUuids answers idx mbrparts =
      .ok (some (answers.mbr.numberedUuids idx (mbrparts.filter (·.allocated)))) := by
  induction mbrparts generalizing idx with
  | nil => rfl
  | cons mbrpart rest ih =>
    rw [List.length_cons] at room
    unfold partitiontableFillUuids
    cases allocated : mbrpart.allocated with
    | false =>
      rw [if_pos rfl, ih idx (by omega), List.filter_cons_of_neg (by simp [allocated])]
    | true =>
      obtain ⟨dest', formatted, block⟩ :=
        @mbrUuidForPart_ok answers.mbr idx (by omega) (answers.junk idx)
      rw [if_neg (by decide), List.filter_cons_of_pos (by simp [allocated])]
      unfold partitionGenerateSuffix
      rw [if_pos (enough.suffix idx)]
      dsimp only
      rw [if_neg (by rw [enough.uuid idx]; decide), formatted, Exec.ok_bind,
        ih (idx + 1) (by omega), Exec.ok_bind]
      dsimp only
      rw [block]
      rfl

theorem mbrValidate_iff (mbr : MBR) :
    ¬ mbrValidate mbr < 0 ↔ mbr.signature = 0xAA55 ∧ mbr.reserved = 0 := by
  unfold mbrValidate
  by_cases signature : mbr.signature = 0xAA55
  · rw [if_neg (not_not_intro signature)]
    by_cases reserved : mbr.reserved = 0
    · rw [if_neg fun both => both.1 reserved]
      exact iff_of_true (by decide) ⟨signature, reserved⟩
    · rw [if_pos ⟨reserved, by rw [signature]; decide⟩]
      exact iff_of_false (by decide) fun both => reserved both.2
  · rw [if_pos signature]
    exact iff_of_false (by decide) fun both => signature both.1

/-- The code takes no reserved value but 0, and numbers the UUIDs like the suffixes. -/
theorem partitiontableCreateUuids_eq (enough : answers.Enough) :
    partitiontableCreateUuids blkdev answers =
      if answers.mbr.signature = 0xAA55 ∧ answers.mbr.reserved = 0 then
        .ok (0, answers.mbr.numberedUuids 0 (answers.mbr.slots.map answers.mbr.record))
      else .ok (-22, []) := by
  have unread : mbrRead blkdev answers.mem = 0 := by
    unfold mbrRead
    rw [if_neg fun both => by simp [MbrAnswers.mem, enough.buf] at both, if_neg]
    exact Int.not_lt.mpr enough.read
  unfold partitiontableCreateUuids
  rw [unread, if_neg (by decide)]
  by_cases valid : answers.mbr.signature = 0xAA55 ∧ answers.mbr.reserved = 0
  · rw [if_pos valid, if_neg ((mbrValidate_iff answers.mem.mbr).mpr valid)]
    have filled := partitiontableFillUuids_ok enough 0 answers.mbr.partitions
      (by rw [answers.mbr.four])
    rw [answers.mbr.allocated_eq] at filled
    by_cases empty : answers.mbr.partitions.countP (·.allocated) = 0
    · rw [if_pos empty]
      rw [List.countP_eq_length_filter, List.length_eq_zero_iff, answers.mbr.allocated_eq] at empty
      rw [empty]
      rfl
    · rw [if_neg empty, if_neg (by rw [enough.partitions]; decide), filled]
      rfl
  · rw [if_neg valid]
    have invalid := not_imp_comm.mp (mbrValidate_iff answers.mem.mbr).mp valid
    rw [if_pos invalid]
    have code : mbrValidate answers.mem.mbr = -22 := by
      unfold mbrValidate at invalid ⊢
      split_ifs at invalid ⊢
      · rfl
      · rfl
      · exact absurd invalid (by decide)
    rw [code]

theorem slots_lt {i : Nat} (slot : i ∈ mbr.slots) : i < 4 :=
  List.mem_range.mp (List.mem_filter.mp slot).1

theorem packed_iff (mbr : MBRSector) :
    (∀ k i : Nat, mbr.slots[k]? = some i → i = k) ↔ mbr.Packed := by
  constructor
  · intro same i j before later
    obtain ⟨k, there⟩ := List.mem_iff_getElem?.mp later
    cases same k j there
    have inside : i < mbr.slots.length := by
      have bound := (List.getElem?_eq_some_iff.mp there).1
      omega
    have here := same i mbr.slots[i] (List.getElem?_eq_getElem inside)
    rw [← here]
    exact List.getElem_mem inside
  · intro packed
    have sorted : mbr.slots.Pairwise (· < ·) := List.pairwise_lt_range.filter _
    -- the slots before the one at `k` are `0` to `k - 1`
    have below : ∀ k i : Nat, mbr.slots[k]? = some i → k ≤ i := by
      intro k
      induction k with
      | zero => exact fun i _ => Nat.zero_le i
      | succ k ih =>
        intro i there
        have bound := (List.getElem?_eq_some_iff.mp there).1
        have before := ih mbr.slots[k] (List.getElem?_eq_getElem (by omega))
        have less := List.pairwise_iff_getElem.mp sorted k (k + 1) (by omega) bound (by omega)
        rw [(List.getElem?_eq_some_iff.mp there).2] at less
        omega
    intro k
    induction k using Nat.strong_induction_on with
    | _ k ih =>
      intro i there
      have least := below k i there
      by_contra other
      have member := packed k i (by omega) (List.mem_of_getElem? there)
      obtain ⟨m, here⟩ := List.mem_iff_getElem?.mp member
      obtain ⟨inside, same⟩ := List.getElem?_eq_some_iff.mp here
      obtain ⟨bound, same'⟩ := List.getElem?_eq_some_iff.mp there
      rcases Nat.lt_trichotomy m k with less | rfl | more
      · have equal := ih m less k here
        omega
      · rw [here] at there
        exact other (Option.some.inj there).symm
      · have less := List.pairwise_iff_getElem.mp sorted k m bound inside more
        rw [same, same'] at less
        omega

/-- What stands at the number of a slot. -/
theorem numberedUuids_entry {k i : Nat} (there : mbr.slots[k]? = some i) :
    (mbr.numberedUuids 0 (mbr.slots.map mbr.record))[k]? =
      some ⟨⟨(mbr.record i).lbaStart.setWidth 64, (mbr.record i).sectorCount.setWidth 64,
        partitionSuffix k⟩, mbr.uuidBlock k⟩ := by
  rw [mbr.numberedUuids_getElem?, List.getElem?_map, there, Nat.zero_add]
  rfl

theorem slots_number {k i : Nat} (there : mbr.slots[k]? = some i) : k < 4 := by
  have bound := (List.getElem?_eq_some_iff.mp there).1
  have few : mbr.slots.length ≤ 4 := List.length_filter_le _ (List.range 4)
  omega

/-- The UUIDs are those of the slots only if the numbers are. -/
theorem TableRight.ownSlots
    (right : TableRight mbr (.ok (0, mbr.numberedUuids 0 (mbr.slots.map mbr.record)))) (k i : Nat)
    (there : mbr.slots[k]? = some i) : i = k := by
  have slot := slots_lt (List.mem_of_getElem? there)
  obtain ⟨dest, ret, dest', formatted, its⟩ :=
    (right.listed _ rfl k i _ there (numberedUuids_entry there)).uuid
  obtain ⟨other, formatted', block⟩ := @mbrUuidForPart_ok mbr i slot dest
  rw [formatted'] at formatted
  cases formatted
  rw [block] at its
  exact (uuidBlock_inj (slots_number there) slot its).symm

theorem mbrUuidForPart_total (i : Nat) (dest : Nat → Byte) :
    ∃ ret dest', mbrUuidForPart mbr i dest = .ok (ret, dest') := by
  unfold mbrUuidForPart
  cases mbr.partitions[i]? with
  | none => exact ⟨_, _, rfl⟩
  | some mbrpart =>
    obtain ⟨dest', formatted, -⟩ := uuidFormat_ok mbr.uid mbrpart.checksum (mbr.bootstrapWord 0)
      (mbr.bootstrapWord 4) (BitVec.ofNat 64 (i + 1)) dest
    exact ⟨_, _, formatted⟩

theorem partitiontableFillUuids_erased (idx : Nat) (mbrparts : List MBRRecord) :
    (partitiontableFillUuids answers idx mbrparts).map
        (Option.map (List.map UuidPartition.toPartition)) =
      .ok (partitiontableFill answers.mem idx (mbrparts.map MBRRecord.toMBRPartition)) := by
  induction mbrparts generalizing idx with
  | nil => rfl
  | cons mbrpart rest ih =>
    unfold partitiontableFillUuids
    rw [List.map_cons]
    unfold partitiontableFill
    by_cases free : mbrpart.allocated = false
    · rw [if_pos free, if_pos free]
      exact ih idx
    · rw [if_neg free, if_neg free]
      show _ = Except.ok ((partitionGenerateSuffix (answers.suffix idx) idx).bind _)
      cases partitionGenerateSuffix (answers.suffix idx) idx with
      | none => rfl
      | some suffix =>
        dsimp only
        by_cases refused : answers.uuid idx = false
        · have refused' : answers.mem.uuid idx = false := refused
          rw [if_pos refused, Option.bind_some, if_pos refused']
          rfl
        · have given : ¬ answers.mem.uuid idx = false := refused
          obtain ⟨ret, dest', formatted⟩ :=
            @mbrUuidForPart_total answers.mbr idx (answers.junk idx)
          have later := ih (idx + 1)
          rw [if_neg refused, Option.bind_some, if_neg given, formatted, Exec.ok_bind]
          cases filled : partitiontableFillUuids answers (idx + 1) rest with
          | error stop =>
            rw [filled] at later
            cases later
          | ok parts =>
            rw [filled] at later
            rw [← Except.ok.inj later]
            cases parts <;> rfl

/-- Without its UUIDs a table is the one that `partitiontableCreate` gives. -/
theorem partitiontableCreateUuids_erased :
    (partitiontableCreateUuids blkdev answers).map (Prod.map id (List.map UuidPartition.toPartition)) =
      .ok (partitiontableCreate blkdev answers.mem) := by
  have same : answers.mem.mbr.partitions.countP MBRPartition.allocated =
      answers.mbr.partitions.countP (·.allocated) := List.countP_map
  have filled := @partitiontableFillUuids_erased answers 0 answers.mbr.partitions
  unfold partitiontableCreateUuids partitiontableCreate partitiontableTryCreateMbr
  rw [same]
  split_ifs with unread invalid empty refused refused'
  · rfl
  · rfl
  · rfl
  · rfl
  · exact absurd refused refused'
  · exact absurd ‹answers.mem.partitions = false› refused
  · have mapped : answers.mem.mbr.partitions =
        answers.mbr.partitions.map MBRRecord.toMBRPartition := rfl
    rw [mapped]
    cases result : partitiontableFillUuids answers 0 answers.mbr.partitions with
    | error stop =>
      rw [result] at filled
      cases filled
    | ok parts =>
      rw [result] at filled
      rw [← Except.ok.inj filled]
      cases parts <;> rfl

end Fill

/-- A partition table is right exactly where the reserved field does not hold the second of its two
    values and, if a table is made, no allocated slot stands behind one that is not. -/
theorem tableRight_iff (blkdev : BlockDevice) (answers : MbrAnswers) (enough : answers.Enough) :
    TableRight answers.mbr (partitiontableCreateUuids blkdev answers) ↔
      ¬ (answers.mbr.signature = 0xAA55 ∧ answers.mbr.reserved = 0x5A5A) ∧
        (answers.mbr.signature = 0xAA55 → answers.mbr.reserved = 0 → answers.mbr.Packed) := by
  rw [partitiontableCreateUuids_eq enough, ← packed_iff]
  by_cases valid : answers.mbr.signature = 0xAA55 ∧ answers.mbr.reserved = 0
  · rw [if_pos valid]
    have plain : ¬ (answers.mbr.signature = 0xAA55 ∧ answers.mbr.reserved = 0x5A5A) := by
      rw [valid.2]
      exact fun both => absurd both.2 (by decide)
    constructor
    · exact fun right => ⟨plain, fun _ _ => right.ownSlots⟩
    · rintro ⟨-, packed⟩
      refine ⟨iff_of_true ⟨_, rfl⟩ ⟨valid.1, .inl valid.2⟩, ?_, ?_, ?_⟩
      · rintro _ ⟨⟩
        rw [answers.mbr.numberedUuids_length, List.length_map]
      · rintro _ ⟨⟩ k i part there here
        rw [numberedUuids_entry there] at here
        cases here
        have same := packed valid.1 valid.2 k i there
        obtain ⟨dest', formatted, block⟩ := @mbrUuidForPart_ok answers.mbr i
          (slots_lt (List.mem_of_getElem? there)) fun _ => 0
        refine ⟨rfl, rfl, rfl, fun _ => 0, 36, dest', formatted, ?_⟩
        rw [block, same]
      · rintro _ ⟨⟩
        apply List.nodup_iff_injective_getElem.mpr
        rintro ⟨k, left⟩ ⟨m, right⟩ same
        rw [List.length_map, answers.mbr.numberedUuids_length, List.length_map] at left right
        have block : ∀ (k : Nat) (inside : k < answers.mbr.slots.length),
            ((answers.mbr.numberedUuids 0 (answers.mbr.slots.map answers.mbr.record)).map
              UuidPartition.uuid)[k]? = some (answers.mbr.uuidBlock k) := by
          intro k inside
          rw [List.getElem?_map, numberedUuids_entry (List.getElem?_eq_getElem inside)]
          rfl
        have equal := congrArg some same
        dsimp only at equal
        rw [← List.getElem?_eq_getElem, ← List.getElem?_eq_getElem, block k left, block m right]
          at equal
        exact Fin.ext (uuidBlock_inj (slots_number (List.getElem?_eq_getElem left))
          (slots_number (List.getElem?_eq_getElem right)) (Option.some.inj equal))
  · rw [if_neg valid]
    constructor
    · refine fun right => ⟨fun both => ?_, fun signature reserved => absurd ⟨signature, reserved⟩ valid⟩
      obtain ⟨parts, created⟩ := right.created.mpr ⟨both.1, .inr both.2⟩
      cases created
    · rintro ⟨plain, -⟩
      refine ⟨iff_of_false (fun created => ?_) ?_, nofun, nofun, nofun⟩
      · obtain ⟨parts, created⟩ := created
        cases created
      · rintro ⟨signature, reserved | reserved⟩
        · exact valid ⟨signature, reserved⟩
        · exact plain ⟨signature, reserved⟩

/-- A first sector with one allocated slot. -/
def oneSlot (slot : Nat) (reserved : Byte) (i : Nat) : Byte :=
  if i = 510 then 0x55
  else if i = 511 then 0xAA
  else if i = 444 ∨ i = 445 then reserved
  else if i = 446 + 16 * slot + 8 ∨ i = 446 + 16 * slot + 12 then 1
  else 0

def enoughFor (sector : Nat → Byte) : MbrAnswers where
  buf := true
  read := 0
  sector := sector
  partitions := true
  suffix _ := true
  uuid _ := true
  junk _ _ := 0

theorem enoughFor_enough (sector : Nat → Byte) : (enoughFor sector).Enough :=
  ⟨rfl, Int.le_refl 0, rfl, fun _ => rfl, fun _ => rfl⟩

theorem tableRight_firstSlot : TableRight (enoughFor (oneSlot 0 0)).mbr
    (partitiontableCreateUuids ⟨1, 512⟩ (enoughFor (oneSlot 0 0))) := by
  have slots : (enoughFor (oneSlot 0 0)).mbr.slots = [0] := by decide
  refine (tableRight_iff ⟨1, 512⟩ (enoughFor (oneSlot 0 0)) (enoughFor_enough _)).mpr
    ⟨by decide, fun _ _ i j before later => ?_⟩
  rw [slots] at later
  have zero := List.mem_singleton.mp later
  omega

/-- A disk with 0x5A5A in the reserved field has no table, and a partition in the second slot gets
    the UUID of the first. -/
theorem not_tableRight_copyProtected :
    ¬ TableRight (enoughFor (oneSlot 0 0x5A)).mbr
        (partitiontableCreateUuids ⟨1, 512⟩ (enoughFor (oneSlot 0 0x5A))) ∧
      ¬ TableRight (enoughFor (oneSlot 1 0)).mbr
        (partitiontableCreateUuids ⟨1, 512⟩ (enoughFor (oneSlot 1 0))) := by
  constructor
  · intro right
    rw [partitiontableCreateUuids_eq (enoughFor_enough _), if_neg (by decide)] at right
    obtain ⟨parts, created⟩ := right.created.mpr (by decide)
    cases created
  · intro right
    rw [partitiontableCreateUuids_eq (enoughFor_enough _), if_pos (by decide)] at right
    have slots : (enoughFor (oneSlot 1 0)).mbr.slots = [1] := by decide
    have own := right.ownSlots 0 1 (by rw [slots]; rfl)
    cases own

end Dxgmx
