import Dxgmx.Library.Blocks
import Dxgmx.Library.Runs
import Dxgmx.Utils.Hashtable

open Library

namespace Dxgmx

/-- A slot in memory. 0 is `NULL`. -/
structure HashTableSlotIn where
  entries : Nat
  entryCount : Nat
  deriving DecidableEq

/-- A table with the arrays of entries that are allocated. `digest` are the words that
    `hashfunc->chew` leaves for a key where it succeeds. -/
structure HashTableIn (ν : Type) where
  slots : List HashTableSlotIn
  biggestSlotEntryCount : Nat
  slotEntryCountThreshold : Nat
  digestSize : Nat
  digest : BitVec 64 → Nat → BitVec 32
  heap : Blocks (List (HashTableEntry ν))

variable {ν : Type}

namespace HashTableSlotIn

/-- The entries that a loop over the slot reads. -/
def load (slot : HashTableSlotIn) (heap : Blocks (List (HashTableEntry ν))) :
    Exec (List (HashTableEntry ν)) :=
  if slot.entryCount = 0 then .ok []
  else do
    let block ← heap.load slot.entries
    if slot.entryCount ≤ block.length then pure (block.take slot.entryCount) else .error .fault

/-- `krealloc` of the entries with an answer that is not NULL. The new array is allocated first. -/
def krealloc (tmp : Nat) (block : List (HashTableEntry ν)) (slot : HashTableSlotIn)
    (heap : Blocks (List (HashTableEntry ν))) : Exec (Blocks (List (HashTableEntry ν))) := do
  let heap ← heap.alloc tmp block
  if slot.entries = 0 then pure heap else heap.free slot.entries

/-- `tmp` is what `krealloc` answers. -/
def addValue (tmp : Nat) (key : BitVec 64) (value : ν) (slot : HashTableSlotIn)
    (heap : Blocks (List (HashTableEntry ν))) :
    Exec (Int × HashTableSlotIn × Blocks (List (HashTableEntry ν))) := do
  let entries ← slot.load heap
  match HashTable.addValueToSlot false key value entries with
  | some stored => do
    let heap ← heap.store slot.entries stored
    pure (0, slot, heap)
  | none =>
    if tmp = 0 then pure (-12, slot, heap)
    else do
      let heap ← slot.krealloc tmp (entries ++ [⟨key, value⟩]) heap
      pure (0, ⟨tmp, slot.entryCount + 1⟩, heap)

/-- The entry is found and taken out: the ones behind it are moved down, and the array shrinks. -/
def shrink (tmp : Nat) (left : List (HashTableEntry ν)) (slot : HashTableSlotIn)
    (heap : Blocks (List (HashTableEntry ν))) :
    Exec (HashTableSlotIn × Blocks (List (HashTableEntry ν))) :=
  if slot.entryCount = 1 then do
    let heap ← heap.free slot.entries
    pure (⟨0, 0⟩, heap)
  else if tmp = 0 then .error .panic
  else do
    let heap ← slot.krealloc tmp left heap
    pure (⟨tmp, slot.entryCount - 1⟩, heap)

end HashTableSlotIn

namespace HashTableIn

def slot (ht : HashTableIn ν) (idx : Nat) : HashTableSlotIn := ht.slots.getD idx ⟨0, 0⟩

/-- What the words of a key's digest come to. -/
def hashidx (ht : HashTableIn ν) (key : BitVec 64) : Nat :=
  (((List.range (ht.digestSize / 4)).map (ht.digest key)).foldl (· ^^^ ·) 0).toNat

def maybeEnlarge (tmp : Nat) (ht : HashTableIn ν) : Int × HashTableIn ν :=
  if ht.biggestSlotEntryCount < ht.slotEntryCountThreshold then (0, ht)
  else if tmp = 0 then (-12, ht)
  else (0, { ht with
    slots := ht.slots ++ List.replicate ht.slots.length ⟨0, 0⟩
    slotEntryCountThreshold := ht.slotEntryCountThreshold * 2 })

/-- `st` is what `chew` returns. -/
def keyToSlotIdx (st : Int) (key : BitVec 64) (ht : HashTableIn ν) : Exec (Except Int Nat) := do
  assert (ht.digestSize % 4 = 0)
  if st < 0 then pure (.error st)
  else if ht.slots.length = 0 then .error .fault
  else pure (.ok (ht.hashidx key % ht.slots.length))

def setSlot (idx : Nat) (slot : HashTableSlotIn) (heap : Blocks (List (HashTableEntry ν)))
    (ht : HashTableIn ν) : HashTableIn ν :=
  { ht with
    slots := ht.slots.set idx slot
    heap := heap }

/-- `tmpTable` and `tmpSlot` are what `krealloc` answers to the table and to the slot. -/
def insert (tmpTable : Nat) (st : Int) (tmpSlot : Nat) (key : BitVec 64) (value : ν)
    (ht : HashTableIn ν) : Exec (Int × HashTableIn ν) :=
  let (enlarged, ht) := ht.maybeEnlarge tmpTable
  if enlarged < 0 then .ok (enlarged, ht)
  else do
    let hashRes ← ht.keyToSlotIdx st key
    match hashRes with
    | .error st => pure (st, ht)
    | .ok idx => do
      let (ret, slot, heap) ← (ht.slot idx).addValue tmpSlot key value ht.heap
      pure (ret, ht.setSlot idx slot heap)

def remove (st : Int) (tmp : Nat) (key : BitVec 64) (ht : HashTableIn ν) :
    Exec (Int × HashTableIn ν) := do
  let hashRes ← ht.keyToSlotIdx st key
  match hashRes with
  | .error st => pure (st, ht)
  | .ok idx => do
    let entries ← (ht.slot idx).load ht.heap
    match HashTable.findEntry key entries with
    | none => pure (-2, ht)
    | some _ => do
      let (slot, heap) ←
        (ht.slot idx).shrink tmp (entries.eraseP fun entry => entry.key == key) ht.heap
      pure (0, ht.setSlot idx slot heap)

def init (digestSize : Nat) (digest : BitVec 64 → Nat → BitVec 32) : HashTableIn ν where
  slots := List.replicate 8 ⟨0, 0⟩
  biggestSlotEntryCount := 0
  slotEntryCountThreshold := 4
  digestSize := digestSize
  digest := digest
  heap := fun _ => none

end HashTableIn

/-- A call with what the allocator and `chew` answer it. -/
inductive HashTableCall (ν : Type)
  | insert (tmpTable : Nat) (st : Int) (tmpSlot : Nat) (key : BitVec 64) (value : ν)
  | remove (st : Int) (tmp : Nat) (key : BitVec 64)

namespace HashTableCall

def perform : HashTableCall ν → HashTableIn ν → Exec (Int × HashTableIn ν)
  | .insert tmpTable st tmpSlot key value, ht => ht.insert tmpTable st tmpSlot key value
  | .remove st tmp key, ht => ht.remove st tmp key

/-- What `krealloc` answers to the slot. -/
def tmp : HashTableCall ν → Nat
  | .insert _ _ tmpSlot _ _ => tmpSlot
  | .remove _ tmp _ => tmp

/-- The allocator hands out nothing that is in use. -/
def Answered (call : HashTableCall ν) (ht : HashTableIn ν) : Prop :=
  call.tmp = 0 ∨ ht.heap call.tmp = none

/-- What a call that succeeds makes of the map. -/
def apply : HashTableCall ν → (BitVec 64 → Option ν) → BitVec 64 → Option ν
  | .insert _ _ _ key value, contents => Function.update contents key (some value)
  | .remove _ _ key, contents => Function.update contents key none

end HashTableCall

/-- The entries that a slot stands for. -/
def HashTableSlotIn.entriesOf (slot : HashTableSlotIn) (heap : Blocks (List (HashTableEntry ν))) :
    HashTableSlot ν :=
  if slot.entryCount = 0 then [] else ((heap slot.entries).getD []).take slot.entryCount

/-- A slot has an array of as many entries as it counts, or none. -/
def HashTableSlotIn.Holds (slot : HashTableSlotIn) (heap : Blocks (List (HashTableEntry ν))) :
    Prop :=
  slot.entries = 0 ∧ slot.entryCount = 0 ∨
    slot.entries ≠ 0 ∧ slot.entryCount ≠ 0 ∧
      ∃ block, heap slot.entries = some block ∧ block.length = slot.entryCount

namespace HashTableIn

/-- The table of lists that a table in memory stands for. -/
def table (ht : HashTableIn ν) : HashTable ν where
  slots := ht.slots.map fun slot => slot.entriesOf ht.heap
  biggestSlotEntryCount := ht.biggestSlotEntryCount
  slotEntryCountThreshold := ht.slotEntryCountThreshold
  chew key := .ok ((List.range (ht.digestSize / 4)).map (ht.digest key))

def contents (ht : HashTableIn ν) (key : BitVec 64) : Option ν :=
  (ht.table.find key).toOption

/-- No array of entries is lost: each one belongs to a slot. -/
def KeepsArrays (ht : HashTableIn ν) : Prop :=
  ∀ addr block, ht.heap addr = some block →
    ∃ slot ∈ ht.slots, slot.entryCount ≠ 0 ∧ slot.entries = addr

/-- What holds of every table that calls lead to. -/
structure Sound (ht : HashTableIn ν) : Prop where
  wellFormed : ht.table.WellFormed
  holds : ∀ slot ∈ ht.slots, slot.Holds ht.heap
  apart : ∀ i j, (ht.slot i).entries = (ht.slot j).entries → (ht.slot i).entries ≠ 0 → i = j
  owned : ∀ addr block, ht.heap addr = some block →
    addr ≠ 0 ∧ ∃ slot ∈ ht.slots, slot.entries = addr

end HashTableIn

section Slots

variable {slot : HashTableSlotIn} {heap : Blocks (List (HashTableEntry ν))}

theorem HashTableSlotIn.Holds.load (holds : slot.Holds heap) :
    slot.load heap = .ok (slot.entriesOf heap) := by
  unfold HashTableSlotIn.load HashTableSlotIn.entriesOf
  rcases holds with ⟨-, none⟩ | ⟨-, some_, block, here, size⟩
  · rw [if_pos none, if_pos none]
  · rw [if_neg some_, if_neg some_, Blocks.load_live here, here, Exec.ok_bind, if_pos (by omega)]
    rfl

theorem HashTableSlotIn.entriesOf_full {block : List (HashTableEntry ν)}
    (here : heap slot.entries = some block) (size : block.length = slot.entryCount) :
    slot.entriesOf heap = block := by
  unfold HashTableSlotIn.entriesOf
  by_cases none : slot.entryCount = 0
  · rw [if_pos none, List.length_eq_zero_iff.mp (size.trans none)]
  · rw [if_neg none, here, ← size]
    exact List.take_length

theorem HashTableSlotIn.Holds.length (holds : slot.Holds heap) :
    (slot.entriesOf heap).length = slot.entryCount := by
  rcases holds with ⟨-, none⟩ | ⟨-, -, block, here, size⟩
  · unfold HashTableSlotIn.entriesOf
    rw [if_pos none, none]
    rfl
  · rw [HashTableSlotIn.entriesOf_full here size, size]

/-- Only what stands at its own address matters to a slot. -/
theorem HashTableSlotIn.entriesOf_congr {heap' : Blocks (List (HashTableEntry ν))}
    (same : heap' slot.entries = heap slot.entries) : slot.entriesOf heap' = slot.entriesOf heap := by
  unfold HashTableSlotIn.entriesOf
  rw [same]

theorem HashTableSlotIn.Holds.krealloc (holds : slot.Holds heap) (null : heap 0 = none) {tmp : Nat}
    (some_ : tmp ≠ 0) (unused : heap tmp = none) (block : List (HashTableEntry ν)) :
    ∃ heap', slot.krealloc tmp block heap = .ok heap' ∧ heap' tmp = some block ∧
      (∀ addr, addr ≠ slot.entries → addr ≠ tmp → heap' addr = heap addr) ∧
      heap' slot.entries = none ∧ heap' 0 = none := by
  unfold HashTableSlotIn.krealloc
  rw [Blocks.alloc_ok.mpr ⟨unused, rfl⟩, Exec.ok_bind]
  have still : Function.update heap tmp (some block) 0 = none := by
    rw [Function.update_of_ne some_.symm, null]
  rcases holds with ⟨noEntries, -⟩ | ⟨entries, -, old, here, -⟩
  · rw [if_pos noEntries, noEntries]
    exact ⟨_, rfl, Function.update_self .., fun addr _ notNew => Function.update_of_ne notNew _ _,
      still, still⟩
  · have other : tmp ≠ slot.entries := by
      rintro rfl
      rw [unused] at here
      cases here
    have left : Function.update heap tmp (some block) slot.entries = some old := by
      rw [Function.update_of_ne other.symm, here]
    rw [if_neg entries, Blocks.free_eq left]
    refine ⟨_, rfl, ?_, fun addr notOld notNew => ?_, Function.update_self .., ?_⟩
    · rw [Function.update_of_ne other, Function.update_self]
    · rw [Function.update_of_ne notOld, Function.update_of_ne notNew]
    · rw [Function.update_of_ne entries.symm, still]

end Slots

namespace HashTableIn

variable {ht : HashTableIn ν} {idx : Nat}

theorem slot_eq (inside : idx < ht.slots.length) : ht.slot idx = ht.slots[idx] := by
  unfold slot
  rw [List.getD_eq_getElem?_getD, List.getElem?_eq_getElem inside]
  rfl

theorem slot_mem (inside : idx < ht.slots.length) : ht.slot idx ∈ ht.slots := by
  rw [slot_eq inside]
  exact List.getElem_mem inside

theorem mem_slots {slot : HashTableSlotIn} (member : slot ∈ ht.slots) :
    ∃ idx < ht.slots.length, ht.slot idx = slot := by
  obtain ⟨idx, inside, here⟩ := List.getElem_of_mem member
  exact ⟨idx, inside, (slot_eq inside).trans here⟩

theorem slot_inside (some_ : (ht.slot idx).entries ≠ 0) : idx < ht.slots.length := by
  by_contra outside
  apply some_
  unfold slot
  rw [List.getD_eq_getElem?_getD, List.getElem?_eq_none (Nat.not_lt.mp outside)]
  rfl

theorem table_slot (idx : Nat) : ht.table.slot idx = (ht.slot idx).entriesOf ht.heap := by
  unfold HashTable.slot HashTableIn.slot table
  rw [List.getD_eq_getElem?_getD, List.getD_eq_getElem?_getD, List.getElem?_map]
  cases ht.slots[idx]? <;> rfl

theorem table_slotCapacity : ht.table.slotCapacity = ht.slots.length := List.length_map _

theorem table_keyToSlotIdx (key : BitVec 64) :
    ht.table.keyToSlotIdx key = .ok (ht.hashidx key % ht.slots.length) := by
  unfold HashTable.keyToSlotIdx
  rw [table_slotCapacity]
  rfl

theorem Sound.some_slot (sound : ht.Sound) : 0 < ht.slots.length := by
  rw [← table_slotCapacity]
  exact sound.wellFormed.some_slot

theorem Sound.null (sound : ht.Sound) : ht.heap 0 = none := by
  cases here : ht.heap 0 with
  | none => rfl
  | some block => exact absurd rfl (sound.owned 0 block here).1

theorem Sound.keepsArrays (sound : ht.Sound) : ht.KeepsArrays := by
  intro addr block here
  obtain ⟨notNull, slot, member, same⟩ := sound.owned addr block here
  refine ⟨slot, member, ?_, same⟩
  rcases sound.holds slot member with ⟨null, -⟩ | ⟨-, some_, -⟩
  · exact absurd (same.symm.trans null) notNull
  · exact some_

theorem Sound.maybeEnlarge (sound : ht.Sound) (tmp : Nat) : ht.maybeEnlarge tmp = (0, ht) :=
  if_pos sound.wellFormed.below

theorem Sound.keyToSlotIdx (sound : ht.Sound) (whole : ht.digestSize % 4 = 0) (st : Int)
    (key : BitVec 64) : ht.keyToSlotIdx st key =
      .ok (if st < 0 then .error st else .ok (ht.hashidx key % ht.slots.length)) := by
  have positive := sound.some_slot
  unfold HashTableIn.keyToSlotIdx
  rw [show assert (ht.digestSize % 4 = 0) = .ok () from if_pos whole, Exec.ok_bind,
    if_neg (Nat.ne_of_gt positive)]
  split_ifs <;> rfl

theorem setSlot_length {slot : HashTableSlotIn} {heap : Blocks (List (HashTableEntry ν))} :
    (ht.setSlot idx slot heap).slots.length = ht.slots.length := List.length_set

@[simp]
theorem setSlot_heap {slot : HashTableSlotIn} {heap : Blocks (List (HashTableEntry ν))} :
    (ht.setSlot idx slot heap).heap = heap := rfl

theorem setSlot_slot {slot : HashTableSlotIn} {heap : Blocks (List (HashTableEntry ν))}
    (inside : idx < ht.slots.length) (i : Nat) :
    (ht.setSlot idx slot heap).slot i = if i = idx then slot else ht.slot i := by
  unfold HashTableIn.setSlot HashTableIn.slot
  dsimp only
  rw [List.getD_eq_getElem?_getD, List.getElem?_set, List.getD_eq_getElem?_getD]
  by_cases same : i = idx
  · rw [if_pos same.symm, if_pos inside, if_pos same]
    rfl
  · rw [if_neg (Ne.symm same), if_neg same]

/-- How a call may change the array of one slot. -/
structure Moves (ht : HashTableIn ν) (idx : Nat) (slot : HashTableSlotIn)
    (heap : Blocks (List (HashTableEntry ν))) : Prop where
  holds : slot.Holds heap
  others : ∀ addr, addr ≠ (ht.slot idx).entries → addr ≠ slot.entries → heap addr = ht.heap addr
  fresh : slot.entries = 0 ∨ slot.entries = (ht.slot idx).entries ∨ ht.heap slot.entries = none
  freed : (ht.slot idx).entries ≠ slot.entries → heap (ht.slot idx).entries = none
  null : heap 0 = none

section Moves

variable {slot : HashTableSlotIn} {heap : Blocks (List (HashTableEntry ν))}

theorem Moves.other (moves : ht.Moves idx slot heap) (sound : ht.Sound) {i : Nat}
    (inside : i < ht.slots.length) (other : i ≠ idx) (some_ : (ht.slot i).entries ≠ 0) :
    heap (ht.slot i).entries = ht.heap (ht.slot i).entries ∧ (ht.slot i).entries ≠ slot.entries := by
  have notOld : (ht.slot i).entries ≠ (ht.slot idx).entries := fun same =>
    other (sound.apart i idx same some_)
  have notNew : (ht.slot i).entries ≠ slot.entries := by
    intro same
    rcases moves.fresh with null | old | unused
    · exact some_ (same.trans null)
    · exact notOld (same.trans old)
    · rcases sound.holds _ (slot_mem inside) with ⟨null, -⟩ | ⟨-, -, block, here, -⟩
      · exact some_ null
      · rw [same, unused] at here
        cases here
  exact ⟨moves.others _ notOld notNew, notNew⟩

theorem Moves.table (moves : ht.Moves idx slot heap) (sound : ht.Sound) :
    (ht.setSlot idx slot heap).table = ht.table.setSlot idx (slot.entriesOf heap) := by
  have slots : (ht.slots.set idx slot).map (fun slot => slot.entriesOf heap) =
      (ht.slots.map fun slot => slot.entriesOf ht.heap).set idx (slot.entriesOf heap) := by
    rw [List.map_set]
    apply List.ext_getElem
    · rw [List.length_set, List.length_set, List.length_map, List.length_map]
    · intro i left right
      rw [List.getElem_set, List.getElem_set]
      by_cases same : idx = i
      · rw [if_pos same, if_pos same]
      · rw [if_neg same, if_neg same, List.getElem_map, List.getElem_map]
        rw [List.length_set, List.length_map] at right
        rw [← slot_eq right]
        rcases sound.holds _ (slot_mem right) with ⟨-, none⟩ | ⟨some_, -⟩
        · unfold HashTableSlotIn.entriesOf
          rw [if_pos none, if_pos none]
        · exact HashTableSlotIn.entriesOf_congr (moves.other sound right (Ne.symm same) some_).1
  unfold HashTableIn.setSlot HashTableIn.table HashTable.setSlot
  dsimp only
  rw [slots]

theorem Moves.sound (moves : ht.Moves idx slot heap) (sound : ht.Sound)
    (inside : idx < ht.slots.length)
    (distinct : ((slot.entriesOf heap).map HashTableEntry.key).Nodup) :
    (ht.setSlot idx slot heap).Sound where
  wellFormed := by
    rw [moves.table sound]
    exact sound.wellFormed.setSlot idx distinct
  holds := by
    intro other member
    obtain ⟨i, within, rfl⟩ := mem_slots member
    rw [setSlot_slot inside]
    rw [setSlot_length] at within
    by_cases same : i = idx
    · rw [if_pos same]
      exact moves.holds
    · rw [if_neg same]
      rcases sound.holds _ (slot_mem within) with empty | ⟨some_, count, block, here, size⟩
      · exact .inl empty
      · refine .inr ⟨some_, count, block, ?_, size⟩
        exact (moves.other sound within same some_).1.trans here
  apart := by
    intro i j same some_
    rw [setSlot_slot inside] at same some_
    rw [setSlot_slot inside] at same
    by_cases first : i = idx <;> by_cases second : j = idx
    · exact first.trans second.symm
    · rw [if_pos first, if_neg second] at same
      rw [if_pos first] at some_
      have other := some_
      rw [same] at other
      exact absurd same.symm (moves.other sound (slot_inside other) second other).2
    · rw [if_neg first, if_pos second] at same
      rw [if_neg first] at some_
      exact absurd same (moves.other sound (slot_inside some_) first some_).2
    · rw [if_neg first, if_neg second] at same
      rw [if_neg first] at some_
      exact sound.apart i j same some_
  owned := by
    intro addr block here
    have notNull : addr ≠ 0 := by
      rintro rfl
      rw [setSlot_heap, moves.null] at here
      cases here
    refine ⟨notNull, ?_⟩
    by_cases new : addr = slot.entries
    · exact ⟨slot, List.mem_set inside slot, new.symm⟩
    · have notOld : addr ≠ (ht.slot idx).entries := by
        rintro rfl
        have gone := moves.freed new
        rw [setSlot_heap, gone] at here
        cases here
      have before : ht.heap addr = some block := (moves.others addr notOld new).symm.trans here
      obtain ⟨-, other, member, same⟩ := sound.owned addr block before
      obtain ⟨i, within, rfl⟩ := mem_slots member
      have different : i ≠ idx := by
        rintro rfl
        exact notOld same.symm
      have kept : (ht.setSlot idx slot heap).slot i = ht.slot i := by
        rw [setSlot_slot inside, if_neg different]
      refine ⟨_, @slot_mem _ (ht.setSlot idx slot heap) i ?_, ?_⟩
      · rw [setSlot_length]
        exact within
      · rw [kept, same]

end Moves

section Calls

variable {tmp : Nat} {block : List (HashTableEntry ν)}

theorem Sound.moves_krealloc (sound : ht.Sound) (inside : idx < ht.slots.length) (some_ : tmp ≠ 0)
    (unused : ht.heap tmp = none) (filled : block ≠ []) :
    ∃ heap, (ht.slot idx).krealloc tmp block ht.heap = .ok heap ∧
      ht.Moves idx ⟨tmp, block.length⟩ heap ∧
      HashTableSlotIn.entriesOf ⟨tmp, block.length⟩ heap = block := by
  obtain ⟨heap, moved, new, others, freed, null⟩ :=
    HashTableSlotIn.Holds.krealloc (sound.holds _ (slot_mem inside)) sound.null some_ unused block
  have count : block.length ≠ 0 := fun none => filled (List.length_eq_zero_iff.mp none)
  refine ⟨heap, moved, ⟨.inr ⟨some_, count, block, new, rfl⟩, others, .inr (.inr unused),
    fun _ => freed, null⟩, HashTableSlotIn.entriesOf_full new rfl⟩

theorem Sound.moves_store (sound : ht.Sound) (inside : idx < ht.slots.length)
    (filled : (ht.slot idx).entryCount ≠ 0) (size : block.length = (ht.slot idx).entryCount) :
    ∃ heap, ht.heap.store (ht.slot idx).entries block = .ok heap ∧
      ht.Moves idx (ht.slot idx) heap ∧ (ht.slot idx).entriesOf heap = block := by
  rcases sound.holds _ (slot_mem inside) with ⟨-, none⟩ | ⟨some_, count, old, here, -⟩
  · exact absurd none filled
  · refine ⟨_, Blocks.store_live here block, ⟨.inr ⟨some_, count, block, ?_, size⟩, ?_, .inr (.inl rfl),
      fun other => absurd rfl other, ?_⟩, HashTableSlotIn.entriesOf_full ?_ size⟩
    · exact Function.update_self ..
    · exact fun addr notOld _ => Function.update_of_ne notOld _ _
    · rw [Function.update_of_ne some_.symm, sound.null]
    · exact Function.update_self ..

theorem Sound.moves_free (sound : ht.Sound) (inside : idx < ht.slots.length)
    (filled : (ht.slot idx).entryCount ≠ 0) :
    ∃ heap, ht.heap.free (ht.slot idx).entries = .ok heap ∧ ht.Moves idx ⟨0, 0⟩ heap := by
  rcases sound.holds _ (slot_mem inside) with ⟨-, none⟩ | ⟨some_, count, old, here, -⟩
  · exact absurd none filled
  · refine ⟨_, Blocks.free_eq here, .inl ⟨rfl, rfl⟩, ?_, .inl rfl, ?_, ?_⟩
    · exact fun addr notOld _ => Function.update_of_ne notOld _ _
    · exact fun _ => Function.update_self ..
    · rw [Function.update_of_ne some_.symm, sound.null]

theorem addValueToSlot_stored {key : BitVec 64} {value : ν} {entries stored : HashTableSlot ν}
    (found : HashTable.addValueToSlot false key value entries = some stored) :
    stored.length = entries.length ∧ entries ≠ [] ∧
      ∀ mem, HashTable.addValueToSlot mem key value entries = some stored := by
  induction entries generalizing stored with
  | nil => cases found
  | cons entry rest ih =>
    rw [HashTable.addValueToSlot] at found
    by_cases here : entry.key = key
    · rw [if_pos here] at found
      cases found
      exact ⟨rfl, List.cons_ne_nil _ _, fun mem => if_pos here⟩
    · rw [if_neg here] at found
      obtain ⟨tail, inner, rfl⟩ := Option.map_eq_some_iff.mp found
      obtain ⟨size, -, same⟩ := ih inner
      refine ⟨congrArg Nat.succ size, List.cons_ne_nil _ _, fun mem => ?_⟩
      rw [HashTable.addValueToSlot, if_neg here, same mem]
      rfl

theorem addValueToSlot_grown {key : BitVec 64} {value : ν} {entries : HashTableSlot ν}
    (missing : HashTable.addValueToSlot false key value entries = none) :
    HashTable.addValueToSlot true key value entries = some (entries ++ [⟨key, value⟩]) := by
  induction entries with
  | nil => rfl
  | cons entry rest ih =>
    rw [HashTable.addValueToSlot] at missing ⊢
    by_cases here : entry.key = key
    · rw [if_pos here] at missing
      cases missing
    · rw [if_neg here] at missing ⊢
      rw [ih (Option.map_eq_none_iff.mp missing)]
      rfl

theorem Sound.addValue (sound : ht.Sound) (inside : idx < ht.slots.length)
    (answered : tmp = 0 ∨ ht.heap tmp = none) (key : BitVec 64) (value : ν) :
    (∃ added slot heap, (ht.slot idx).addValue tmp key value ht.heap = .ok (0, slot, heap) ∧
      HashTable.addValueToSlot true key value (ht.table.slot idx) = some added ∧
      ht.Moves idx slot heap ∧ slot.entriesOf heap = added) ∨
    (ht.slot idx).addValue tmp key value ht.heap = .ok (-12, ht.slot idx, ht.heap) := by
  have holds := sound.holds _ (slot_mem inside)
  have size := HashTableSlotIn.Holds.length holds
  unfold HashTableSlotIn.addValue
  rw [HashTableSlotIn.Holds.load holds, Exec.ok_bind, table_slot]
  generalize (ht.slot idx).entriesOf ht.heap = entries at size
  cases found : HashTable.addValueToSlot false key value entries with
  | some stored =>
    obtain ⟨sameSize, filled, always⟩ := addValueToSlot_stored found
    have count : (ht.slot idx).entryCount ≠ 0 := by
      rw [← size]
      exact fun none => filled (List.length_eq_zero_iff.mp none)
    obtain ⟨heap, done, moves, left⟩ := sound.moves_store inside count (sameSize.trans size)
    refine .inl ⟨stored, ht.slot idx, heap, ?_, always true, moves, left⟩
    dsimp only
    rw [done]
    rfl
  | none =>
    by_cases full : tmp = 0
    · right
      dsimp only
      rw [if_pos full]
      rfl
    · obtain ⟨heap, done, moves, left⟩ := sound.moves_krealloc inside full
        (answered.resolve_left full) (List.append_ne_nil_of_right_ne_nil entries (List.cons_ne_nil
          (⟨key, value⟩ : HashTableEntry ν) []))
      rw [List.length_append, List.length_singleton, size] at moves left
      refine .inl ⟨_, _, heap, ?_, addValueToSlot_grown found, moves, left⟩
      dsimp only
      rw [if_neg full, done]
      rfl

theorem contents_some {key : BitVec 64} {value : ν} :
    ht.contents key = some value ↔ ht.table.find key = .ok value := by
  unfold contents
  cases ht.table.find key with
  | error st => simp [Except.toOption]
  | ok found => simp [Except.toOption]

theorem contents_ext {contents : BitVec 64 → Option ν}
    (same : ∀ key value, ht.table.find key = .ok value ↔ contents key = some value) :
    ht.contents = contents := by
  funext key
  apply Option.ext
  intro value
  rw [contents_some, same]

theorem setSlot_self (inside : idx < ht.slots.length) :
    ht.setSlot idx (ht.slot idx) ht.heap = ht := by
  unfold HashTableIn.setSlot HashTableIn.slot
  rw [List.getD_eq_getElem?_getD, List.getElem?_eq_getElem inside, Option.getD_some,
    List.set_getElem_self]

end Calls

/-- The call comes back, and it did what it should or nothing. -/
def CallRight (ht : HashTableIn ν) (call : HashTableCall ν) : Prop :=
  ∃ ret ht', call.perform ht = .ok (ret, ht') ∧ ht'.KeepsArrays ∧
    (ret = 0 ∧ ht'.contents = call.apply ht.contents ∨ ret < 0 ∧ ht'.contents = ht.contents)

/-- The call is a removal from an array of several entries, for the rest of which there is no
    memory. -/
def ShrinkFails (ht : HashTableIn ν) (call : HashTableCall ν) : Prop :=
  ∃ st key, call = .remove st 0 key ∧ 0 ≤ st ∧ (∃ value, ht.contents key = some value) ∧
    1 < (ht.slot (ht.hashidx key % ht.slots.length)).entryCount

/-- A step of a run: a call that comes back. -/
def Step (ht : HashTableIn ν) (call : HashTableCall ν) (ht' : HashTableIn ν) : Prop :=
  call.Answered ht ∧ ∃ ret, call.perform ht = .ok (ret, ht')

section Steps

variable {ht' : HashTableIn ν} {call : HashTableCall ν} {st ret : Int} {tmp tmpTable : Nat}
variable {key : BitVec 64} {value : ν}

theorem Sound.insert (sound : ht.Sound) (whole : ht.digestSize % 4 = 0)
    (answered : tmp = 0 ∨ ht.heap tmp = none) :
    ∃ ret ht', ht.insert tmpTable st tmp key value = .ok (ret, ht') ∧ ht'.Sound ∧
      (ret = 0 ∧ ht'.contents = Function.update ht.contents key (some value) ∨
        ret < 0 ∧ ht' = ht) := by
  have inside := Nat.mod_lt (ht.hashidx key) sound.some_slot
  unfold HashTableIn.insert
  rw [sound.maybeEnlarge]
  dsimp only
  rw [if_neg (Int.lt_irrefl 0), sound.keyToSlotIdx whole, Exec.ok_bind]
  by_cases failed : st < 0
  · rw [if_pos failed]
    exact ⟨st, ht, rfl, sound, .inr ⟨failed, rfl⟩⟩
  · rw [if_neg failed]
    dsimp only
    rcases sound.addValue inside answered key value with
      ⟨added, slot, heap, done, grown, moves, left⟩ | refused
    · rw [done, Exec.ok_bind]
      have distinct := HashTable.nodup_add grown (sound.wellFormed.slot _)
      have inserted : ht.table.insert true true key value =
          (.ok (), ht.table.setSlot (ht.hashidx key % ht.slots.length) added) := by
        unfold HashTable.insert
        rw [HashTable.maybeEnlarge_wellFormed sound.wellFormed]
        dsimp only
        rw [table_keyToSlotIdx]
        dsimp only
        rw [grown]
      rw [← left] at distinct
      refine ⟨0, _, rfl, moves.sound sound inside distinct, .inl ⟨rfl, contents_ext ?_⟩⟩
      intro other found
      rw [moves.table sound, left, HashTable.find_insert sound.wellFormed inserted]
      by_cases same : other = key
      · rw [if_pos same, same, Function.update_self, Option.some_inj, eq_comm]
      · rw [if_neg same, Function.update_of_ne same, contents_some]
    · rw [refused, Exec.ok_bind]
      refine ⟨-12, _, rfl, ?_, .inr ⟨by decide, ?_⟩⟩
      · rw [setSlot_self inside]
        exact sound
      · exact setSlot_self inside

/-- The rest of an array that an entry was taken out of finds a place, or the kernel stops. -/
theorem Sound.shrink (sound : ht.Sound) {idx : Nat} (inside : idx < ht.slots.length)
    (answered : tmp = 0 ∨ ht.heap tmp = none) {left : List (HashTableEntry ν)}
    (size : left.length + 1 = (ht.slot idx).entryCount) :
    (∃ slot heap, (ht.slot idx).shrink tmp left ht.heap = .ok (slot, heap) ∧
      ht.Moves idx slot heap ∧ slot.entriesOf heap = left) ∨
    (ht.slot idx).shrink tmp left ht.heap = .error .panic ∧ tmp = 0 ∧
      1 < (ht.slot idx).entryCount := by
  unfold HashTableSlotIn.shrink
  by_cases one : (ht.slot idx).entryCount = 1
  · obtain ⟨heap, freed, moves⟩ := sound.moves_free inside (by omega)
    have none : left = [] := List.length_eq_zero_iff.mp (by omega)
    rw [if_pos one, freed, none]
    exact .inl ⟨⟨0, 0⟩, heap, rfl, moves, rfl⟩
  · rw [if_neg one]
    by_cases full : tmp = 0
    · exact .inr ⟨if_pos full, full, by omega⟩
    · have filled : left ≠ [] := by
        apply List.ne_nil_of_length_pos
        omega
      obtain ⟨heap, moved, moves, stands⟩ :=
        sound.moves_krealloc inside full (answered.resolve_left full) filled
      have count : left.length = (ht.slot idx).entryCount - 1 := by omega
      rw [count] at moves stands
      rw [if_neg full, moved]
      exact .inl ⟨_, heap, rfl, moves, stands⟩

theorem Sound.remove (sound : ht.Sound) (whole : ht.digestSize % 4 = 0)
    (answered : tmp = 0 ∨ ht.heap tmp = none) :
    (∃ ret ht', ht.remove st tmp key = .ok (ret, ht') ∧ ht'.Sound ∧
      (ret = 0 ∧ ht'.contents = Function.update ht.contents key none ∨ ret < 0 ∧ ht' = ht) ∧
      ¬ ht.ShrinkFails (.remove st tmp key)) ∨
    ht.remove st tmp key = .error .panic ∧ ht.ShrinkFails (.remove st tmp key) := by
  have inside := Nat.mod_lt (ht.hashidx key) sound.some_slot
  have holds := sound.holds _ (slot_mem inside)
  have size := HashTableSlotIn.Holds.length holds
  have wf := sound.wellFormed
  unfold HashTableIn.remove
  rw [sound.keyToSlotIdx whole, Exec.ok_bind]
  by_cases failed : st < 0
  · rw [if_pos failed]
    refine .inl ⟨st, ht, rfl, sound, .inr ⟨failed, rfl⟩, ?_⟩
    rintro ⟨_, _, same, chewed, -⟩
    cases same
    omega
  · rw [if_neg failed]
    dsimp only
    rw [HashTableSlotIn.Holds.load holds, Exec.ok_bind]
    rw [← table_slot] at size ⊢
    cases found : HashTable.findEntry key (ht.table.slot (ht.hashidx key % ht.slots.length)) with
    | none =>
      refine .inl ⟨-2, ht, rfl, sound, .inr ⟨by decide, rfl⟩, ?_⟩
      rintro ⟨_, _, same, -, ⟨value, there⟩, -⟩
      cases same
      obtain ⟨idx, entry, place, inside', -⟩ := HashTable.find_ok.mp (contents_some.mp there)
      rw [table_keyToSlotIdx] at place
      cases place
      rw [found] at inside'
      cases inside'
    | some entry =>
      have there : ht.contents key = some entry.value :=
        contents_some.mpr (HashTable.find_ok.mpr ⟨_, entry, table_keyToSlotIdx key, found, rfl⟩)
      have erased : ((ht.table.slot (ht.hashidx key % ht.slots.length)).eraseP
          fun entry => entry.key == key).length + 1 =
            (ht.slot (ht.hashidx key % ht.slots.length)).entryCount := by
        have member := List.mem_of_find?_eq_some found
        have positive := List.length_pos_of_mem member
        have hit := List.find?_some found
        rw [List.length_eraseP_of_mem member hit, size]
        omega
      dsimp only
      rcases sound.shrink inside answered erased with
        ⟨slot, heap, done, moves, left⟩ | ⟨stopped, full, several⟩
      · rw [done, Exec.ok_bind]
        have removed : ht.table.remove key = .ok (ht.table.setSlot
            (ht.hashidx key % ht.slots.length) (slot.entriesOf heap)) := by
          unfold HashTable.remove
          rw [table_keyToSlotIdx]
          dsimp only
          rw [found, left]
        have distinct : ((slot.entriesOf heap).map HashTableEntry.key).Nodup := by
          rw [left]
          exact (wf.slot _).sublist (List.eraseP_sublist.map _)
        refine .inl ⟨0, _, rfl, moves.sound sound inside distinct, .inl ⟨rfl, contents_ext ?_⟩, ?_⟩
        · intro other value
          rw [moves.table sound, HashTable.find_remove wf removed]
          by_cases same : other = key
          · rw [same, Function.update_self]
            simp
          · rw [Function.update_of_ne same, contents_some, and_iff_right same]
        · rintro ⟨_, _, same, -, -, several⟩
          cases same
          unfold HashTableSlotIn.shrink at done
          rw [if_neg (by omega), if_pos rfl] at done
          cases done
      · rw [stopped]
        exact .inr ⟨rfl, st, key, by rw [full], Int.not_lt.mp failed, ⟨_, there⟩, several⟩

theorem Sound.stopped (sound : ht.Sound) (partly : ¬ ht.digestSize % 4 = 0)
    (call : HashTableCall ν) : call.perform ht = .error .panic := by
  have asserted (key : BitVec 64) (st : Int) : ht.keyToSlotIdx st key = .error .panic := by
    unfold HashTableIn.keyToSlotIdx
    rw [show assert (ht.digestSize % 4 = 0) = .error .panic from if_neg partly]
    rfl
  cases call with
  | insert tmpTable st tmpSlot key value =>
    unfold HashTableCall.perform HashTableIn.insert
    dsimp only
    rw [sound.maybeEnlarge]
    dsimp only
    rw [if_neg (Int.lt_irrefl 0), asserted]
    rfl
  | remove st tmp key =>
    unfold HashTableCall.perform HashTableIn.remove
    dsimp only
    rw [asserted]
    rfl

theorem Sound.answeredRight_iff (sound : ht.Sound) (answered : call.Answered ht) :
    ht.CallRight call ↔ ht.digestSize % 4 = 0 ∧ ¬ ht.ShrinkFails call := by
  by_cases whole : ht.digestSize % 4 = 0
  · rw [and_iff_right whole]
    cases call with
    | insert tmpTable st tmpSlot key value =>
      refine iff_of_true ?_ fun fails => ?_
      · obtain ⟨ret, ht', done, sound', right⟩ := sound.insert whole answered
        exact ⟨ret, ht', done, sound'.keepsArrays, right.imp id fun same => ⟨same.1, by rw [same.2]⟩⟩
      · obtain ⟨_, _, same, -⟩ := fails
        cases same
    | remove st tmp key =>
      rcases sound.remove whole answered with
        ⟨ret, ht', done, sound', right, shrinks⟩ | ⟨stopped, fails⟩
      · refine iff_of_true ⟨ret, ht', done, sound'.keepsArrays, ?_⟩ shrinks
        exact right.imp id fun same => ⟨same.1, by rw [same.2]⟩
      · refine iff_of_false ?_ (not_not.mpr fails)
        rintro ⟨ret, ht', done, -⟩
        rw [show (HashTableCall.remove st tmp key).perform ht = _ from stopped] at done
        cases done
  · refine iff_of_false ?_ fun both => whole both.1
    rintro ⟨ret, ht', done, -⟩
    rw [sound.stopped whole] at done
    cases done

theorem Sound.step (sound : ht.Sound) (step : ht.Step call ht') : ht'.Sound := by
  obtain ⟨answered, ret, done⟩ := step
  have whole : ht.digestSize % 4 = 0 := by
    by_contra partly
    rw [sound.stopped partly] at done
    cases done
  cases call with
  | insert tmpTable st tmpSlot key value =>
    obtain ⟨ret', after, same, sound', -⟩ := sound.insert whole answered
    cases done.symm.trans same
    exact sound'
  | remove st tmp key =>
    rcases sound.remove whole answered with ⟨ret', after, same, sound', -⟩ | ⟨stopped, -⟩
    · cases done.symm.trans same
      exact sound'
    · cases done.symm.trans stopped

theorem sound_init (digestSize : Nat) (digest : BitVec 64 → Nat → BitVec 32) :
    (init digestSize digest : HashTableIn ν).Sound where
  wellFormed := HashTable.wellFormed_init _
  holds := by
    intro slot member
    rw [List.eq_of_mem_replicate member]
    exact .inl ⟨rfl, rfl⟩
  apart := by
    intro i j _ some_
    apply absurd _ some_
    unfold slot init
    rw [List.getD_eq_getElem?_getD, List.getElem?_replicate]
    split <;> rfl
  owned := nofun

end Steps

/-- After any calls, a call does what it should or nothing, exactly if the digest is made of whole
    words and no array has to shrink without memory. -/
theorem callRight_iff (digestSize : Nat) (digest : BitVec 64 → Nat → BitVec 32)
    (calls : List (HashTableCall ν)) (ht : HashTableIn ν) (call : HashTableCall ν)
    (run : Run Step (init digestSize digest) calls ht) (answered : call.Answered ht) :
    ht.CallRight call ↔ ht.digestSize % 4 = 0 ∧ ¬ ht.ShrinkFails call := by
  have sound := run.invariant Sound (fun ht call ht' step sound => sound.step step)
    (sound_init digestSize digest)
  exact sound.answeredRight_iff answered

def twoEntries : HashTableIn Nat where
  slots := ⟨8192, 2⟩ :: List.replicate 7 ⟨0, 0⟩
  biggestSlotEntryCount := 0
  slotEntryCountThreshold := 4
  digestSize := 4
  digest := fun _ _ => 0
  heap := Function.update (Function.update (Function.update (fun _ => none)
    4096 (some [⟨1, 10⟩])) 8192 (some [⟨1, 10⟩, ⟨2, 20⟩])) 4096 none

theorem twoEntries_run : Run Step (init 4 fun _ _ => 0)
    [.insert 0 0 4096 1 10, .insert 0 0 8192 2 20] twoEntries :=
  .snoc (.single ⟨.inr rfl, 0, rfl⟩) ⟨.inr rfl, 0, rfl⟩

theorem callRight_twoEntries : twoEntries.CallRight (.remove 0 4096 1) := by
  refine (callRight_iff 4 (fun _ _ => 0) _ twoEntries (.remove 0 4096 1) twoEntries_run
    (.inr rfl)).mpr ⟨rfl, ?_⟩
  rintro ⟨st, key, same, -⟩
  cases same

/-- Without memory for the smaller array the kernel stops. -/
theorem not_callRight_twoEntries :
    (∃ calls, Run Step (init 4 fun _ _ => 0) calls twoEntries) ∧
      ¬ twoEntries.CallRight (.remove 0 0 1) := by
  refine ⟨⟨_, twoEntries_run⟩, ?_⟩
  rintro ⟨ret, ht', done, -⟩
  have stopped : (HashTableCall.remove 0 0 1).perform twoEntries = .error .panic := rfl
  rw [stopped] at done
  cases done

end HashTableIn

end Dxgmx
