import Mathlib.Data.List.Nodup

namespace Dxgmx

structure HashTableEntry (ν : Type) where
  key : BitVec 64
  value : ν

/-- `entry_count` is the length. -/
abbrev HashTableSlot (ν : Type) := List (HashTableEntry ν)

structure HashTable (ν : Type) where
  slots : List (HashTableSlot ν)
  biggestSlotEntryCount : Nat
  slotEntryCountThreshold : Nat
  /-- `hashfunc->chew`: the words of the digest of a key, or a negative errno. -/
  chew : BitVec 64 → Except Int (List (BitVec 32))

variable {ν : Type}

namespace HashTable

def slotCapacity (ht : HashTable ν) : Nat := ht.slots.length

/-- `mem` says whether `krealloc` finds memory. -/
def maybeEnlarge (mem : Bool) (ht : HashTable ν) : Except Int (HashTable ν) :=
  if ht.biggestSlotEntryCount < ht.slotEntryCountThreshold then .ok ht
  else if mem = false then .error (-12)
  else .ok { ht with
    slots := ht.slots ++ List.replicate ht.slotCapacity []
    slotEntryCountThreshold := ht.slotEntryCountThreshold * 2 }

def keyToSlotIdx (key : BitVec 64) (ht : HashTable ν) : Except Int Nat :=
  match ht.chew key with
  | .error st => .error st
  | .ok digest => .ok ((digest.foldl (· ^^^ ·) 0).toNat % ht.slotCapacity)

/-- `none` when the slot has to grow and `krealloc` finds no memory. -/
def addValueToSlot (mem : Bool) (key : BitVec 64) (value : ν) :
    HashTableSlot ν → Option (HashTableSlot ν)
  | [] => if mem then some [⟨key, value⟩] else none
  | entry :: rest =>
    if entry.key = key then some (⟨entry.key, value⟩ :: rest)
    else (addValueToSlot mem key value rest).map (entry :: ·)

def findEntry (key : BitVec 64) (slot : HashTableSlot ν) : Option (HashTableEntry ν) :=
  slot.find? fun entry => entry.key == key

/-- The table after `hashtable_init`. -/
def init (chew : BitVec 64 → Except Int (List (BitVec 32))) : HashTable ν where
  slots := List.replicate 8 []
  biggestSlotEntryCount := 0
  slotEntryCountThreshold := 4
  chew := chew

def slot (ht : HashTable ν) (idx : Nat) : HashTableSlot ν := ht.slots.getD idx []

def setSlot (ht : HashTable ν) (idx : Nat) (slot : HashTableSlot ν) : HashTable ν :=
  { ht with slots := ht.slots.set idx slot }

/-- `memTable` and `memSlot` are the answers of `krealloc` to the table and to the slot. -/
def insert (memTable memSlot : Bool) (key : BitVec 64) (value : ν) (ht : HashTable ν) :
    Except Int Unit × HashTable ν :=
  match ht.maybeEnlarge memTable with
  | .error st => (.error st, ht)
  | .ok ht =>
    match ht.keyToSlotIdx key with
    | .error st => (.error st, ht)
    | .ok idx =>
      match addValueToSlot memSlot key value (ht.slot idx) with
      | none => (.error (-12), ht)
      | some slot => (.ok (), ht.setSlot idx slot)

def find (key : BitVec 64) (ht : HashTable ν) : Except Int ν :=
  match ht.keyToSlotIdx key with
  | .error st => .error st
  | .ok idx =>
    match findEntry key (ht.slot idx) with
    | none => .error (-2)
    | some entry => .ok entry.value

/-- Shrinking the slot with `krealloc` is taken to succeed: it gives memory back. -/
def remove (key : BitVec 64) (ht : HashTable ν) : Except Int (HashTable ν) :=
  match ht.keyToSlotIdx key with
  | .error st => .error st
  | .ok idx =>
    match findEntry key (ht.slot idx) with
    | none => .error (-2)
    | some _ => .ok (ht.setSlot idx ((ht.slot idx).eraseP fun entry => entry.key == key))

/-- A store through the pointer that is the value of `key`. -/
def update (key : BitVec 64) (value : ν) (ht : HashTable ν) : HashTable ν :=
  match ht.keyToSlotIdx key with
  | .error _ => ht
  | .ok idx =>
    ht.setSlot idx ((ht.slot idx).map fun entry =>
      if entry.key = key then ⟨entry.key, value⟩ else entry)

/-- What every table made by `hashtable_init` and the operations satisfies. The counter that
    `hashtable_maybe_enlarge` compares is never written, so the table keeps its size. -/
structure WellFormed (ht : HashTable ν) : Prop where
  some_slot : 0 < ht.slotCapacity
  below : ht.biggestSlotEntryCount < ht.slotEntryCountThreshold
  distinct : ∀ slot ∈ ht.slots, (slot.map HashTableEntry.key).Nodup

theorem wellFormed_init (chew : BitVec 64 → Except Int (List (BitVec 32))) :
    (init chew : HashTable ν).WellFormed where
  some_slot := by simp [init, slotCapacity]
  below := by simp [init]
  distinct := by
    intro slot member
    rw [List.eq_of_mem_replicate member]
    exact List.nodup_nil

theorem init_slot (chew : BitVec 64 → Except Int (List (BitVec 32))) (idx : Nat) :
    (init chew : HashTable ν).slot idx = [] := by
  unfold init HashTable.slot
  rw [List.getD_eq_getElem?_getD, List.getElem?_replicate]
  split <;> rfl

theorem findEntry_cons (key : BitVec 64) (entry : HashTableEntry ν) (rest : HashTableSlot ν) :
    findEntry key (entry :: rest) = if entry.key = key then some entry else findEntry key rest := by
  unfold findEntry
  rw [List.find?_cons]
  by_cases same : entry.key = key
  · simp [same]
  · rw [beq_eq_false_iff_ne.mpr same, if_neg same]

theorem findEntry_none {key : BitVec 64} {slot : HashTableSlot ν} :
    findEntry key slot = none ↔ key ∉ slot.map HashTableEntry.key := by
  induction slot with
  | nil => simp [findEntry]
  | cons entry rest ih =>
    rw [findEntry_cons, List.map_cons, List.mem_cons]
    by_cases same : entry.key = key
    · simp [same]
    · simp [same, ih, Ne.symm same]

theorem findEntry_add {mem : Bool} {key : BitVec 64} {value : ν} {slot added : HashTableSlot ν}
    (h : addValueToSlot mem key value slot = some added) (other : BitVec 64) :
    findEntry other added =
      if other = key then some ⟨key, value⟩ else findEntry other slot := by
  induction slot generalizing added with
  | nil =>
    cases mem with
    | false => cases h
    | true =>
      cases h
      rw [findEntry_cons]
      by_cases same : other = key
      · simp [same]
      · simp [same, Ne.symm same, findEntry]
  | cons entry rest ih =>
    rw [addValueToSlot] at h
    split at h
    · rename_i here
      cases h
      subst here
      rw [findEntry_cons, findEntry_cons]
      by_cases same : other = entry.key
      · simp [same]
      · simp [same, Ne.symm same]
    · rename_i elsewhere
      obtain ⟨tail, grown, rfl⟩ := Option.map_eq_some_iff.mp h
      rw [findEntry_cons, findEntry_cons, ih grown]
      by_cases same : entry.key = other
      · subst same
        simp [elsewhere]
      · simp [same]

theorem keys_add {mem : Bool} {key : BitVec 64} {value : ν} {slot added : HashTableSlot ν}
    (h : addValueToSlot mem key value slot = some added) :
    ∀ other ∈ added.map HashTableEntry.key, other = key ∨ other ∈ slot.map HashTableEntry.key := by
  intro other member
  by_contra neither
  push Not at neither
  have absent := findEntry_none.mpr neither.2
  have found := findEntry_add h other
  rw [if_neg neither.1, absent] at found
  exact findEntry_none.mp found member

theorem nodup_add {mem : Bool} {key : BitVec 64} {value : ν} {slot added : HashTableSlot ν}
    (h : addValueToSlot mem key value slot = some added)
    (distinct : (slot.map HashTableEntry.key).Nodup) :
    (added.map HashTableEntry.key).Nodup := by
  induction slot generalizing added with
  | nil =>
    cases mem with
    | false => cases h
    | true =>
      cases h
      simp
  | cons entry rest ih =>
    rw [List.map_cons, List.nodup_cons] at distinct
    rw [addValueToSlot] at h
    split at h
    · cases h
      rw [List.map_cons, List.nodup_cons]
      exact distinct
    · rename_i elsewhere
      obtain ⟨tail, grown, rfl⟩ := Option.map_eq_some_iff.mp h
      rw [List.map_cons, List.nodup_cons]
      constructor
      · intro member
        rcases keys_add grown _ member with same | member
        · exact elsewhere same
        · exact distinct.1 member
      · exact ih grown distinct.2

theorem findEntry_erase {key : BitVec 64} {slot : HashTableSlot ν}
    (distinct : (slot.map HashTableEntry.key).Nodup) (other : BitVec 64) :
    findEntry other (slot.eraseP fun entry => entry.key == key) =
      if other = key then none else findEntry other slot := by
  induction slot with
  | nil => simp [findEntry]
  | cons entry rest ih =>
    rw [List.map_cons, List.nodup_cons] at distinct
    by_cases here : entry.key = key
    · rw [List.eraseP_cons_of_pos (by simpa using here), findEntry_cons]
      by_cases same : other = key
      · rw [if_pos same, same, ← here]
        exact findEntry_none.mpr distinct.1
      · rw [if_neg same, if_neg (by rw [here]; exact Ne.symm same)]
    · rw [List.eraseP_cons_of_neg (by simpa using here), findEntry_cons, findEntry_cons,
        ih distinct.2]
      by_cases same : entry.key = other
      · subst same
        simp [here]
      · simp [same]

theorem findEntry_update (key : BitVec 64) (value : ν) (slot : HashTableSlot ν)
    (other : BitVec 64) :
    findEntry other (slot.map fun entry => if entry.key = key then ⟨entry.key, value⟩ else entry) =
      (findEntry other slot).map fun entry =>
        if other = key then ⟨entry.key, value⟩ else entry := by
  induction slot with
  | nil => simp [findEntry]
  | cons entry rest ih =>
    rw [List.map_cons, findEntry_cons, findEntry_cons, ih]
    by_cases same : entry.key = other
    · subst same
      by_cases here : entry.key = key <;> simp [here]
    · by_cases here : entry.key = key
      · subst here
        simp [same]
      · simp [here, same]

variable {ht : HashTable ν}

theorem maybeEnlarge_wellFormed (wf : ht.WellFormed) (mem : Bool) :
    ht.maybeEnlarge mem = .ok ht := by
  unfold maybeEnlarge
  rw [if_pos wf.below]

@[simp] theorem setSlot_slotCapacity (idx : Nat) (slot : HashTableSlot ν) :
    (ht.setSlot idx slot).slotCapacity = ht.slotCapacity := by
  simp [setSlot, slotCapacity]

@[simp] theorem setSlot_keyToSlotIdx (idx : Nat) (slot : HashTableSlot ν) (key : BitVec 64) :
    (ht.setSlot idx slot).keyToSlotIdx key = ht.keyToSlotIdx key := by
  unfold keyToSlotIdx
  rw [setSlot_slotCapacity]
  rfl

theorem setSlot_slot {idx : Nat} (inside : idx < ht.slotCapacity) (slot : HashTableSlot ν)
    (other : Nat) :
    (ht.setSlot idx slot).slot other = if other = idx then slot else ht.slot other := by
  unfold slotCapacity at inside
  unfold setSlot HashTable.slot
  simp only [List.getD_eq_getElem?_getD, List.getElem?_set]
  by_cases same : other = idx
  · subst same
    simp [inside]
  · simp [same, Ne.symm same]

theorem WellFormed.setSlot (wf : ht.WellFormed) (idx : Nat) {slot : HashTableSlot ν}
    (distinct : (slot.map HashTableEntry.key).Nodup) : (ht.setSlot idx slot).WellFormed where
  some_slot := by
    rw [setSlot_slotCapacity]
    exact wf.some_slot
  below := wf.below
  distinct := by
    intro other member
    rcases List.mem_or_eq_of_mem_set member with member | rfl
    · exact wf.distinct other member
    · exact distinct

theorem WellFormed.slot (wf : ht.WellFormed) (idx : Nat) :
    ((ht.slot idx).map HashTableEntry.key).Nodup := by
  unfold HashTable.slot
  rw [List.getD_eq_getElem?_getD]
  cases here : ht.slots[idx]? with
  | none => exact List.nodup_nil
  | some slot => exact wf.distinct slot (List.mem_of_getElem? here)

theorem keyToSlotIdx_lt (wf : ht.WellFormed) {key : BitVec 64} {idx : Nat}
    (h : ht.keyToSlotIdx key = .ok idx) : idx < ht.slotCapacity := by
  unfold keyToSlotIdx at h
  split at h
  · cases h
  · cases h
    exact Nat.mod_lt _ wf.some_slot

/-- Finding is finding in the one slot that the key belongs to. -/
theorem find_ok {key : BitVec 64} {value : ν} :
    ht.find key = .ok value ↔ ∃ idx entry, ht.keyToSlotIdx key = .ok idx ∧
      findEntry key (ht.slot idx) = some entry ∧ entry.value = value := by
  unfold find
  cases place : ht.keyToSlotIdx key with
  | error st => simp
  | ok idx =>
    cases inside : findEntry key (ht.slot idx) with
    | none => simp [inside]
    | some entry => simp [inside]

theorem find_setSlot_same {key : BitVec 64} {idx : Nat} (place : ht.keyToSlotIdx key = .ok idx)
    (inside : idx < ht.slotCapacity) {slot : HashTableSlot ν} {value : ν} :
    (ht.setSlot idx slot).find key = .ok value ↔
      ∃ entry, findEntry key slot = some entry ∧ entry.value = value := by
  rw [find_ok]
  simp [place, setSlot_slot inside]

/-- Changing the slot of one key changes what is found under another key only through that slot. -/
theorem find_setSlot_of_findEntry {key : BitVec 64} {idx : Nat} (inside : idx < ht.slotCapacity)
    {slot : HashTableSlot ν} (kept : findEntry key slot = findEntry key (ht.slot idx)) (value : ν) :
    (ht.setSlot idx slot).find key = .ok value ↔ ht.find key = .ok value := by
  rw [find_ok, find_ok]
  simp only [setSlot_keyToSlotIdx, setSlot_slot inside]
  constructor
  · rintro ⟨place, entry, located, found, rfl⟩
    refine ⟨place, entry, located, ?_, rfl⟩
    split at found
    · rename_i same
      rw [same, ← kept, found]
    · exact found
  · rintro ⟨place, entry, located, found, rfl⟩
    refine ⟨place, entry, located, ?_, rfl⟩
    split
    · rename_i same
      rw [kept, ← same, found]
    · exact found

theorem insert_ok (wf : ht.WellFormed) {memTable memSlot : Bool} {key : BitVec 64} {value : ν}
    {ht' : HashTable ν} (h : ht.insert memTable memSlot key value = (.ok (), ht')) :
    ∃ idx slot, ht.keyToSlotIdx key = .ok idx ∧
      addValueToSlot memSlot key value (ht.slot idx) = some slot ∧ ht' = ht.setSlot idx slot := by
  unfold insert at h
  rw [maybeEnlarge_wellFormed wf] at h
  dsimp only at h
  split at h
  · cases h
  · rename_i idx place
    split at h
    · cases h
    · rename_i slot grown
      cases h
      exact ⟨idx, slot, place, grown, rfl⟩

theorem insert_error (wf : ht.WellFormed) {memTable memSlot : Bool} {key : BitVec 64} {value : ν}
    {st : Int} {ht' : HashTable ν} (h : ht.insert memTable memSlot key value = (.error st, ht')) :
    ht' = ht := by
  unfold insert at h
  rw [maybeEnlarge_wellFormed wf] at h
  dsimp only at h
  split at h
  · cases h
    rfl
  · split at h
    · cases h
      rfl
    · cases h

theorem WellFormed.insert (wf : ht.WellFormed) {memTable memSlot : Bool} {key : BitVec 64}
    {value : ν} {ht' : HashTable ν} (h : ht.insert memTable memSlot key value = (.ok (), ht')) :
    ht'.WellFormed := by
  obtain ⟨idx, slot, -, grown, rfl⟩ := insert_ok wf h
  exact wf.setSlot idx (nodup_add grown (wf.slot idx))

theorem find_insert (wf : ht.WellFormed) {memTable memSlot : Bool} {key : BitVec 64} {value : ν}
    {ht' : HashTable ν} (h : ht.insert memTable memSlot key value = (.ok (), ht'))
    (other : BitVec 64) (found : ν) :
    ht'.find other = .ok found ↔
      if other = key then found = value else ht.find other = .ok found := by
  obtain ⟨idx, slot, place, grown, rfl⟩ := insert_ok wf h
  have inside := keyToSlotIdx_lt wf place
  split
  · rename_i same
    subst same
    rw [find_setSlot_same place inside, findEntry_add grown, if_pos rfl]
    simp [eq_comm]
  · rename_i different
    refine find_setSlot_of_findEntry inside ?_ found
    rw [findEntry_add grown, if_neg different]

theorem remove_ok {key : BitVec 64} {ht' : HashTable ν} (h : ht.remove key = .ok ht') :
    ∃ idx, ht.keyToSlotIdx key = .ok idx ∧
      ht' = ht.setSlot idx ((ht.slot idx).eraseP fun entry => entry.key == key) := by
  unfold remove at h
  split at h
  · cases h
  · rename_i idx place
    split at h
    · cases h
    · cases h
      exact ⟨idx, place, rfl⟩

theorem WellFormed.remove (wf : ht.WellFormed) {key : BitVec 64} {ht' : HashTable ν}
    (h : ht.remove key = .ok ht') : ht'.WellFormed := by
  obtain ⟨idx, -, rfl⟩ := remove_ok h
  refine wf.setSlot idx ((wf.slot idx).sublist ?_)
  exact List.eraseP_sublist.map _

theorem find_remove (wf : ht.WellFormed) {key : BitVec 64} {ht' : HashTable ν}
    (h : ht.remove key = .ok ht') (other : BitVec 64) (found : ν) :
    ht'.find other = .ok found ↔ other ≠ key ∧ ht.find other = .ok found := by
  obtain ⟨idx, place, rfl⟩ := remove_ok h
  have inside := keyToSlotIdx_lt wf place
  by_cases same : other = key
  · subst same
    rw [find_setSlot_same place inside, findEntry_erase (wf.slot idx), if_pos rfl]
    simp
  · rw [find_setSlot_of_findEntry inside]
    · simp [same]
    · rw [findEntry_erase (wf.slot idx), if_neg same]

theorem find_of_remove_error {key : BitVec 64} {st : Int} (h : ht.remove key = .error st)
    (found : ν) : ht.find key ≠ .ok found := by
  intro there
  obtain ⟨idx, entry, place, inside, -⟩ := find_ok.mp there
  unfold remove at h
  simp only [place, inside] at h
  cases h

theorem WellFormed.update (wf : ht.WellFormed) (key : BitVec 64) (value : ν) :
    (ht.update key value).WellFormed := by
  unfold HashTable.update
  split
  · exact wf
  · rename_i idx place
    refine wf.setSlot idx ?_
    rw [List.map_map]
    have same : (HashTableEntry.key ∘ fun entry : HashTableEntry ν =>
        if entry.key = key then ⟨entry.key, value⟩ else entry) = HashTableEntry.key := by
      funext entry
      simp only [Function.comp_apply]
      split <;> rfl
    rw [same]
    exact wf.slot idx

theorem find_update (wf : ht.WellFormed) (key : BitVec 64) (value : ν) (other : BitVec 64)
    (found : ν) :
    (ht.update key value).find other = .ok found ↔
      if other = key then found = value ∧ ∃ old, ht.find key = .ok old
      else ht.find other = .ok found := by
  unfold HashTable.update
  split
  · rename_i st lost
    split
    · rename_i same
      subst same
      simp [find_ok, lost]
    · rfl
  · rename_i idx place
    have inside := keyToSlotIdx_lt wf place
    split
    · rename_i same
      subst same
      rw [find_setSlot_same place inside, findEntry_update]
      simp only [find_ok, place]
      constructor
      · rintro ⟨entry, mapped, rfl⟩
        obtain ⟨old, there, rfl⟩ := Option.map_eq_some_iff.mp mapped
        exact ⟨by simp, old.value, idx, old, rfl, there, rfl⟩
      · rintro ⟨rfl, -, _, old, same, there, -⟩
        cases same
        exact ⟨_, by rw [there]; rfl, by simp⟩
    · rename_i different
      refine find_setSlot_of_findEntry inside ?_ found
      rw [findEntry_update]
      simp [different]

end HashTable

end Dxgmx
