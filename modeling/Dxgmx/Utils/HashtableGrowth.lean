import Dxgmx.Utils.HashtableMemory

open Library

namespace Dxgmx

variable {ν : Type}

namespace HashTableIn

/-- The counter is the largest number of entries, and a full slot makes an insert enlarge the table. -/
structure GrowthRight (ht : HashTableIn ν) : Prop where
  largest : ∀ slot ∈ ht.slots, slot.entryCount ≤ ht.biggestSlotEntryCount
  attained : ∃ slot ∈ ht.slots, slot.entryCount = ht.biggestSlotEntryCount
  enlarges : ∀ tmpTable st tmpSlot key value ret ht',
    (∃ slot ∈ ht.slots, ht.slotEntryCountThreshold ≤ slot.entryCount) → tmpTable ≠ 0 →
      ht.insert tmpTable st tmpSlot key value = .ok (ret, ht') →
        ht'.slots.length = 2 * ht.slots.length

variable {ht ht' : HashTableIn ν} {call : HashTableCall ν} {ret : Int}

/-- The counter and the threshold are those that `hashtable_init` left. -/
def AsMade (ht : HashTableIn ν) : Prop :=
  ht.biggestSlotEntryCount = 0 ∧ ht.slotEntryCountThreshold = 4

theorem AsMade.insert {tmpTable tmpSlot : Nat} {st : Int} {key : BitVec 64} {value : ν}
    (made : ht.AsMade) (done : ht.insert tmpTable st tmpSlot key value = .ok (ret, ht')) :
    ht'.AsMade := by
  have same : ht.maybeEnlarge tmpTable = (0, ht) := by
    unfold maybeEnlarge
    rw [made.1, made.2]
    rfl
  unfold HashTableIn.insert at done
  rw [same] at done
  dsimp only at done
  rw [if_neg (Int.lt_irrefl 0)] at done
  obtain ⟨hashRes, -, rest⟩ := Exec.bind_ok.mp done
  cases hashRes with
  | error st =>
    cases rest
    exact made
  | ok idx =>
    obtain ⟨⟨ret', slot, heap⟩, -, rest⟩ := Exec.bind_ok.mp rest
    cases rest
    exact made

theorem AsMade.remove {tmp : Nat} {st : Int} {key : BitVec 64} (made : ht.AsMade)
    (done : ht.remove st tmp key = .ok (ret, ht')) : ht'.AsMade := by
  obtain ⟨hashRes, -, rest⟩ := Exec.bind_ok.mp done
  cases hashRes with
  | error st =>
    cases rest
    exact made
  | ok idx =>
    obtain ⟨entries, -, rest⟩ := Exec.bind_ok.mp rest
    cases found : HashTable.findEntry key entries with
    | none =>
      rw [found] at rest
      cases rest
      exact made
    | some entry =>
      rw [found] at rest
      obtain ⟨⟨slot, heap⟩, -, rest⟩ := Exec.bind_ok.mp rest
      cases rest
      exact made

theorem AsMade.step (made : ht.AsMade) (step : ht.Step call ht') : ht'.AsMade := by
  obtain ⟨-, ret, done⟩ := step
  cases call with
  | insert tmpTable st tmpSlot key value => exact made.insert done
  | remove st tmp key => exact made.remove done

theorem AsMade.growthRight_iff (made : ht.AsMade) (sound : ht.Sound) :
    ht.GrowthRight ↔ ∀ slot ∈ ht.slots, slot.entryCount = 0 := by
  constructor
  · intro right slot member
    have most := right.largest slot member
    rw [made.1] at most
    exact Nat.le_zero.mp most
  · intro empty
    refine ⟨fun slot member => ?_, ?_, ?_⟩
    · rw [empty slot member]
      exact Nat.zero_le _
    · have member := slot_mem sound.some_slot
      exact ⟨_, member, (empty _ member).trans made.1.symm⟩
    · rintro tmpTable st tmpSlot key value ret ht' ⟨slot, member, full⟩
      rw [empty slot member, made.2] at full
      omega

end HashTableIn

namespace HashTable

variable {ht : HashTable ν}

/-- Each key sits in the slot that its hash selects. -/
def Placed (ht : HashTable ν) : Prop :=
  ∀ idx, ∀ entry ∈ ht.slot idx, ht.keyToSlotIdx entry.key = .ok idx

/-- The table once `hashtable_maybe_enlarge` has doubled it. -/
def doubled (ht : HashTable ν) : HashTable ν :=
  { ht with
    slots := ht.slots ++ List.replicate ht.slotCapacity []
    slotEntryCountThreshold := ht.slotEntryCountThreshold * 2 }

/-- Whatever `krealloc` answers, every key is found as before. -/
def EnlargingKeeps (ht : HashTable ν) : Prop :=
  ∀ mem ht', ht.maybeEnlarge mem = .ok ht' → ∀ key, ht'.find key = ht.find key

theorem doubled_slot (idx : Nat) :
    ht.doubled.slot idx = if idx < ht.slotCapacity then ht.slot idx else [] := by
  unfold doubled HashTable.slot slotCapacity
  rw [List.getD_eq_getElem?_getD, List.getD_eq_getElem?_getD, List.getElem?_append]
  by_cases inside : idx < ht.slots.length
  · rw [if_pos inside, if_pos inside]
  · rw [if_neg inside, if_neg inside, List.getElem?_replicate]
    split <;> rfl

theorem keyToSlotIdx_ok {key : BitVec 64} {idx : Nat} : ht.keyToSlotIdx key = .ok idx ↔
    ∃ digest, ht.chew key = .ok digest ∧
      (digest.foldl (· ^^^ ·) 0).toNat % ht.slotCapacity = idx := by
  unfold keyToSlotIdx
  cases ht.chew key with
  | error st => exact iff_of_false nofun fun ⟨_, chewed, _⟩ => nomatch chewed
  | ok digest =>
    constructor
    · intro place
      exact ⟨digest, rfl, Except.ok.inj place⟩
    · rintro ⟨digest', same, place⟩
      cases same
      exact congrArg Except.ok place

theorem keyToSlotIdx_error {key : BitVec 64} {st : Int} :
    ht.keyToSlotIdx key = .error st ↔ ht.chew key = .error st := by
  unfold keyToSlotIdx
  cases ht.chew key with
  | error st' =>
    constructor
    all_goals
      intro same
      cases same
      rfl
  | ok digest => exact iff_of_false nofun nofun

theorem doubled_slotCapacity : ht.doubled.slotCapacity = ht.slotCapacity * 2 := by
  unfold doubled slotCapacity
  dsimp only
  rw [List.length_append, List.length_replicate, Nat.mul_two]

/-- Twice the capacity selects the same slot or one of the new ones. -/
theorem doubled_keyToSlotIdx {key : BitVec 64} {idx : Nat} (place : ht.keyToSlotIdx key = .ok idx) :
    ht.doubled.keyToSlotIdx key = .ok idx ∨
      ∃ new, ht.doubled.keyToSlotIdx key = .ok new ∧ ht.slotCapacity ≤ new := by
  obtain ⟨digest, chewed, selected⟩ := keyToSlotIdx_ok.mp place
  have again : ht.doubled.keyToSlotIdx key =
      .ok ((digest.foldl (· ^^^ ·) 0).toNat % (ht.slotCapacity * 2)) :=
    keyToSlotIdx_ok.mpr ⟨digest, chewed, by rw [doubled_slotCapacity]⟩
  rw [again, ← selected]
  by_cases low : (digest.foldl (· ^^^ ·) 0).toNat % (ht.slotCapacity * 2) < ht.slotCapacity
  · left
    rw [← Nat.mod_mod_of_dvd _ (Nat.dvd_mul_right ht.slotCapacity 2), Nat.mod_eq_of_lt low]
  · exact .inr ⟨_, rfl, Nat.not_lt.mp low⟩

theorem find_mem (placed : ht.Placed) {idx : Nat} {entry : HashTableEntry ν}
    (member : entry ∈ ht.slot idx) : ∃ value, ht.find entry.key = .ok value := by
  cases found : findEntry entry.key (ht.slot idx) with
  | none => exact absurd (List.mem_map_of_mem member) (findEntry_none.mp found)
  | some other => exact ⟨other.value, find_ok.mpr ⟨idx, other, placed idx entry member, found, rfl⟩⟩

theorem find_eq {key : BitVec 64} {idx : Nat} (place : ht.keyToSlotIdx key = .ok idx) :
    ht.find key = ((findEntry key (ht.slot idx)).map HashTableEntry.value).elim (.error (-2)) .ok := by
  unfold find
  rw [place]
  dsimp only
  cases findEntry key (ht.slot idx) <;> rfl

/-- Doubling the table keeps what is found exactly if every stored key keeps its slot. -/
theorem doubled_find_iff (placed : ht.Placed) (low : ∀ idx, ht.slotCapacity ≤ idx → ht.slot idx = []) :
    (∀ key, ht.doubled.find key = ht.find key) ↔
      ∀ idx, ∀ entry ∈ ht.slot idx, ht.doubled.keyToSlotIdx entry.key = .ok idx := by
  constructor
  · intro kept idx entry member
    rcases doubled_keyToSlotIdx (placed idx entry member) with same | ⟨new, moved, high⟩
    · exact same
    · obtain ⟨value, found⟩ := find_mem placed member
      rw [← kept, find_eq moved, doubled_slot, if_neg (Nat.not_lt.mpr high)] at found
      cases found
  · intro stay key
    cases place : ht.keyToSlotIdx key with
    | error st =>
      have chewed := keyToSlotIdx_error.mp place
      have again : ht.doubled.keyToSlotIdx key = .error st := keyToSlotIdx_error.mpr chewed
      unfold find
      rw [place, again]
    | ok idx =>
      rw [find_eq place]
      rcases doubled_keyToSlotIdx place with same | ⟨new, moved, high⟩
      · rw [find_eq same, doubled_slot]
        by_cases inside : idx < ht.slotCapacity
        · rw [if_pos inside]
        · rw [if_neg inside, low idx (Nat.not_lt.mp inside)]
      · rw [find_eq moved, doubled_slot, if_neg (Nat.not_lt.mpr high)]
        cases found : findEntry key (ht.slot idx) with
        | none => rfl
        | some entry =>
          have member := List.mem_of_find?_eq_some found
          have same : entry.key = key := by simpa using List.find?_some found
          have stays := stay idx entry member
          rw [same, moved] at stays
          cases stays
          rw [low idx high] at member
          cases member

theorem slot_outside {idx : Nat} (outside : ht.slotCapacity ≤ idx) : ht.slot idx = [] := by
  unfold HashTable.slot
  rw [List.getD_eq_getElem?_getD, List.getElem?_eq_none outside]
  rfl

theorem enlargingKeeps_iff (placed : ht.Placed) :
    ht.EnlargingKeeps ↔ ht.biggestSlotEntryCount < ht.slotEntryCountThreshold ∨
      ∀ idx, ∀ entry ∈ ht.slot idx, ht.doubled.keyToSlotIdx entry.key = .ok idx := by
  rw [← doubled_find_iff placed fun _ => slot_outside]
  by_cases below : ht.biggestSlotEntryCount < ht.slotEntryCountThreshold
  · refine iff_of_true (fun mem ht' enlarged key => ?_) (.inl below)
    unfold maybeEnlarge at enlarged
    rw [if_pos below] at enlarged
    cases enlarged
    rfl
  · rw [or_iff_right below]
    constructor
    · intro keeps
      apply keeps true
      unfold maybeEnlarge
      rw [if_neg below, if_neg Bool.noConfusion]
      rfl
    · intro kept mem ht' enlarged
      unfold maybeEnlarge at enlarged
      rw [if_neg below] at enlarged
      cases mem with
      | false => cases enlarged
      | true =>
        cases enlarged
        exact kept

end HashTable

/-- The counter that decides about growth is right in a table exactly while it is empty. Growth keeps
    what is found exactly if there is none, or if no stored key is selected another slot. -/
theorem hashtable_growth_iff (digestSize : Nat) (digest : BitVec 64 → Nat → BitVec 32)
    (calls : List (HashTableCall ν)) (reached : HashTableIn ν) (ht : HashTable ν)
    (run : Run HashTableIn.Step (HashTableIn.init digestSize digest) calls reached)
    (placed : ht.Placed) :
    (reached.GrowthRight ↔ ∀ slot ∈ reached.slots, slot.entryCount = 0) ∧
      (ht.EnlargingKeeps ↔ ht.biggestSlotEntryCount < ht.slotEntryCountThreshold ∨
        ∀ idx, ∀ entry ∈ ht.slot idx, ht.doubled.keyToSlotIdx entry.key = .ok idx) := by
  have sound := run.invariant HashTableIn.Sound (fun _ _ _ step sound => sound.step step)
    (HashTableIn.sound_init digestSize digest)
  have made := run.invariant HashTableIn.AsMade (fun _ _ _ step made => made.step step) ⟨rfl, rfl⟩
  exact ⟨made.growthRight_iff sound, HashTable.enlargingKeeps_iff placed⟩

/-- A table of one slot whose one key, 1, hashes to itself. -/
def oneSlotTable (threshold : Nat) : HashTable Nat :=
  ⟨[[⟨1, 10⟩]], 1, threshold, fun key => .ok [key.setWidth 32]⟩

theorem oneSlotTable_placed (threshold : Nat) : (oneSlotTable threshold).Placed := by
  intro idx entry member
  cases idx with
  | zero =>
    cases List.mem_singleton.mp member
    exact HashTable.keyToSlotIdx_ok.mpr ⟨_, rfl, Nat.mod_one _⟩
  | succ idx => cases member

theorem hashtable_growth_oneSlot :
    (HashTableIn.init 4 fun _ _ => 0 : HashTableIn Nat).GrowthRight ∧
      (oneSlotTable 2).EnlargingKeeps := by
  have iffs := hashtable_growth_iff 4 (fun _ _ => 0) [] (HashTableIn.init 4 fun _ _ => 0)
    (oneSlotTable 2) (.refl _) (oneSlotTable_placed 2)
  refine ⟨iffs.1.mpr fun slot member => ?_, iffs.2.mpr (.inl (by decide))⟩
  rw [List.eq_of_mem_replicate member]

/-- A table with an entry counts none in its largest slot, and a key is lost when a table grows. -/
theorem not_hashtable_growth :
    (∃ calls, Run HashTableIn.Step (HashTableIn.init 4 fun _ _ => 0) calls
      HashTableIn.twoEntries) ∧ ¬ HashTableIn.twoEntries.GrowthRight ∧
    (oneSlotTable 1).Placed ∧ ¬ (oneSlotTable 1).EnlargingKeeps := by
  refine ⟨⟨_, HashTableIn.twoEntries_run⟩, fun right => ?_, oneSlotTable_placed 1, fun keeps => ?_⟩
  · exact absurd (right.largest ⟨8192, 2⟩ List.mem_cons_self) (by decide)
  · have kept := keeps true _ rfl 1
    cases kept

end Dxgmx
