import Dxgmx.Utils.Hashtable

namespace Dxgmx

namespace HashTable

/-- A call on a table. -/
inductive Call (ν : Type)
  | insert (key : BitVec 64) (value : ν)
  | find (key : BitVec 64)
  | remove (key : BitVec 64)

variable {ν : Type}

def Call.key : Call ν → BitVec 64
  | .insert key _ => key
  | .find key => key
  | .remove key => key

/-- The table after a call for which memory is found. -/
def Call.after : Call ν → HashTable ν → HashTable ν
  | .insert key value, ht => (ht.insert true true key value).2
  | .find _, ht => ht
  | .remove key, ht =>
    match ht.remove key with
    | .ok ht => ht
    | .error _ => ht

/-- The table after `hashtable_init` and `calls`, of which the first is the latest. -/
def afterCalls (chew : BitVec 64 → Except Int (List (BitVec 32))) (calls : List (Call ν)) :
    HashTable ν :=
  calls.foldr Call.after (init chew)

/-- The finite map a table stands for: the value of the latest insert of `key` that no remove of
    `key` follows. -/
def latest (key : BitVec 64) : List (Call ν) → Option ν
  | [] => none
  | .insert other value :: earlier => if key = other then some value else latest key earlier
  | .find _ :: earlier => latest key earlier
  | .remove other :: earlier => if key = other then none else latest key earlier

/-- The hash function answers for every key. -/
def Chews (chew : BitVec 64 → Except Int (List (BitVec 32))) : Prop :=
  ∀ key, ∃ digest, chew key = .ok digest

/-- What holds of the table after any calls. -/
structure Holds (ht : HashTable ν) (contents : BitVec 64 → Option ν) : Prop where
  wellFormed : ht.WellFormed
  chews : Chews ht.chew
  finds : ∀ key value, ht.find key = .ok value ↔ contents key = some value

variable {ht : HashTable ν} {contents : BitVec 64 → Option ν}

theorem Chews.keyToSlotIdx (chews : Chews ht.chew) (key : BitVec 64) :
    ∃ idx, ht.keyToSlotIdx key = .ok idx := by
  obtain ⟨digest, chewed⟩ := chews key
  unfold HashTable.keyToSlotIdx
  rw [chewed]
  exact ⟨_, rfl⟩

theorem Chews.insert (wf : ht.WellFormed) (chews : Chews ht.chew) (key : BitVec 64) (value : ν) :
    ∃ ht', ht.insert true true key value = (.ok (), ht') := by
  have grows (slot : HashTableSlot ν) : ∃ added, addValueToSlot true key value slot = some added := by
    induction slot with
    | nil => exact ⟨_, rfl⟩
    | cons entry rest ih =>
      rw [addValueToSlot]
      by_cases here : entry.key = key
      · exact ⟨_, if_pos here⟩
      · obtain ⟨added, grown⟩ := ih
        rw [if_neg here, grown]
        exact ⟨_, rfl⟩
  obtain ⟨idx, place⟩ := chews.keyToSlotIdx key
  obtain ⟨added, grown⟩ := grows (ht.slot idx)
  unfold HashTable.insert
  rw [maybeEnlarge_wellFormed wf]
  simp only [place, grown]
  exact ⟨_, rfl⟩

theorem Chews.find (chews : Chews ht.chew) (key : BitVec 64) :
    (∃ value, ht.find key = .ok value) ∨ ht.find key = .error (-2) := by
  obtain ⟨idx, place⟩ := chews.keyToSlotIdx key
  unfold HashTable.find
  rw [place]
  cases found : findEntry key (ht.slot idx) with
  | none => exact .inr (by simp only [found])
  | some entry => exact .inl ⟨entry.value, by simp only [found]⟩

theorem Chews.remove (chews : Chews ht.chew) (key : BitVec 64) :
    (∃ value ht', ht.find key = .ok value ∧ ht.remove key = .ok ht') ∨
      ht.find key = .error (-2) ∧ ht.remove key = .error (-2) := by
  obtain ⟨idx, place⟩ := chews.keyToSlotIdx key
  unfold HashTable.find HashTable.remove
  rw [place]
  cases found : findEntry key (ht.slot idx) with
  | none => exact .inr ⟨by simp only [found], by simp only [found]⟩
  | some entry => exact .inl ⟨entry.value, _, by simp only [found], by simp only [found]; rfl⟩

theorem insert_chew (wf : ht.WellFormed) {key : BitVec 64} {value : ν} {ht' : HashTable ν}
    (h : ht.insert true true key value = (.ok (), ht')) : ht'.chew = ht.chew := by
  obtain ⟨idx, slot, -, -, rfl⟩ := insert_ok wf h
  rfl

theorem remove_chew {key : BitVec 64} {ht' : HashTable ν} (h : ht.remove key = .ok ht') :
    ht'.chew = ht.chew := by
  obtain ⟨idx, -, rfl⟩ := remove_ok h
  rfl

theorem holds_init {chew : BitVec 64 → Except Int (List (BitVec 32))} (chews : Chews chew) :
    Holds (init chew : HashTable ν) fun _ => none where
  wellFormed := wellFormed_init chew
  chews := chews
  finds := by
    intro key value
    rw [find_ok]
    simp [init_slot, findEntry]

theorem Holds.insert (holds : Holds ht contents) (key : BitVec 64) (value : ν) :
    Holds ((Call.insert key value).after ht)
      fun other => if other = key then some value else contents other := by
  obtain ⟨ht', inserted⟩ := holds.chews.insert holds.wellFormed key value
  show Holds (ht.insert true true key value).2 _
  rw [inserted]
  constructor
  · exact holds.wellFormed.insert inserted
  · rw [insert_chew holds.wellFormed inserted]
    exact holds.chews
  · intro other found
    rw [find_insert holds.wellFormed inserted, holds.finds]
    by_cases same : other = key
    · rw [if_pos same, if_pos same, Option.some_inj, eq_comm]
    · rw [if_neg same, if_neg same]

theorem Holds.remove (holds : Holds ht contents) (key : BitVec 64) :
    Holds ((Call.remove key).after ht)
      fun other => if other = key then none else contents other := by
  show Holds (match ht.remove key with | .ok ht => ht | .error _ => ht) _
  rcases holds.chews.remove key with ⟨_, ht', -, removed⟩ | ⟨absent, kept⟩
  · rw [removed]
    constructor
    · exact holds.wellFormed.remove removed
    · rw [remove_chew removed]
      exact holds.chews
    · intro other found
      rw [find_remove holds.wellFormed removed, holds.finds]
      by_cases same : other = key
      · simp [same]
      · simp [same]
  · rw [kept]
    constructor
    · exact holds.wellFormed
    · exact holds.chews
    · intro other found
      rw [holds.finds]
      by_cases same : other = key
      · -- nothing was stored under the key that is not there
        rw [if_pos same, same, ← holds.finds, absent]
        simp
      · rw [if_neg same]

theorem Holds.after {calls : List (Call ν)} (holds : Holds ht fun key => latest key calls)
    (call : Call ν) : Holds (call.after ht) fun key => latest key (call :: calls) := by
  cases call with
  | insert key value => exact holds.insert key value
  | find key => exact holds
  | remove key => exact holds.remove key

theorem holds_afterCalls {chew : BitVec 64 → Except Int (List (BitVec 32))} (chews : Chews chew)
    (calls : List (Call ν)) : Holds (afterCalls chew calls) fun key => latest key calls := by
  induction calls with
  | nil => exact holds_init chews
  | cons call earlier ih => exact ih.after call

theorem Holds.find (holds : Holds ht contents) (key : BitVec 64) :
    ht.find key = (contents key).elim (.error (-2)) .ok := by
  rcases holds.chews.find key with ⟨value, found⟩ | absent
  · rw [found, (holds.finds key value).mp found]
    rfl
  · cases there : contents key with
    | none => exact absent
    | some value =>
      rw [(holds.finds key value).mpr there] at absent
      cases absent

theorem Holds.remove_ok (holds : Holds ht contents) (key : BitVec 64) :
    (∃ ht', ht.remove key = .ok ht') ↔ ∃ value, contents key = some value := by
  rcases holds.chews.remove key with ⟨value, ht', found, removed⟩ | ⟨absent, kept⟩
  · exact iff_of_true ⟨ht', removed⟩ ⟨value, (holds.finds key value).mp found⟩
  · constructor
    · rintro ⟨ht', removed⟩
      rw [kept] at removed
      cases removed
    · rintro ⟨value, there⟩
      rw [(holds.finds key value).mpr there] at absent
      cases absent

theorem latest_of_ne {call : Call ν} {key : BitVec 64} (other : call.key ≠ key)
    (calls : List (Call ν)) : latest key (call :: calls) = latest key calls := by
  cases call with
  | insert key' value => exact if_neg (Ne.symm other)
  | find key' => rfl
  | remove key' => exact if_neg (Ne.symm other)

/-- A table is a finite map: finding and removing answer by the latest insert, and a call on one
    key leaves the others alone. -/
theorem calls_refine_map (chew : BitVec 64 → Except Int (List (BitVec 32))) (chews : Chews chew)
    (calls : List (Call ν)) :
    (∀ key value, ∃ ht', (afterCalls chew calls).insert true true key value = (.ok (), ht')) ∧
    (∀ key, (afterCalls chew calls).find key = (latest key calls).elim (.error (-2)) .ok) ∧
    (∀ key, (∃ ht', (afterCalls chew calls).remove key = .ok ht') ↔
      ∃ value, latest key calls = some value) ∧
    (∀ (call : Call ν) (key : BitVec 64), call.key ≠ key →
      (call.after (afterCalls chew calls)).find key = (afterCalls chew calls).find key) := by
  have holds := holds_afterCalls chews calls
  refine ⟨holds.chews.insert holds.wellFormed, holds.find, holds.remove_ok, ?_⟩
  intro call key other
  rw [(holds.after call).find, holds.find, latest_of_ne other]

/-- Two keys of one slot, one of them stored twice and the other removed. -/
theorem calls_refine_map_colliding :
    (afterCalls (fun _ => .ok [0, 1]) [.remove 3, .insert 5 20, .insert 3 7, .insert 5 10]).find 5 =
      .ok (20 : BitVec 64) :=
  (calls_refine_map (fun _ => .ok [0, 1]) (fun _ => ⟨_, rfl⟩)
    [.remove 3, .insert 5 20, .insert 3 7, .insert 5 10]).2.1 5

end HashTable

end Dxgmx
