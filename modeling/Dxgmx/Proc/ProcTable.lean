import Dxgmx.Proc.Procm
import Mathlib.Data.List.Basic

open Library

namespace Dxgmx

/-- What the pool of processes is for: which pids are in use, where the search for a free one goes
    on, and how many there are. -/
structure ProcTable where
  slots : List (Option Pid)
  cursor : Nat
  count : Nat
  deriving DecidableEq

namespace ProcTable

variable {table table' : ProcTable} {mem : Bool} {st : Int} {pid : Pid} {idx : Nat}

/-- The first free slot from the cursor on, or the end of the table. -/
def free (table : ProcTable) : Nat :=
  table.cursor + (table.slots.drop table.cursor).findIdx Option.isNone

/-- The pool cannot grow. -/
def Refused (mem : Bool) (table : ProcTable) : Prop :=
  mem = false ∨ 2 ^ 32 ≤ (table.slots.length + 16) * 4

instance : Decidable (table.Refused mem) :=
  inferInstanceAs (Decidable (mem = false ∨ 2 ^ 32 ≤ (table.slots.length + 16) * 4))

def enroll (mem : Bool) (table : ProcTable) : Exec (Int × ProcTable) :=
  let idx := table.free
  let pid : Pid := BitVec.ofNat 32 (idx + 1)
  if pid.toInt ≤ 0 then .ok (-28, { table with cursor := idx + 1 })
  else if table.slots.length < pidIdx pid then .error .panic
  else if pidIdx pid = table.slots.length ∧ table.Refused mem then
    .ok (-12, { table with cursor := idx + 1 })
  else
    let slots := if pidIdx pid = table.slots.length then table.slots ++ List.replicate 16 none
      else table.slots
    .ok (pid.toInt, ⟨slots.set (pidIdx pid) (some pid), idx + 1, table.count + 1⟩)

def kill (pid : Pid) (table : ProcTable) : ProcTable :=
  ⟨table.slots.set (pidIdx pid) none, pidIdx pid, table.count - 1⟩

/-- Each process stands where its pid says, and the search starts inside the table. -/
structure Sound (table : ProcTable) : Prop where
  placed : ∀ idx pid, table.slots[idx]? = some (some pid) → pid.toNat = idx + 1
  counted : table.count = table.slots.countP Option.isSome
  inside : table.cursor ≤ table.slots.length
  short : table.slots.length * 4 < 2 ^ 32

theorem Sound.free_le (sound : table.Sound) : table.free ≤ table.slots.length := by
  have found : (table.slots.drop table.cursor).findIdx Option.isNone ≤
      (table.slots.drop table.cursor).length := List.findIdx_le_length
  have inside := sound.inside
  rw [List.length_drop] at found
  unfold free
  omega

theorem pidIdx_ofNat (small : idx + 1 < 2 ^ 32) : pidIdx (BitVec.ofNat 32 (idx + 1)) = idx := by
  unfold pidIdx
  rw [BitVec.toNat_sub_of_le (by simp [BitVec.le_def]; omega), BitVec.toNat_ofNat,
    Nat.mod_eq_of_lt small]
  rfl

theorem Sound.pidIdx (sound : table.Sound) (here : table.slots[idx]? = some (some pid)) :
    pidIdx pid = idx := by
  have place := sound.placed idx pid here
  have small := pid.isLt
  have same : pid = BitVec.ofNat 32 (idx + 1) := by
    rw [← place, BitVec.ofNat_toNat, BitVec.setWidth_eq]
  rw [same, pidIdx_ofNat (by omega)]

theorem slot_free (inside : table.free < table.slots.length) :
    table.slots[table.free]? = some none := by
  have below : (table.slots.drop table.cursor).findIdx Option.isNone <
      (table.slots.drop table.cursor).length := by
    unfold free at inside
    rw [List.length_drop]
    omega
  have hit : ((table.slots.drop table.cursor)[(table.slots.drop table.cursor).findIdx
      Option.isNone]).isNone = true := List.findIdx_getElem
  rw [List.getElem_drop] at hit
  rw [List.getElem?_eq_getElem inside]
  exact congrArg some (Option.isNone_iff_eq_none.mp hit)


/-- The slots once the one that the search ended at exists. -/
def grown (table : ProcTable) : List (Option Pid) :=
  if table.free = table.slots.length then table.slots ++ List.replicate 16 none else table.slots

theorem grown_getElem? (idx : Nat) (pid : Pid) :
    table.grown[idx]? = some (some pid) ↔ table.slots[idx]? = some (some pid) := by
  unfold grown
  by_cases full : table.free = table.slots.length
  · rw [if_pos full]
    by_cases inside : idx < table.slots.length
    · rw [List.getElem?_append_left inside]
    · have outside := Nat.le_of_not_lt inside
      rw [List.getElem?_append_right outside, List.getElem?_eq_none outside, List.getElem?_replicate]
      split <;> simp
  · rw [if_neg full]

theorem grown_countP : table.grown.countP Option.isSome = table.slots.countP Option.isSome := by
  unfold grown
  split
  · rw [List.countP_append, List.countP_replicate]
    rfl
  · rfl

theorem Sound.free_lt_grown (sound : table.Sound) : table.free < table.grown.length := by
  have bound := sound.free_le
  unfold grown
  by_cases full : table.free = table.slots.length
  · rw [if_pos full, List.length_append, List.length_replicate]
    omega
  · rw [if_neg full]
    omega

theorem Sound.grown_free (sound : table.Sound) : table.grown[table.free]? = some none := by
  unfold grown
  by_cases full : table.free = table.slots.length
  · rw [if_pos full, List.getElem?_append_right (by omega), List.getElem?_replicate, if_pos (by omega)]
  · rw [if_neg full]
    have bound := sound.free_le
    exact slot_free (by omega)

/-- What a sound table answers. It never panics. -/
theorem Sound.enroll_eq (sound : table.Sound) (mem : Bool) :
    table.enroll mem =
      if table.free = table.slots.length ∧ table.Refused mem then
        .ok (-12, { table with cursor := table.free + 1 })
      else .ok ((table.free : Int) + 1, ⟨table.grown.set table.free
        (some (BitVec.ofNat 32 (table.free + 1))), table.free + 1, table.count + 1⟩) := by
  have bound := sound.free_le
  have short := sound.short
  have small : table.free + 1 < 2 ^ 32 := by omega
  have value : (BitVec.ofNat 32 (table.free + 1)).toInt = (table.free : Int) + 1 := by
    rw [BitVec.toInt_eq_toNat_of_lt] <;> rw [BitVec.toNat_ofNat, Nat.mod_eq_of_lt small]
    · rfl
    · omega
  unfold enroll
  dsimp only
  rw [value, pidIdx_ofNat small, if_neg (by omega), if_neg (by omega)]
  rfl

theorem Sound.enroll (sound : table.Sound) (h : table.enroll mem = .ok (st, table'))
    (grows : ¬ (table.free = table.slots.length ∧ table.Refused mem)) : 0 < st ∧ table'.Sound := by
  rw [sound.enroll_eq, if_neg grows] at h
  cases h
  have inside := sound.free_lt_grown
  have short : table.grown.length * 4 < 2 ^ 32 := by
    have before := sound.short
    unfold grown
    by_cases full : table.free = table.slots.length
    · have measured := not_or.mp (not_and.mp grows full)
      rw [if_pos full, List.length_append, List.length_replicate]
      omega
    · rw [if_neg full]
      exact before
  refine ⟨by omega, ?_, ?_, ?_, ?_⟩
  · intro idx pid here
    by_cases same : table.free = idx
    · rw [List.getElem?_set, if_pos same, if_pos inside] at here
      cases here
      rw [← same, BitVec.toNat_ofNat]
      exact Nat.mod_eq_of_lt (by omega)
    · rw [List.getElem?_set, if_neg same, grown_getElem?] at here
      exact sound.placed idx pid here
  · have empty : table.grown[table.free] = none := by
      have here := sound.grown_free
      rw [List.getElem?_eq_getElem inside] at here
      exact Option.some.inj here
    rw [List.countP_set inside, empty, grown_countP, ← sound.counted]
    rfl
  · rw [List.length_set]
    exact inside
  · rw [List.length_set]
    exact short

theorem Sound.kill (sound : table.Sound) (here : table.slots[idx]? = some (some pid)) :
    (table.kill pid).Sound := by
  have inside : idx < table.slots.length := (List.getElem?_eq_some_iff.mp here).1
  unfold ProcTable.kill
  rw [sound.pidIdx here]
  refine ⟨?_, ?_, ?_, ?_⟩
  · intro other pid' there
    by_cases same : idx = other
    · rw [List.getElem?_set, if_pos same, if_pos inside] at there
      cases there
    · rw [List.getElem?_set, if_neg same] at there
      exact sound.placed other pid' there
  · have used : table.slots[idx] = some pid := by
      rw [List.getElem?_eq_getElem inside] at here
      exact Option.some.inj here
    rw [List.countP_set inside, used, sound.counted]
    rfl
  · rw [List.length_set]
    exact Nat.le_of_lt inside
  · rw [List.length_set]
    exact sound.short

theorem enroll_past (past : table.cursor = table.slots.length + 1)
    (short : table.slots.length * 4 < 2 ^ 32) (mem : Bool) : table.enroll mem = .error .panic := by
  have next : table.free = table.slots.length + 1 := by
    have none : table.slots.drop (table.slots.length + 1) = [] := List.drop_of_length_le (by omega)
    unfold free
    rw [past, none]
    rfl
  have small : table.slots.length + 1 + 1 < 2 ^ 32 := by omega
  unfold ProcTable.enroll
  dsimp only
  rw [next, pidIdx_ofNat small, if_neg, if_pos (by omega)]
  rw [BitVec.toInt_eq_toNat_of_lt] <;> rw [BitVec.toNat_ofNat, Nat.mod_eq_of_lt small] <;> omega

/-- After it was refused the memory to grow, the table panics at the next process. -/
theorem Sound.refused (sound : table.Sound) (full : table.free = table.slots.length)
    (refused : table.Refused mem) (again : Bool) :
    ∃ left, table.enroll mem = .ok (-12, left) ∧ left.enroll again = .error .panic := by
  refine ⟨{ table with cursor := table.free + 1 }, ?_, ?_⟩
  · rw [sound.enroll_eq, if_pos ⟨full, refused⟩]
  · apply enroll_past
    · exact congrArg (· + 1) full
    · exact sound.short

/-- The table is sound, up to a search that may start behind its end. -/
structure Held (table : ProcTable) : Prop where
  sound : Sound { table with cursor := 0 }
  cursor : table.cursor ≤ table.slots.length + 1

theorem Sound.held (sound : table.Sound) : table.Held :=
  ⟨⟨sound.placed, sound.counted, Nat.zero_le _, sound.short⟩, Nat.le_succ_of_le sound.inside⟩

theorem Held.kill (held : table.Held) (here : table.slots[idx]? = some (some pid)) :
    (table.kill pid).Held := by
  have killed : ({ table with cursor := 0 } : ProcTable).kill pid = table.kill pid := rfl
  rw [← killed]
  exact (held.sound.kill here).held

/-- A spawn that does not end in the assertion adds one new pid, or none. -/
theorem Held.enroll (held : table.Held) (h : table.enroll mem = .ok (st, table')) :
    table'.Held ∧
      (st ≤ 0 ∧ table'.slots = table.slots ∨
        0 < st ∧ some (BitVec.ofInt 32 st) ∉ table.slots ∧
          ∀ pid, some pid ∈ table'.slots → some pid ∈ table.slots ∨ pid = BitVec.ofInt 32 st) ∧
      ∀ (idx : Nat) (pid : Pid), table.slots[idx]? = some (some pid) →
        table'.slots[idx]? = some (some pid) := by
  by_cases inside : table.cursor ≤ table.slots.length
  · have sound : table.Sound :=
      ⟨held.sound.placed, held.sound.counted, inside, held.sound.short⟩
    by_cases refused : table.free = table.slots.length ∧ table.Refused mem
    · rw [sound.enroll_eq, if_pos refused] at h
      cases h
      have past : table.free + 1 ≤ table.slots.length + 1 := by omega
      exact ⟨⟨held.sound, past⟩, .inl ⟨by decide, rfl⟩, fun _ _ here => here⟩
    · have after := (sound.enroll h refused).2
      rw [sound.enroll_eq, if_neg refused] at h
      cases h
      have below := sound.free_lt_grown
      have empty := sound.grown_free
      have new : BitVec.ofInt 32 ((table.free : Int) + 1) = BitVec.ofNat 32 (table.free + 1) :=
        BitVec.ofInt_natCast 32 (table.free + 1)
      have there : (table.grown.set table.free (some (BitVec.ofNat 32 (table.free + 1))))[
          table.free]? = some (some (BitVec.ofNat 32 (table.free + 1))) := by
        rw [List.getElem?_set, if_pos rfl, if_pos below]
      refine ⟨after.held, .inr ⟨by omega, ?_, ?_⟩, fun idx pid here => ?_⟩
      · intro member
        obtain ⟨idx, here⟩ := List.mem_iff_getElem?.mp member
        rw [new] at here
        have place := (sound.placed idx _ here).symm.trans (after.placed _ _ there)
        have same : idx = table.free := by omega
        rw [same, ← grown_getElem?, empty] at here
        cases here
      · intro pid member
        obtain ⟨idx, here⟩ := List.mem_iff_getElem?.mp member
        rw [new]
        by_cases same : table.free = idx
        · rw [← same, there] at here
          cases here
          exact .inr rfl
        · rw [List.getElem?_set, if_neg same, grown_getElem?] at here
          exact .inl (List.mem_of_getElem? here)
      · have other : table.free ≠ idx := by
          rintro rfl
          rw [← grown_getElem?, empty] at here
          cases here
        rw [List.getElem?_set, if_neg other, grown_getElem?]
        exact here
  · have past : table.cursor = table.slots.length + 1 := by
      have bound := held.cursor
      omega
    rw [enroll_past past held.sound.short] at h
    cases h

end ProcTable

end Dxgmx
