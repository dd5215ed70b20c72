import Mathlib.Data.List.Nodup
import Mathlib.Logic.Function.Basic

namespace Library

/-- An array that an allocation holds, of which the first `count` elements are in use. -/
structure GrownArray (α : Type*) where
  slot : Nat → α
  count : Nat

namespace GrownArray

variable {α : Type*} {array : GrownArray α} {i : Nat}

def toList (array : GrownArray α) : List α := (List.range array.count).map array.slot

/-- One more element is in use. -/
def push (element : α) (array : GrownArray α) : GrownArray α :=
  ⟨Function.update array.slot array.count element, array.count + 1⟩

/-- The loop that moves `n` elements down by one, the one at `i + 1` first. -/
def shiftDown (slot : Nat → α) : (i n : Nat) → Nat → α
  | _, 0 => slot
  | i, n + 1 => shiftDown (Function.update slot i (slot (i + 1))) (i + 1) n

/-- The elements behind `i` are moved over it. Nothing is given back. -/
def closeGap (i : Nat) (array : GrownArray α) : GrownArray α :=
  { array with slot := shiftDown array.slot i (array.count - 1 - i) }

@[simp] theorem length_toList : array.toList.length = array.count := by simp [toList]

theorem getElem?_toList (array : GrownArray α) (i : Nat) :
    array.toList[i]? = if i < array.count then some (array.slot i) else none := by
  unfold toList
  rw [List.getElem?_map]
  split
  · rename_i inside
    rw [List.getElem?_range inside]
    rfl
  · rename_i outside
    simp [Nat.not_lt.mp outside]

theorem toList_push (array : GrownArray α) (element : α) :
    (array.push element).toList = array.toList ++ [element] := by
  unfold toList push
  dsimp only
  rw [List.range_succ, List.map_append, List.map_singleton, Function.update_self]
  congr 1
  apply List.map_congr_left
  intro i member
  exact Function.update_of_ne (Nat.ne_of_lt (List.mem_range.mp member)) _ _

theorem shiftDown_apply (n : Nat) (slot : Nat → α) (i j : Nat) :
    shiftDown slot i n j = if i ≤ j ∧ j < i + n then slot (j + 1) else slot j := by
  induction n generalizing slot i with
  | zero =>
    rw [if_neg (by omega)]
    rfl
  | succ n ih =>
    unfold shiftDown
    rw [ih]
    by_cases here : j = i
    · subst here
      rw [if_neg (by omega), if_pos (by omega), Function.update_self]
    · rw [Function.update_of_ne here]
      by_cases later : i ≤ j ∧ j < i + (n + 1)
      · rw [if_pos later, if_pos (by omega), Function.update_of_ne (by omega)]
      · rw [if_neg later, if_neg (by omega)]

/-- What is in front of the last element after a gap is closed. -/
theorem closeGap_slot (array : GrownArray α) (i j : Nat) :
    (array.closeGap i).slot j =
      if i ≤ j ∧ j + 1 < array.count then array.slot (j + 1) else array.slot j := by
  unfold closeGap
  dsimp only
  rw [shiftDown_apply]
  by_cases moved : i ≤ j ∧ j + 1 < array.count
  · rw [if_pos moved, if_pos (by omega)]
  · rw [if_neg moved, if_neg (by omega)]

/-- With one element less, the one at `i` is the one that is gone. -/
theorem toList_closeGap (inside : i < array.count) :
    GrownArray.toList ⟨(array.closeGap i).slot, array.count - 1⟩ = array.toList.eraseIdx i := by
  apply List.ext_getElem?
  intro j
  rw [getElem?_toList, List.getElem?_eraseIdx, getElem?_toList, getElem?_toList]
  dsimp only
  rw [closeGap_slot]
  by_cases before : j < i
  · have short : j < array.count - 1 := by omega
    have within : j < array.count := by omega
    simp [before, short, within, Nat.not_le.mpr before]
  · have after : i ≤ j := Nat.not_lt.mp before
    by_cases within : j + 1 < array.count
    · have short : j < array.count - 1 := by omega
      simp [before, after, short, within]
    · have short : ¬j < array.count - 1 := by omega
      simp [before, short, within]

end GrownArray

end Library
