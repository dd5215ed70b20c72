import Mathlib.Data.List.Basic
import Dxgmx.Library.Exec

namespace Library

/-- A block of memory. A cell that nothing was stored in has no value. -/
abbrev Buffer (α : Type) := List (Option α)

namespace Buffer

variable {α : Type}

def store (b : Buffer α) (place : Nat) (value : α) : Exec (Buffer α) :=
  if place < b.length then .ok (b.set place (some value)) else .error .fault

def storeAll : Buffer α → (place : Nat) → List α → Exec (Buffer α)
  | b, _, [] => .ok b
  | b, place, value :: values => do
    let b ← b.store place value
    storeAll b (place + 1) values

/-- How many cells come before the first one that holds `stop`. -/
def find [DecidableEq α] (stop : α) : Buffer α → Exec Nat
  | [] => .error .fault
  | none :: _ => .error .fault
  | some value :: rest =>
    if value = stop then .ok 0
    else do
      let n ← find stop rest
      pure (n + 1)

variable {b b' : Buffer α} {place : Nat} {value : α} {values : List α}

theorem store_ok :
    b.store place value = .ok b' ↔ place < b.length ∧ b' = b.set place (some value) := by
  unfold store
  split_ifs with inside
  · simp [inside, eq_comm]
  · simp [inside]

/-- Stores are defined inside of the block. -/
theorem storeAll_ok_iff :
    (∃ b', b.storeAll place values = .ok b') ↔ values = [] ∨ place + values.length ≤ b.length := by
  induction values generalizing b place with
  | nil => simp [storeAll]
  | cons value values ih =>
    simp only [storeAll, Exec.bind_ok, store_ok, List.cons_ne_nil, false_or, List.length_cons]
    constructor
    · rintro ⟨b', _, ⟨inside, rfl⟩, rest⟩
      rcases ih.mp ⟨b', rest⟩ with rfl | room
      · rw [List.length_nil]
        omega
      · rw [List.length_set] at room
        omega
    · intro room
      obtain ⟨b', rest⟩ := (@ih (b.set place (some value)) (place + 1)).mpr
        (.inr (by rw [List.length_set]; omega))
      exact ⟨b', _, ⟨by omega, rfl⟩, rest⟩

theorem storeAll_getElem? (stored : b.storeAll place values = .ok b') (i : Nat) :
    b'[i]? = if place ≤ i ∧ i < place + values.length then values[i - place]?.map some else b[i]? := by
  induction values generalizing b place with
  | nil =>
    cases stored
    rw [if_neg (by simp)]
  | cons value values ih =>
    obtain ⟨_, first, rest⟩ := Exec.bind_ok.mp stored
    rcases store_ok.mp first with ⟨inside, rfl⟩
    rw [ih rest, List.length_cons]
    by_cases here : i = place
    · subst here
      rw [if_neg (by omega), if_pos (by omega)]
      simp [inside]
    · rw [List.getElem?_set_ne (by omega)]
      by_cases after : place + 1 ≤ i ∧ i < place + 1 + values.length
      · rw [if_pos after, if_pos (by omega), show i - place = i - (place + 1) + 1 by omega,
          List.getElem?_cons_succ]
      · rw [if_neg after, if_neg (by omega)]

theorem storeAll_length (stored : b.storeAll place values = .ok b') : b'.length = b.length := by
  induction values generalizing b place with
  | nil =>
    cases stored
    rfl
  | cons value values ih =>
    obtain ⟨_, first, rest⟩ := Exec.bind_ok.mp stored
    rcases store_ok.mp first with ⟨-, rfl⟩
    rw [ih rest, List.length_set]

theorem find_ok [DecidableEq α] {stop : α} {n : Nat} (before : ∀ i < n, ∃ v ≠ stop, b[i]? = some (some v))
    (here : b[n]? = some (some stop)) : b.find stop = .ok n := by
  induction n generalizing b with
  | zero =>
    cases b with
    | nil => cases here
    | cons cell rest =>
      cases Option.some.inj here
      simp [find]
  | succ n ih =>
    cases b with
    | nil => cases here
    | cons cell rest =>
      obtain ⟨v, other, first⟩ := before 0 (Nat.succ_pos n)
      cases Option.some.inj first
      have later := @ih rest (fun i inside => before (i + 1) (Nat.succ_lt_succ inside)) here
      simp [find, other, later]

end Buffer

end Library
