import Mathlib.Data.List.Induction
import Mathlib.Logic.Function.Basic
import Dxgmx.Library.Exec

namespace Library

variable {α : Type}

/-- A cell of a block of memory. -/
def fetch (block : List α) (i : Nat) : Exec α :=
  match block[i]? with
  | none => .error .fault
  | some a => .ok a

/-- `n` cells from `i` on. -/
def fetchAll : (i n : Nat) → List α → Exec (List α)
  | _, 0, _ => .ok []
  | i, n + 1, block => do
    let a ← fetch block i
    let rest ← fetchAll (i + 1) n block
    pure (a :: rest)

def put (block : List α) (i : Nat) (a : α) : Exec (List α) :=
  if i < block.length then .ok (block.set i a) else .error .fault

def putAll : (i : Nat) → List α → List α → Exec (List α)
  | _, [], block => .ok block
  | i, a :: rest, block => do
    let block ← put block i a
    putAll (i + 1) rest block

/-- `left` cells from `i` on take what stands `shift` cells behind them, the first one first. -/
def moveDown (shift : Nat) : (left i : Nat) → List α → Exec (List α)
  | 0, _, block => .ok block
  | left + 1, i, block => do
    let a ← fetch block (i + shift)
    let block ← put block i a
    moveDown shift left (i + 1) block

/-- The first `left` cells move `shift` cells up, the last one first. -/
def moveUp (shift : Nat) : (left : Nat) → List α → Exec (List α)
  | 0, block => .ok block
  | left + 1, block => do
    let a ← fetch block left
    let block ← put block (left + shift) a
    moveUp shift left block

/-- The `left` cells from `i` on move up by one, the last one first. -/
def openGap (i : Nat) : (left : Nat) → List α → Exec (List α)
  | 0, block => .ok block
  | left + 1, block => do
    let a ← fetch block (i + left)
    let block ← put block (i + left + 1) a
    openGap i left block

theorem fetch_append (before : List α) (a : α) (after : List α) :
    fetch (before ++ a :: after) before.length = .ok a := by
  unfold fetch
  rw [List.getElem?_append_right (Nat.le_refl _), Nat.sub_self]
  rfl

theorem put_append (before : List α) (a b : α) (after : List α) :
    put (before ++ a :: after) before.length b = .ok (before ++ b :: after) := by
  unfold put
  rw [if_pos (by simp), List.set_append_right _ _ (Nat.le_refl _), Nat.sub_self]
  rfl

theorem putAll_append (before : List α) {old new : List α} (same : old.length = new.length)
    (after : List α) :
    putAll before.length new (before ++ (old ++ after)) = .ok (before ++ (new ++ after)) := by
  induction new generalizing before old with
  | nil =>
    rw [List.length_eq_zero_iff.mp same]
    rfl
  | cons a new ih =>
    obtain ⟨b, old, rfl⟩ := List.exists_cons_of_length_eq_add_one same
    unfold putAll
    rw [List.cons_append, put_append, Exec.ok_bind]
    have later := @ih (before ++ [a]) old (Nat.succ.inj same)
    rw [List.length_append, List.length_singleton, List.append_assoc, List.append_assoc] at later
    exact later

theorem moveDown_append {before gap after : List α} {left : Nat} (inside : left ≤ after.length) :
    moveDown gap.length left before.length (before ++ (gap ++ after)) =
      .ok (before ++ (after.take left ++ (gap ++ after).drop left)) := by
  induction left generalizing before gap after with
  | zero => rfl
  | succ left ih =>
    obtain ⟨a, after, rfl⟩ := List.exists_cons_of_length_pos (Nat.lt_of_lt_of_le (Nat.succ_pos _) inside)
    unfold moveDown
    rw [← List.append_assoc, ← List.length_append, fetch_append, Exec.ok_bind, List.append_assoc]
    cases gap with
    | nil =>
      have later := @ih (before ++ [a]) [] after (Nat.le_of_succ_le_succ inside)
      rw [List.length_append, List.length_singleton, List.append_assoc, List.append_assoc] at later
      rw [List.nil_append, put_append, Exec.ok_bind]
      exact later
    | cons b gap =>
      -- the gap moves up by one cell
      have later := @ih (before ++ [a]) (gap ++ [a]) after (Nat.le_of_succ_le_succ inside)
      simp only [List.length_append, List.length_singleton, List.append_assoc,
        List.singleton_append] at later
      rw [List.cons_append, put_append, Exec.ok_bind, List.length_cons]
      exact later

theorem moveUp_append {moved gap : List α} (after : List α) :
    moveUp gap.length moved.length (moved ++ (gap ++ after)) =
      .ok ((moved ++ gap).take gap.length ++ (moved ++ after)) := by
  induction moved using List.reverseRecOn generalizing gap after with
  | nil =>
    rw [List.nil_append, List.nil_append, List.take_length]
    rfl
  | append_singleton moved a ih =>
    -- the cell that `a` moves to is the last one of the gap, or its own
    obtain ⟨between, last, split⟩ : ∃ between last, a :: gap = between ++ [last] :=
      ⟨_, _, (List.dropLast_concat_getLast (List.cons_ne_nil a gap)).symm⟩
    have width : between.length = gap.length := by
      have lengths := congrArg List.length split
      rw [List.length_append, List.length_singleton, List.length_cons] at lengths
      omega
    have block : (moved ++ [a]) ++ (gap ++ after) = (moved ++ between) ++ last :: after := by
      rw [List.append_assoc, List.singleton_append, ← List.cons_append, split]
      simp only [List.append_assoc, List.singleton_append]
    have first : fetch ((moved ++ between) ++ last :: after) moved.length = .ok a := by
      rw [← block, List.append_assoc, List.singleton_append]
      exact fetch_append moved a _
    have stored := put_append (moved ++ between) last a after
    have later := @ih between (a :: after)
    rw [List.length_append, width] at stored
    rw [width] at later
    rw [List.length_append, List.length_singleton, block]
    unfold moveUp
    rw [first, Exec.ok_bind, stored, Exec.ok_bind, List.append_assoc, later]
    have front : ((moved ++ [a]) ++ gap).take gap.length = (moved ++ between).take gap.length := by
      rw [List.append_assoc, List.singleton_append, split, ← List.append_assoc,
        List.take_append_of_le_length]
      rw [List.length_append, width]
      exact Nat.le_add_left _ _
    rw [front, List.append_assoc, List.singleton_append]

/-- What is put where the gap was opened stands between the cells before it and those moved. -/
theorem openGap_put (before moved after : List α) (cell a : α) :
    (do
      let block ← openGap before.length moved.length (before ++ (moved ++ cell :: after))
      put block before.length a) = .ok (before ++ a :: (moved ++ after)) := by
  induction moved using List.reverseRecOn generalizing cell after with
  | nil => exact put_append before cell a after
  | append_singleton moved last ih =>
    have source : fetch (before ++ (moved ++ [last] ++ cell :: after))
        (before.length + moved.length) = .ok last := by
      rw [← List.length_append, List.append_assoc, List.singleton_append, ← List.append_assoc]
      exact fetch_append (before ++ moved) last _
    have target : put (before ++ (moved ++ [last] ++ cell :: after))
        (before.length + moved.length + 1) last =
          .ok (before ++ (moved ++ last :: (last :: after))) := by
      have place : before.length + moved.length + 1 = (before ++ (moved ++ [last])).length := by
        rw [List.length_append, List.length_append, List.length_singleton, Nat.add_assoc]
      rw [place, ← List.append_assoc, put_append]
      simp only [List.append_assoc, List.singleton_append]
    rw [List.length_append, List.length_singleton, openGap, source, Exec.ok_bind, target,
      Exec.ok_bind, ih, List.append_assoc, List.singleton_append]

section Tabulated

variable {f : Nat → α} {n i : Nat}

theorem fetch_tabulated (inside : i < n) : fetch ((List.range n).map f) i = .ok (f i) := by
  unfold fetch
  rw [List.getElem?_map, List.getElem?_range inside]
  rfl

theorem fetchAll_tabulated {m : Nat} (inside : i + m ≤ n) :
    fetchAll i m ((List.range n).map f) = .ok ((List.range m).map fun k => f (i + k)) := by
  induction m generalizing i with
  | zero => rfl
  | succ m ih =>
    unfold fetchAll
    rw [fetch_tabulated (by omega), Exec.ok_bind, ih (by omega), Exec.ok_bind, List.range_succ_eq_map,
      List.map_cons, List.map_map]
    have shifted : (fun k => f (i + 1 + k)) = (fun k => f (i + k)) ∘ Nat.succ := by
      funext k
      exact congrArg f (by simp only [Nat.succ_eq_add_one]; omega)
    rw [shifted]
    rfl

theorem put_tabulated (inside : i < n) (a : α) :
    put ((List.range n).map f) i a = .ok ((List.range n).map (Function.update f i a)) := by
  unfold put
  rw [List.length_map, List.length_range, if_pos inside]
  congr 1
  apply List.ext_getElem
  · simp
  · intro k left right
    rw [List.getElem_set, List.getElem_map, List.getElem_map, List.getElem_range]
    by_cases same : i = k
    · rw [if_pos same, same, Function.update_self]
    · rw [if_neg same, Function.update_of_ne (Ne.symm same)]

end Tabulated

theorem putAll_front {old new : List α} (fits : new.length ≤ old.length) :
    putAll 0 new old = .ok (new ++ old.drop new.length) := by
  have front := putAll_append [] (List.length_take_of_le fits) (old.drop new.length)
  rwa [List.take_append_drop] at front

theorem putAll_whole {old new : List α} (same : old.length = new.length) :
    putAll 0 new old = .ok new := by
  rw [putAll_front (Nat.le_of_eq same.symm), ← same, List.drop_length, List.append_nil]

end Library
