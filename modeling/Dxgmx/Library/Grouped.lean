import Mathlib.Data.List.Basic
import Mathlib.Data.List.Nodup
import Mathlib.Data.List.Perm.Basic
import Mathlib.Order.Basic
import Mathlib.Tactic.Common

namespace Library

section

variable {α β κ : Type*}

/-- Equal elements stand next to each other. -/
def Grouped (xs : List α) : Prop := ∀ x y, [x, y, x].Sublist xs → y = x

theorem Grouped.sublist {xs ys : List α} (grouped : Grouped ys) (sub : xs.Sublist ys) : Grouped xs :=
  fun x y three => grouped x y (three.trans sub)

theorem Grouped.cons {x : α} {xs : List α} (grouped : Grouped xs) (new : x ∉ xs) :
    Grouped (x :: xs) := by
  intro a b three
  cases three with
  | cons _ rest => exact grouped a b rest
  | cons_cons _ rest =>
    have again : x ∈ xs := rest.subset (List.mem_cons_of_mem _ List.mem_cons_self)
    exact absurd again new

/-- In the order of a key, the values that go with the keys are grouped. -/
theorem grouped_map [PartialOrder κ] {key : β → κ} {value : β → α} {xs : List β}
    (sorted : xs.Pairwise fun x y => key x ≤ key y)
    (same : ∀ x ∈ xs, ∀ y ∈ xs, value x = value y ↔ key x = key y) : Grouped (xs.map value) := by
  intro a b three
  rcases List.sublist_map_iff.mp three with ⟨keys, sub, split⟩
  rcases keys with _ | ⟨x, _ | ⟨y, _ | ⟨z, _ | ⟨w, rest⟩⟩⟩⟩
  all_goals simp only [List.map_cons, List.map_nil, List.cons.injEq, reduceCtorEq, and_false,
    and_true] at split
  rcases split with ⟨rfl, rfl, last⟩
  have memX : x ∈ xs := sub.subset (by simp)
  have memY : y ∈ xs := sub.subset (by simp)
  have memZ : z ∈ xs := sub.subset (by simp)
  have order := sorted.sublist sub
  simp only [List.pairwise_cons, List.mem_cons, List.not_mem_nil, or_false, forall_eq_or_imp,
    forall_eq] at order
  have back : key z ≤ key x := le_of_eq ((same x memX z memZ).mp last).symm
  exact (same y memY x memX).mpr (le_antisymm (order.2.1.trans back) order.1.1)

variable [DecidableEq α]

/-- The elements that differ from the one before them. The first is compared with `last`. -/
def changes : (last : α) → List α → List α
  | _, [] => []
  | last, x :: rest => if last = x then changes last rest else x :: changes x rest

/-- In a grouped list every element changes once. -/
theorem Grouped.changes {last : α} {xs : List α} (grouped : Grouped (last :: xs)) :
    (changes last xs).Nodup ∧ ∀ x, x ∈ Library.changes last xs ↔ x ∈ xs ∧ x ≠ last := by
  induction xs generalizing last with
  | nil => exact ⟨List.nodup_nil, fun x => ⟨nofun, fun both => nomatch both.1⟩⟩
  | cons y rest ih =>
    rw [Library.changes]
    by_cases same : last = y
    · rw [if_pos same]
      rcases ih (grouped.sublist ((List.sublist_cons_self y rest).cons_cons last)) with ⟨nodup, members⟩
      refine ⟨nodup, fun x => ?_⟩
      rw [members, List.mem_cons]
      constructor
      · exact fun both => ⟨.inr both.1, both.2⟩
      · rintro ⟨rfl | later, other⟩
        · exact absurd same.symm other
        · exact ⟨later, other⟩
    · rw [if_neg same]
      rcases ih (grouped.sublist (List.sublist_cons_self last (y :: rest))) with ⟨nodup, members⟩
      refine ⟨List.nodup_cons.mpr ⟨fun again => ((members y).mp again).2 rfl, nodup⟩, fun x => ?_⟩
      rw [List.mem_cons, members, List.mem_cons]
      constructor
      · rintro (rfl | ⟨later, other⟩)
        · exact ⟨.inl rfl, Ne.symm same⟩
        · refine ⟨.inr later, ?_⟩
          rintro rfl
          -- `last` would stand on both sides of `y`
          have three : [x, y, x].Sublist (x :: y :: rest) :=
            ((List.singleton_sublist.mpr later).cons_cons y).cons_cons x
          exact same (grouped x y three).symm
      · rintro ⟨rfl | later, other⟩
        · exact .inl rfl
        · by_cases here : x = y
          · exact .inl here
          · exact .inr ⟨later, here⟩

/-- Where some of what was added to a list is taken away again, the old list is left exactly if all of
    it was. -/
theorem diff_added {added old gone : List α} (nodup : added.Nodup) (once : gone.Nodup)
    (sub : ∀ x ∈ gone, x ∈ added) :
    (gone ++ (added ++ old).diff gone).Perm (added ++ old) ∧
      (((added ++ old).diff gone).Perm old ↔ ∀ x ∈ added, x ∈ gone) := by
  have whole : (gone ++ (added ++ old).diff gone).Perm (added ++ old) := by
    apply List.subperm_append_diff_self_of_count_le
    intro x member
    have here : 0 < (added ++ old).count x :=
      List.count_pos_iff.mpr (List.mem_append_left _ (sub x member))
    exact Nat.le_trans (List.nodup_iff_count_le_one.mp once x) here
  refine ⟨whole, fun left_ x member => ?_, fun all => ?_⟩
  · have same : (gone ++ old).Perm (added ++ old) := (left_.append_left gone).symm.trans whole
    exact ((List.perm_append_right_iff old).mp same).symm.subset member
  · have same : gone.Perm added :=
      (List.perm_ext_iff_of_nodup once nodup).mpr fun x => ⟨sub x, all x⟩
    exact (List.perm_append_left_iff gone).mp (whole.trans (same.append_right old).symm)

end

end Library
