import Mathlib.Data.List.Sort
import Mathlib.Order.Defs.LinearOrder

namespace Library

section

variable {α κ : Type*} [LinearOrder κ] {key : α → κ} {n : Nat} {items sorted : List α}

/-- One walk over the first `n + 1` items. Neighbours that stand the wrong way round are swapped. -/
def bubble (key : α → κ) : Nat → List α → List α
  | n + 1, a :: b :: rest =>
    if key b < key a then b :: bubble key n (a :: rest) else a :: bubble key n (b :: rest)
  | _, items => items

/-- The walks of a bubble sort, each one shorter than the one before. -/
def bubbles (key : α → κ) : Nat → List α → List α
  | 0, items => items
  | n + 1, items => bubbles key n (bubble key (n + 1) items)

def bubbleSort (key : α → κ) (items : List α) : List α := bubbles key (items.length - 1) items

theorem bubble_perm : (bubble key n items).Perm items := by
  fun_induction bubble key n items with
  | case1 n a b rest wrong ih => exact (ih.cons b).trans (.swap a b rest)
  | case2 n a b rest right ih => exact ih.cons a
  | case3 => exact .refl _

/-- A walk takes the last of its items to the end of it. -/
theorem bubble_last {front back : List α} (length : front.length = n + 1) :
    ∃ init last, bubble key n (front ++ back) = init ++ last :: back ∧
      (init ++ [last]).Perm front ∧ ∀ x ∈ front, key x ≤ key last := by
  induction n generalizing front with
  | zero =>
    rcases List.length_eq_one_iff.mp length with ⟨a, rfl⟩
    exact ⟨[], a, rfl, .refl _, by simp⟩
  | succ n ih =>
    rcases front with _ | ⟨a, _ | ⟨b, rest⟩⟩
    · cases length
    · cases length
    · have one : ∀ c, (c :: rest).length = n + 1 := fun c => Nat.succ.inj length
      simp only [List.cons_append, bubble]
      split_ifs with wrong
      · rcases ih (one a) with ⟨init, last, walk, perm, top⟩
        refine ⟨b :: init, last, by rw [← List.cons_append, walk]; rfl,
          (perm.cons b).trans (.swap a b rest), fun x member => ?_⟩
        rcases List.mem_cons.mp member with rfl | member
        · exact top x List.mem_cons_self
        rcases List.mem_cons.mp member with rfl | member
        · exact wrong.le.trans (top a List.mem_cons_self)
        · exact top x (List.mem_cons_of_mem _ member)
      · rcases ih (one b) with ⟨init, last, walk, perm, top⟩
        refine ⟨a :: init, last, by rw [← List.cons_append, walk]; rfl, perm.cons a, ?_⟩
        exact List.forall_mem_cons.mpr
          ⟨(le_of_not_gt wrong).trans (top b List.mem_cons_self), top⟩

theorem bubbles_perm : (bubbles key n items).Perm items := by
  induction n generalizing items with
  | zero => exact .refl _
  | succ n ih => exact ih.trans bubble_perm

/-- The items behind the walk are in their places. -/
theorem bubbles_sorted {front back : List α} (length : front.length = n + 1)
    (done : back.Pairwise fun a b => key a ≤ key b)
    (below : ∀ a ∈ front, ∀ b ∈ back, key a ≤ key b) :
    (bubbles key n (front ++ back)).Pairwise fun a b => key a ≤ key b := by
  induction n generalizing front back with
  | zero =>
    rcases List.length_eq_one_iff.mp length with ⟨a, rfl⟩
    exact .cons (below a (List.mem_singleton_self a)) done
  | succ n ih =>
    rcases @bubble_last _ _ _ key _ front back length with ⟨init, last, walk, perm, top⟩
    have inFront : ∀ a ∈ init ++ [last], a ∈ front := fun a member => perm.mem_iff.mp member
    have short : init.length = n + 1 := by
      have same := perm.length_eq
      rw [List.length_append, List.length_singleton] at same
      omega
    rw [bubbles, walk]
    refine ih short (.cons (below last (inFront last (by simp))) done) fun a member => ?_
    have old := inFront a (List.mem_append_left _ member)
    exact List.forall_mem_cons.mpr ⟨top a old, below a old⟩

theorem bubbleSort_perm : (bubbleSort key items).Perm items := bubbles_perm

theorem bubbleSort_sorted : (bubbleSort key items).Pairwise fun a b => key a ≤ key b := by
  rcases items with _ | ⟨a, rest⟩
  · exact .nil
  · have all := @bubbles_sorted _ _ _ key rest.length (a :: rest) [] rfl .nil fun _ _ => nofun
    rw [List.append_nil] at all
    exact all

/-- Items with different keys have one order. -/
theorem bubbleSort_eq (perm : items.Perm sorted)
    (strict : sorted.Pairwise fun a b => key a < key b) : bubbleSort key items = sorted := by
  have nodup : (sorted.map key).Nodup := List.pairwise_map.mpr (strict.imp ne_of_lt)
  have total : (bubbleSort key items).Perm sorted := bubbleSort_perm.trans perm
  refine total.eq_of_pairwise (fun a b left right up down => ?_) bubbleSort_sorted
    (strict.imp le_of_lt)
  exact List.inj_on_of_nodup_map nodup (total.mem_iff.mp left) right (le_antisymm up down)

end

end Library
