import Mathlib.Data.Fintype.Pigeonhole
import Mathlib.Logic.Relation
import Mathlib.Order.WellFounded

open Relation

namespace Library

variable {α : Type*} {r : α → α → Prop} {a : α}

/-- No place that is come to from `a` is come to again from itself. -/
def NoReturn (r : α → α → Prop) (a : α) : Prop := ∀ b, ReflTransGen r a b → ¬ TransGen r b b

theorem reflTransGen_path {path : Nat → α} (step : ∀ n, r (path n) (path (n + 1))) {i j : Nat}
    (order : i ≤ j) : ReflTransGen r (path i) (path j) := by
  induction order with
  | refl => exact .refl
  | step _ ih => exact ih.tail (step _)

theorem transGen_path {path : Nat → α} (step : ∀ n, r (path n) (path (n + 1))) {i j : Nat}
    (order : i < j) : TransGen r (path i) (path j) :=
  .head' (step i) (reflTransGen_path step order)

theorem acc_of_reached (ends : Acc (Function.swap r) a) {b : α} (reached : ReflTransGen r a b) :
    Acc (Function.swap r) b := by
  induction reached with
  | refl => exact ends
  | tail _ last ih => exact ih.inv last

theorem not_transGen_of_acc (ends : Acc (Function.swap r) a) : ¬ TransGen r a a := by
  have closed : Acc (TransGen (Function.swap r)) a := ends.transGen
  induction closed with
  | intro a _ ih =>
    intro cycle
    have back : TransGen (Function.swap r) a a := transGen_swap.mpr cycle
    exact ih a back ends cycle

/-- Only finitely many places have a way on, so an endless walk comes to one of them twice. -/
theorem NoReturn.acc (noReturn : NoReturn r a) (finite : {b | ∃ c, r b c}.Finite) :
    Acc (Function.swap r) a := by
  by_contra endless
  obtain ⟨path, start, moves⟩ := not_acc_iff_exists_descending_chain.mp endless
  have step : ∀ n, r (path n) (path (n + 1)) := moves
  let place : Nat → {b | ∃ c, r b c} := fun n => ⟨path n, _, step n⟩
  have := finite.to_subtype
  obtain ⟨i, j, apart, same⟩ := Finite.exists_ne_map_eq_of_infinite place
  replace same : path i = path j := congrArg Subtype.val same
  wlog before : i < j generalizing i j
  · exact this j i apart.symm same.symm (by omega)
  apply noReturn (path i)
  · rw [← start]
    exact reflTransGen_path step (Nat.zero_le i)
  · have cycle := transGen_path step before
    rwa [← same] at cycle

theorem noReturn_of_acc (ends : Acc (Function.swap r) a) : NoReturn r a :=
  fun _ reached => not_transGen_of_acc (acc_of_reached ends reached)

end Library
