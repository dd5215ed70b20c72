import Mathlib.Order.Lattice
import Mathlib.Tactic.Common

namespace Library

variable {α : Type*} [LinearOrder α] {key : Nat → α} {len : Nat} {target : α}

/-- The last of the keys that are not above the target. -/
structure Floor (key : Nat → α) (len : Nat) (target : α) (k : Nat) : Prop where
  inside : k < len
  le : key k ≤ target
  greatest : ∀ j < len, key j ≤ target → j ≤ k

/-- The last probe of a search is the floor, or the one behind it. -/
structure LastProbe (key : Nat → α) (len : Nat) (target : α) (k : Nat) : Prop where
  inside : k < len
  floor : key k ≤ target → Floor key len target k
  before : target < key k → 0 < k ∧ Floor key len target (k - 1)

/-- Before a round of the search between `l` and `r`: what is left of them is below the target, what is
    right of them above it, and the last probe is next to them. -/
structure SearchWindow (key : Nat → α) (len : Nat) (target : α) (l r : Int) (probe : Option Nat) :
    Prop where
  low : 0 ≤ l
  order : l ≤ r + 1
  high : r < len
  below : ∀ k : Nat, k < l → key k < target
  above : ∀ k : Nat, k < len → r < k → target < key k
  probe : l = 0 ∧ r = len - 1 ∨ ∃ k < len, probe = some k ∧ (k + 1 = l ∨ k = r + 1)

namespace SearchWindow

variable {l r : Int} {probe : Option Nat}

theorem start : SearchWindow key len target 0 (len - 1) none where
  low := Int.le_refl 0
  order := by omega
  high := by omega
  below := fun k before => by omega
  above := fun k inside after => by omega
  probe := .inl ⟨rfl, rfl⟩

theorem right (window : SearchWindow key len target l r probe)
    (sorted : ∀ i j, i < j → j < len → key i < key j) {m : Nat} (from_ : l ≤ m) (to_ : m ≤ r)
    (less : key m < target) : SearchWindow key len target (m + 1) r (some m) where
  low := by omega
  order := by omega
  high := window.high
  below := fun k before => by
    have high := window.high
    rcases Nat.lt_or_eq_of_le (show k ≤ m by omega) with earlier | rfl
    · exact (sorted k m earlier (by omega)).trans less
    · exact less
  above := window.above
  probe := .inr ⟨m, by have high := window.high; omega, rfl, .inl rfl⟩

theorem left (window : SearchWindow key len target l r probe)
    (sorted : ∀ i j, i < j → j < len → key i < key j) {m : Nat} (from_ : l ≤ m) (to_ : m ≤ r)
    (greater : target < key m) : SearchWindow key len target l (m - 1) (some m) where
  low := window.low
  order := by omega
  high := by have high := window.high; omega
  below := window.below
  above := fun k inside after => by
    rcases Nat.lt_or_eq_of_le (show m ≤ k by omega) with later | rfl
    · exact greater.trans (sorted m k later inside)
    · exact greater
  probe := .inr ⟨m, by have high := window.high; omega, rfl, .inr (by omega)⟩

theorem found (sorted : ∀ i j, i < j → j < len → key i < key j) {m : Nat} (inside : m < len)
    (same : key m = target) : LastProbe key len target m where
  inside := inside
  floor := fun le => ⟨inside, le, fun j within below => by
    by_contra after
    exact absurd (same ▸ sorted m j (Nat.not_le.mp after) within) (not_lt.mpr below)⟩
  before := fun above => absurd above (not_lt.mpr (le_of_eq same))

/-- When nothing is left between them, the floor is at `r`. -/
theorem ends (window : SearchWindow key len target l r probe) (empty : r < l) (some_ : 0 < len)
    (first : key 0 ≤ target) : ∃ k, probe = some k ∧ LastProbe key len target k := by
  obtain ⟨low, order, high, below, above, probed⟩ := window
  have positive : 0 < l := by
    by_contra none
    exact absurd (above 0 some_ (by omega)) (not_lt.mpr first)
  obtain ⟨f, here⟩ : ∃ f : Nat, r = f := Int.eq_ofNat_of_zero_le (by omega)
  have floor : Floor key len target f := by
    refine ⟨by omega, le_of_lt (below f (by omega)), fun j inside le => ?_⟩
    by_contra after
    exact absurd (above j inside (by omega)) (not_lt.mpr le)
  rcases probed with ⟨zero, -⟩ | ⟨k, inside, rfl, left | right⟩
  · omega
  · have same : k = f := by omega
    exact ⟨k, rfl, inside, fun _ => same ▸ floor,
      fun greater => absurd (below k (by omega)) (not_lt.mpr (le_of_lt greater))⟩
  · have next : k = f + 1 := by omega
    refine ⟨k, rfl, inside, fun le => ?_, fun _ => ⟨by omega, ?_⟩⟩
    · exact absurd (above k inside (by omega)) (not_lt.mpr le)
    · rwa [next, Nat.add_sub_cancel]

end SearchWindow

end Library
