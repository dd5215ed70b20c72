import Mathlib.Data.BitVec
import Mathlib.Tactic.Common

namespace Dxgmx

/-- `bw_clear`. In the low half the 32-bit complement is zero-extended before the `&=`. -/
def bwClear (n : BitVec 64) (bit : Nat) : BitVec 64 :=
  if bit < 32 then
    let x : BitVec 32 := ~~~(1#32 <<< bit)
    n &&& x.setWidth 64
  else if bit < 64 then
    let old : BitVec 32 := n.setWidth 32
    let x : BitVec 32 := ~~~(1#32 <<< (bit - 32))
    (((n >>> 32) &&& x.setWidth 64) <<< 32) ||| old.setWidth 64
  else n

def bwSet (n : BitVec 64) (bit : Nat) : BitVec 64 :=
  if bit < 32 then
    let x : BitVec 32 := 1#32 <<< bit
    n ||| x.setWidth 64
  else if bit < 64 then
    let old : BitVec 32 := n.setWidth 32
    let x : BitVec 32 := 1#32 <<< (bit - 32)
    (((n >>> 32) ||| x.setWidth 64) <<< 32) ||| old.setWidth 64
  else n

def bwMask (n mask : BitVec 64) : BitVec 64 :=
  let ret : BitVec 64 := ((n >>> 32) &&& (mask >>> 32)) <<< 32
  let tmp : BitVec 32 := n.setWidth 32 &&& mask.setWidth 32
  ret ||| tmp.setWidth 64

def bwOrMask (n mask : BitVec 64) : BitVec 64 :=
  let old : BitVec 32 := n.setWidth 32
  let high : BitVec 32 := (mask >>> 32).setWidth 32
  let low : BitVec 32 := old ||| mask.setWidth 32
  (((n >>> 32) ||| high.setWidth 64) <<< 32) ||| low.setWidth 64

def bwAndMask (n mask : BitVec 64) : BitVec 64 :=
  let old : BitVec 32 := n.setWidth 32
  let high : BitVec 32 := (mask >>> 32).setWidth 32
  let low : BitVec 32 := old &&& mask.setWidth 32
  (((n >>> 32) &&& high.setWidth 64) <<< 32) ||| low.setWidth 64

def bwIsPowerOfTwo (n : BitVec 64) : Prop := n ≠ 0 ∧ n &&& (n - 1) = 0

instance bwIsPowerOfTwo_decidable (n : BitVec 64) : Decidable (bwIsPowerOfTwo n) :=
  inferInstanceAs (Decidable (_ ∧ _))

theorem one_shift_bit (bit i : Nat) (bound : bit < 32) :
    (1#32 <<< bit).getLsbD i = decide (i = bit) := by
  simp only [BitVec.getLsbD_shiftLeft, BitVec.getLsbD_one]
  grind

theorem bwSet_getLsbD (n : BitVec 64) (bit i : Nat) (bound : bit < 64) :
    (bwSet n bit).getLsbD i = (n.getLsbD i || decide (i = bit)) := by
  unfold bwSet
  by_cases low : bit < 32
  · simp only [low, ↓reduceIte, BitVec.getLsbD_or, BitVec.getLsbD_setWidth,
      one_shift_bit bit i low]
    grind
  · simp only [low, bound, ↓reduceIte, BitVec.getLsbD_or, BitVec.getLsbD_setWidth,
      BitVec.getLsbD_shiftLeft, BitVec.getLsbD_ushiftRight,
      one_shift_bit (bit - 32) (i - 32) (by omega)]
    by_cases high : i < 64
    · by_cases half : i < 32
      · grind
      · have back : 32 + (i - 32) = i := by omega
        simp only [high, half, back, decide_true, decide_false]
        grind
    · have none : n.getLsbD i = false := BitVec.getLsbD_of_ge n i (by omega)
      grind

theorem bwClear_high_getLsbD (n : BitVec 64) (bit i : Nat) (high : 32 ≤ bit) (bound : bit < 64) :
    (bwClear n bit).getLsbD i = (n.getLsbD i && !decide (i = bit)) := by
  unfold bwClear
  have notLow : ¬ bit < 32 := by omega
  simp only [notLow, bound, ↓reduceIte, BitVec.getLsbD_or, BitVec.getLsbD_and,
    BitVec.getLsbD_setWidth, BitVec.getLsbD_shiftLeft, BitVec.getLsbD_ushiftRight,
    BitVec.getLsbD_not, one_shift_bit (bit - 32) (i - 32) (by omega)]
  by_cases inside : i < 64
  · by_cases half : i < 32
    · grind
    · have back : 32 + (i - 32) = i := by omega
      simp only [inside, half, back, decide_true, decide_false]
      grind
  · have none : n.getLsbD i = false := BitVec.getLsbD_of_ge n i (by omega)
    grind

/-- Clearing a bit of the low half also clears the whole high half. -/
theorem bwClear_low_getLsbD (n : BitVec 64) (bit i : Nat) (low : bit < 32) :
    (bwClear n bit).getLsbD i = (n.getLsbD i && decide (i < 32) && !decide (i = bit)) := by
  unfold bwClear
  simp only [low, ↓reduceIte, BitVec.getLsbD_and, BitVec.getLsbD_setWidth, BitVec.getLsbD_not,
    one_shift_bit bit i low]
  grind

theorem bwIsPowerOfTwo_iff {n : BitVec 64} : bwIsPowerOfTwo n ↔ n.toNat.isPowerOfTwo := by
  have zero : n ≠ 0 ↔ n.toNat ≠ 0 := not_congr BitVec.toNat_inj.symm
  rw [← Nat.ne_zero_and_sub_one_eq_zero_iff_isPowerOfTwo, ← zero]
  unfold bwIsPowerOfTwo
  refine and_congr_right fun positive => ?_
  have less : (n - 1).toNat = n.toNat - 1 := by
    have bound := n.isLt
    have some_ := zero.mp positive
    rw [BitVec.toNat_sub]
    show (2 ^ 64 - 1 + n.toNat) % 2 ^ 64 = n.toNat - 1
    omega
  rw [← BitVec.toNat_inj, BitVec.toNat_and, less]
  rfl

theorem bwIsPowerOfTwo_pow {n : Nat} (small : n < 2 ^ 32)
    (power : bwIsPowerOfTwo (BitVec.ofNat 64 n)) : ∃ e < 32, n = 2 ^ e := by
  have value : (BitVec.ofNat 64 n).toNat = n := Nat.mod_eq_of_lt (by omega)
  rw [bwIsPowerOfTwo_iff, value] at power
  rcases power with ⟨e, rfl⟩
  exact ⟨e, (Nat.pow_lt_pow_iff_right (by decide)).mp small, rfl⟩

theorem pow_bwIsPowerOfTwo {e : Nat} (low : e < 32) :
    bwIsPowerOfTwo (BitVec.ofNat 64 (2 ^ e)) := by
  have small : 2 ^ e < 2 ^ 64 := Nat.pow_lt_pow_right (by decide) (by omega)
  rw [bwIsPowerOfTwo_iff, BitVec.toNat_ofNat, Nat.mod_eq_of_lt small]
  exact ⟨e, rfl⟩

/-- Two halves put together again: the high one shifted up, the low one widened. -/
theorem halves_getLsbD (high : BitVec 64) (low : BitVec 32) (i : Nat) (inside : i < 64) :
    ((high <<< 32) ||| low.setWidth 64).getLsbD i =
      if i < 32 then low.getLsbD i else high.getLsbD (i - 32) := by
  simp only [BitVec.getLsbD_or, BitVec.getLsbD_shiftLeft, BitVec.getLsbD_setWidth, inside,
    decide_true, Bool.true_and]
  by_cases half : i < 32
  · simp [half]
  · simp [half, BitVec.getLsbD_of_ge low i (by omega)]

theorem bwMask_eq (n mask : BitVec 64) : bwMask n mask = n &&& mask := by
  apply BitVec.eq_of_getLsbD_eq
  intro i inside
  simp only [bwMask, halves_getLsbD _ _ i inside, BitVec.getLsbD_and, BitVec.getLsbD_setWidth,
    BitVec.getLsbD_ushiftRight]
  by_cases half : i < 32
  · simp [half]
  · simp [half, show 32 + (i - 32) = i by omega]

theorem bwOrMask_eq (n mask : BitVec 64) : bwOrMask n mask = n ||| mask := by
  apply BitVec.eq_of_getLsbD_eq
  intro i inside
  simp only [bwOrMask, halves_getLsbD _ _ i inside, BitVec.getLsbD_or, BitVec.getLsbD_setWidth,
    BitVec.getLsbD_ushiftRight]
  by_cases half : i < 32
  · simp [half]
  · have lower : i - 32 < 32 := by omega
    simp [half, lower, show i - 32 < 64 by omega, show 32 + (i - 32) = i by omega]

theorem bwAndMask_eq (n mask : BitVec 64) : bwAndMask n mask = n &&& mask := by
  apply BitVec.eq_of_getLsbD_eq
  intro i inside
  simp only [bwAndMask, halves_getLsbD _ _ i inside, BitVec.getLsbD_and, BitVec.getLsbD_setWidth,
    BitVec.getLsbD_ushiftRight]
  by_cases half : i < 32
  · simp [half]
  · have lower : i - 32 < 32 := by omega
    simp [half, lower, show i - 32 < 64 by omega, show 32 + (i - 32) = i by omega]

theorem one_shift_word (bit i : Nat) (inside : i < 64) :
    (1#64 <<< bit).getLsbD i = decide (i = bit) := by
  simp only [BitVec.getLsbD_shiftLeft, BitVec.getLsbD_one]
  grind

theorem bwSet_eq (n : BitVec 64) (bit : Nat) (bound : bit < 64) :
    bwSet n bit = n ||| 1#64 <<< bit := by
  apply BitVec.eq_of_getLsbD_eq
  intro i inside
  rw [bwSet_getLsbD n bit i bound, BitVec.getLsbD_or, one_shift_word bit i inside]

/-- The plain clear, bit by bit. -/
theorem clear_getLsbD (n : BitVec 64) (bit i : Nat) (inside : i < 64) :
    (n &&& ~~~(1#64 <<< bit)).getLsbD i = (n.getLsbD i && !decide (i = bit)) := by
  rw [BitVec.getLsbD_and, BitVec.getLsbD_not, one_shift_word bit i inside]
  simp [inside]

theorem high_half_zero_iff (n : BitVec 64) :
    n >>> 32 = 0#64 ↔ ∀ i, 32 ≤ i → n.getLsbD i = false := by
  constructor
  · intro zero i high
    have bit := congrArg (fun word => word.getLsbD (i - 32)) zero
    simpa [BitVec.getLsbD_ushiftRight, show 32 + (i - 32) = i by omega] using bit
  · intro clear
    apply BitVec.eq_of_getLsbD_eq
    intro i _
    simp [BitVec.getLsbD_ushiftRight, clear (32 + i) (by omega)]

/-- Clearing is the plain clear for the bits of the high half, and for those of the low half only
on words whose high half is empty. -/
theorem bwClear_eq_iff (n : BitVec 64) (bit : Nat) (bound : bit < 64) :
    bwClear n bit = n &&& ~~~(1#64 <<< bit) ↔ 32 ≤ bit ∨ n >>> 32 = 0#64 := by
  by_cases high : 32 ≤ bit
  · simp only [high, true_or, iff_true]
    apply BitVec.eq_of_getLsbD_eq
    intro i inside
    rw [bwClear_high_getLsbD n bit i high bound, clear_getLsbD n bit i inside]
  · have low : bit < 32 := by omega
    simp only [high, false_or, high_half_zero_iff]
    constructor
    · intro same i above
      by_cases inside : i < 64
      · have bitAt := congrArg (fun word => word.getLsbD i) same
        rw [bwClear_low_getLsbD n bit i low, clear_getLsbD n bit i inside] at bitAt
        simpa [show ¬ i < 32 by omega, show i ≠ bit by omega] using bitAt.symm
      · exact BitVec.getLsbD_of_ge n i (by omega)
    · intro empty
      apply BitVec.eq_of_getLsbD_eq
      intro i inside
      rw [bwClear_low_getLsbD n bit i low, clear_getLsbD n bit i inside]
      by_cases half : i < 32
      · simp [half]
      · simp [half, empty i (by omega)]

/-- The five helpers against the plain operations on the whole word. -/
structure HalvesAgree (n mask : BitVec 64) (bit : Nat) : Prop where
  set : bwSet n bit = n ||| 1#64 <<< bit
  clear : bwClear n bit = n &&& ~~~(1#64 <<< bit)
  mask_ : bwMask n mask = n &&& mask
  orMask : bwOrMask n mask = n ||| mask
  andMask : bwAndMask n mask = n &&& mask

theorem halves_agree_iff (n mask : BitVec 64) (bit : Nat) (bound : bit < 64) :
    HalvesAgree n mask bit ↔ 32 ≤ bit ∨ n >>> 32 = 0#64 := by
  constructor
  · intro agree
    exact (bwClear_eq_iff n bit bound).mp agree.clear
  · intro condition
    exact { set := bwSet_eq n bit bound
            clear := (bwClear_eq_iff n bit bound).mpr condition
            mask_ := bwMask_eq n mask
            orMask := bwOrMask_eq n mask
            andMask := bwAndMask_eq n mask }

theorem halves_agree_high_bit :
    40 < 64 ∧ (HalvesAgree 0xff00000000000001#64 3#64 40 ↔
      32 ≤ 40 ∨ 0xff00000000000001#64 >>> 32 = 0#64) :=
  ⟨by decide, halves_agree_iff 0xff00000000000001#64 3#64 40 (by decide)⟩

theorem low_clear_drops_high_half :
    ¬ ∀ (n mask : BitVec 64) (bit : Nat), bit < 64 → HalvesAgree n mask bit := by
  intro all
  have clear := (all 0x100000001#64 0#64 0 (by decide)).clear
  exact absurd clear (by decide)

end Dxgmx
