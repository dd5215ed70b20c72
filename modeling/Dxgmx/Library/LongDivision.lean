import Mathlib.Data.BitVec
import Mathlib.Tactic.Common
import Mathlib.Tactic.Ring

namespace Library

/-- Long division: one more digit of the dividend. -/
theorem div_next_digit (a digit base : Nat) {d : Nat} (positive : 0 < d) :
    (a * base + digit) / d = a / d * base + (a % d * base + digit) / d := by
  have split : a * base + digit = d * (a / d * base) + (a % d * base + digit) := by
    calc a * base + digit = (d * (a / d) + a % d) * base + digit := by rw [Nat.div_add_mod]
      _ = d * (a / d * base) + (a % d * base + digit) := by ring
  rw [split, Nat.mul_add_div positive]

theorem mod_next_digit (a digit base d : Nat) :
    (a * base + digit) % d = (a % d * base + digit) % d := by
  simp [Nat.add_mod, Nat.mul_mod]

theorem div_two_pow_digit (n k : Nat) : n / 2 ^ k = n / 2 ^ (k + 1) * 2 + n / 2 ^ k % 2 := by
  rw [Nat.pow_succ, ← Nat.div_div_eq_div_mul, Nat.mul_comm]
  exact (Nat.div_add_mod _ 2).symm

theorem mod_two_pow_digit (n k : Nat) : n % 2 ^ (k + 1) = n / 2 ^ k % 2 * 2 ^ k + n % 2 ^ k := by
  rw [Nat.pow_succ, Nat.mod_mul, Nat.mul_comm, Nat.add_comm]

section

variable {w : Nat}

/-- A register that takes in a bit at its low end. -/
def shiftIn (x bit : BitVec w) : BitVec w := x <<< 1 ||| bit

theorem toNat_shiftIn (x bit : BitVec w) (one : bit.toNat ≤ 1) :
    (shiftIn x bit).toNat = 2 * x.toNat % 2 ^ w + bit.toNat := by
  have low : 2 * x.toNat % 2 ^ w % 2 = 0 ∨ w = 0 := by
    cases w with
    | zero => right; rfl
    | succ w =>
      left
      rw [Nat.pow_succ, Nat.mod_mod_of_dvd _ (Nat.dvd_mul_left 2 _)]
      omega
  rcases low with low | rfl
  · rw [shiftIn, BitVec.toNat_or, BitVec.toNat_shiftLeft, Nat.shiftLeft_eq, Nat.pow_one,
      Nat.mul_comm]
    have even : 2 * x.toNat % 2 ^ w = 2 ^ 1 * (2 * x.toNat % 2 ^ w / 2) := by omega
    rw [even, ← Nat.two_pow_add_eq_or_of_lt (by omega)]
  · simp [BitVec.of_length_zero]

theorem toNat_shiftIn_of_lt (x bit : BitVec w) (one : bit.toNat ≤ 1)
    (room : 2 * x.toNat < 2 ^ w) : (shiftIn x bit).toNat = 2 * x.toNat + bit.toNat := by
  rw [toNat_shiftIn x bit one, Nat.mod_eq_of_lt room]

/-- All ones where `r` is not below `d`, from the sign of a difference that does not overflow. -/
def borrowMask (d r : BitVec w) : BitVec w := (d - r - 1).sshiftRight (w - 1)

theorem borrowMask_of_sign (d r : BitVec w) (sign : (d - r - 1).msb = true) :
    borrowMask d r = BitVec.allOnes w := by
  apply BitVec.eq_of_getLsbD_eq
  intro i bound
  obtain ⟨w, rfl⟩ : ∃ v, w = v + 1 := ⟨w - 1, by omega⟩
  rw [borrowMask, BitVec.getLsbD_sshiftRight, BitVec.getLsbD_allOnes, sign]
  have top : (d - r - 1).getLsbD w = true := by
    rw [BitVec.msb_eq_getLsbD_last, Nat.add_sub_cancel] at sign
    exact sign
  have cases : i = 0 ∨ 0 < i := by omega
  rcases cases with rfl | later
  · simpa using top
  · simp [bound, show ¬ w + i < w + 1 by omega, show ¬ w + 1 ≤ i by omega]

theorem borrowMask_of_le (d r : BitVec w) (positive : 0 < w) (le : d.toNat ≤ r.toNat)
    (near : r.toNat + 1 ≤ d.toNat + 2 ^ (w - 1)) : borrowMask d r = BitVec.allOnes w := by
  obtain ⟨w, rfl⟩ : ∃ v, w = v + 1 := ⟨w - 1, by omega⟩
  have half : 2 ^ (w + 1) = 2 * 2 ^ w := by rw [Nat.pow_succ, Nat.mul_comm]
  have one : (1 : BitVec (w + 1)).toNat = 1 := by simp
  have sign : (d - r - 1).msb = true := by
    rw [BitVec.msb_eq_decide, decide_eq_true_iff, BitVec.toNat_sub, BitVec.toNat_sub, one]
    have lt := r.isLt
    simp only [Nat.add_sub_cancel] at near ⊢
    have inner : (2 ^ (w + 1) - r.toNat + d.toNat) % 2 ^ (w + 1) =
        if d.toNat = r.toNat then 0 else 2 ^ (w + 1) - r.toNat + d.toNat := by
      split
      · rename_i same
        rw [same, Nat.sub_add_cancel (by omega), Nat.mod_self]
      · exact Nat.mod_eq_of_lt (by omega)
    rw [inner]
    split
    · rw [Nat.add_zero, Nat.mod_eq_of_lt (by omega)]
      omega
    · rw [show 2 ^ (w + 1) - 1 + (2 ^ (w + 1) - r.toNat + d.toNat) =
          2 ^ (w + 1) - r.toNat + d.toNat - 1 + 2 ^ (w + 1) by omega, Nat.add_mod_right,
        Nat.mod_eq_of_lt (by omega)]
      omega
  exact borrowMask_of_sign d r sign

theorem borrowMask_of_lt (d r : BitVec w) (lt : r.toNat < d.toNat)
    (near : d.toNat ≤ r.toNat + 2 ^ (w - 1)) : borrowMask d r = 0 := by
  have wide := d.isLt
  have positive : 0 < w := by
    rcases Nat.eq_zero_or_pos w with rfl | positive
    · simp at wide
      omega
    · exact positive
  obtain ⟨w, rfl⟩ : ∃ v, w = v + 1 := ⟨w - 1, by omega⟩
  have half : 2 ^ (w + 1) = 2 * 2 ^ w := by rw [Nat.pow_succ, Nat.mul_comm]
  have one : (1 : BitVec (w + 1)).toNat = 1 := by simp
  have value : (d - r - 1).toNat = d.toNat - r.toNat - 1 := by
    rw [BitVec.toNat_sub_of_le, BitVec.toNat_sub_of_le (by rw [BitVec.le_def]; omega), one]
    rw [BitVec.le_def, BitVec.toNat_sub_of_le (by rw [BitVec.le_def]; omega), one]
    omega
  have sign : (d - r - 1).msb = false := by
    rw [BitVec.msb_eq_decide, decide_eq_false_iff_not, value]
    simp only [Nat.add_sub_cancel] at near ⊢
    omega
  rw [borrowMask, BitVec.sshiftRight_eq_of_msb_false sign]
  apply BitVec.eq_of_toNat_eq
  simp only [Nat.add_sub_cancel] at near
  simp only [BitVec.toNat_ushiftRight, value, Nat.add_sub_cancel, Nat.shiftRight_eq_div_pow,
    Nat.div_eq_of_lt (show d.toNat - r.toNat - 1 < 2 ^ w by omega)]
  simp

/-- The registers of a restoring division: the remainder so far, the bits of the dividend that are
    left with the quotient moving in behind them, and the last bit of the quotient. -/
structure DivRegs (w : Nat) where
  r : BitVec w
  n : BitVec w
  carry : BitVec w

/-- The registers when `rounds` bits of the dividend are left. -/
structure DivRegs.Holds (dividend d : BitVec w) (rounds : Nat) (s : DivRegs w) : Prop where
  within : rounds ≤ w
  remainder : s.r.toNat = dividend.toNat / 2 ^ rounds % d.toNat
  left : s.n.toNat = dividend.toNat % 2 ^ rounds * 2 ^ (w - rounds) +
    dividend.toNat / 2 ^ rounds / d.toNat / 2
  last : s.carry.toNat = dividend.toNat / 2 ^ rounds / d.toNat % 2

def restoringRound (d : BitVec w) (s : DivRegs w) : DivRegs w :=
  let r := shiftIn s.r (s.n >>> (w - 1))
  let mask := borrowMask d r
  { r := r - (d &&& mask), n := shiftIn s.n s.carry, carry := mask &&& 1 }

variable {dividend d : BitVec w} {rounds : Nat} {s : DivRegs w}

theorem quotient_small (dividend d : BitVec w) (rounds : Nat) (within : rounds ≤ w) :
    dividend.toNat / 2 ^ rounds / d.toNat < 2 ^ (w - rounds) := by
  have lt : dividend.toNat / 2 ^ rounds < 2 ^ (w - rounds) := by
    rw [Nat.div_lt_iff_lt_mul (Nat.two_pow_pos _), ← Nat.pow_add, Nat.sub_add_cancel within]
    exact dividend.isLt
  exact Nat.lt_of_le_of_lt (Nat.div_le_self _ _) lt

/-- The bit of the dividend that comes next. -/
theorem DivRegs.Holds.next_bit (holds : s.Holds dividend d (rounds + 1)) :
    (s.n >>> (w - 1)).toNat = dividend.toNat / 2 ^ rounds % 2 := by
  have within := holds.within
  have small := quotient_small dividend d (rounds + 1) within
  have room : 2 ^ (w - (rounds + 1)) * 2 ^ rounds = 2 ^ (w - 1) := by
    rw [← Nat.pow_add]
    congr 1
    omega
  have low : dividend.toNat % 2 ^ rounds < 2 ^ rounds := Nat.mod_lt _ (Nat.two_pow_pos _)
  have halved : dividend.toNat / 2 ^ (rounds + 1) / d.toNat / 2 < 2 ^ (w - (rounds + 1)) :=
    Nat.lt_of_le_of_lt (Nat.div_le_self _ _) small
  rw [BitVec.toNat_ushiftRight, Nat.shiftRight_eq_div_pow, holds.left, mod_two_pow_digit,
    Nat.add_mul, Nat.mul_assoc, Nat.mul_comm (2 ^ rounds), room, Nat.add_assoc, Nat.add_comm,
    Nat.add_mul_div_right _ _ (Nat.two_pow_pos _), Nat.div_eq_of_lt, Nat.zero_add]
  calc dividend.toNat % 2 ^ rounds * 2 ^ (w - (rounds + 1)) +
        dividend.toNat / 2 ^ (rounds + 1) / d.toNat / 2
      < dividend.toNat % 2 ^ rounds * 2 ^ (w - (rounds + 1)) + 2 ^ (w - (rounds + 1)) := Nat.add_lt_add_left halved _
    _ = (dividend.toNat % 2 ^ rounds + 1) * 2 ^ (w - (rounds + 1)) := by ring
    _ ≤ 2 ^ rounds * 2 ^ (w - (rounds + 1)) := Nat.mul_le_mul_right _ low
    _ = 2 ^ (w - 1) := by rw [Nat.mul_comm, room]

theorem DivRegs.Holds.shifted (holds : s.Holds dividend d (rounds + 1)) :
    (shiftIn s.n s.carry).toNat = dividend.toNat % 2 ^ rounds * 2 ^ (w - rounds) +
      dividend.toNat / 2 ^ (rounds + 1) / d.toNat := by
  have within := holds.within
  have one : s.carry.toNat ≤ 1 := by
    rw [holds.last]
    omega
  have double : 2 ^ (w - rounds) = 2 * 2 ^ (w - (rounds + 1)) := by
    rw [show w - rounds = w - (rounds + 1) + 1 by omega, Nat.pow_succ, Nat.mul_comm]
  have whole : 2 ^ rounds * 2 ^ (w - rounds) = 2 ^ w := by
    rw [← Nat.pow_add]
    congr 1
    omega
  have small := quotient_small dividend d (rounds + 1) within
  have low : dividend.toNat % 2 ^ rounds < 2 ^ rounds := Nat.mod_lt _ (Nat.two_pow_pos _)
  have fits : dividend.toNat % 2 ^ rounds * 2 ^ (w - rounds) +
      2 * (dividend.toNat / 2 ^ (rounds + 1) / d.toNat / 2) < 2 ^ w := by
    have scaled : (dividend.toNat % 2 ^ rounds + 1) * 2 ^ (w - rounds) ≤ 2 ^ w := by
      rw [← whole]
      exact Nat.mul_le_mul_right _ low
    rw [Nat.add_mul] at scaled
    omega
  have split : 2 * s.n.toNat = dividend.toNat % 2 ^ rounds * 2 ^ (w - rounds) +
      2 * (dividend.toNat / 2 ^ (rounds + 1) / d.toNat / 2) +
      2 ^ w * (dividend.toNat / 2 ^ rounds % 2) := by
    rw [holds.left, mod_two_pow_digit, ← whole, double]
    ring
  rw [toNat_shiftIn _ _ one, split, Nat.add_mul_mod_self_left, Nat.mod_eq_of_lt fits, holds.last]
  omega

/-- The remainder with the next bit brought down. -/
theorem DivRegs.Holds.brought (holds : s.Holds dividend d (rounds + 1)) (positive : 0 < d.toNat) :
    (shiftIn s.r (s.n >>> (w - 1))).toNat =
        dividend.toNat / 2 ^ (rounds + 1) % d.toNat * 2 + dividend.toNat / 2 ^ rounds % 2 ∧
      (shiftIn s.r (s.n >>> (w - 1))).toNat < 2 * d.toNat ∧
      (2 ^ (w - 1) < d.toNat →
        (shiftIn s.r (s.n >>> (w - 1))).toNat = dividend.toNat / 2 ^ rounds) := by
  have within := holds.within
  have width : 2 ^ w = 2 * 2 ^ (w - 1) := by
    rw [← Nat.pow_succ', Nat.succ_eq_add_one, Nat.sub_add_cancel (by omega)]
  have digit : dividend.toNat / 2 ^ rounds =
      dividend.toNat / 2 ^ (rounds + 1) * 2 + dividend.toNat / 2 ^ rounds % 2 :=
    div_two_pow_digit _ _
  have whole : dividend.toNat / 2 ^ rounds ≤ dividend.toNat := Nat.div_le_self _ _
  have wide := dividend.isLt
  have taken := Nat.mod_le (dividend.toNat / 2 ^ (rounds + 1)) d.toNat
  have below := Nat.mod_lt (dividend.toNat / 2 ^ (rounds + 1)) positive
  have value : (shiftIn s.r (s.n >>> (w - 1))).toNat =
      dividend.toNat / 2 ^ (rounds + 1) % d.toNat * 2 + dividend.toNat / 2 ^ rounds % 2 := by
    rw [toNat_shiftIn_of_lt _ _ (by rw [holds.next_bit]; omega) (by rw [holds.remainder]; omega),
      holds.next_bit, holds.remainder, Nat.mul_comm]
  rw [value]
  refine ⟨rfl, by omega, fun large => ?_⟩
  rw [Nat.mod_eq_of_lt (by omega)]
  exact digit.symm

theorem append_bit (q b : Nat) (bit : b < 2) : (q * 2 + b) / 2 = q ∧ (q * 2 + b) % 2 = b := by
  omega

/-- One round brings in one bit of the dividend and finds one bit of the quotient. -/
theorem DivRegs.Holds.round (holds : s.Holds dividend d (rounds + 1)) (positive : 0 < d.toNat)
    (near : d.toNat ≤ 2 ^ (w - 1) ∨ 2 ^ (w - 1) ≤ dividend.toNat / 2 ^ rounds) :
    (restoringRound d s).Holds dividend d rounds := by
  have within := holds.within
  have nonzero : 0 < w := by omega
  have shifted := holds.shifted
  rcases holds.brought positive with ⟨value, below, high⟩
  have quotients := div_next_digit (dividend.toNat / 2 ^ (rounds + 1))
    (dividend.toNat / 2 ^ rounds % 2) 2 positive
  have remainders := mod_next_digit (dividend.toNat / 2 ^ (rounds + 1))
    (dividend.toNat / 2 ^ rounds % 2) 2 d.toNat
  rw [← div_two_pow_digit, ← value] at quotients remainders
  unfold restoringRound
  generalize shiftIn s.r (s.n >>> (w - 1)) = r at *
  dsimp only
  have width : 2 ^ w = 2 * 2 ^ (w - 1) := by
    rw [← Nat.pow_succ', Nat.succ_eq_add_one, Nat.sub_add_cancel nonzero]
  have wide := r.isLt
  have wideD := d.isLt
  -- the quotient of `r` is one bit, and the sign of `d - r - 1` is that bit
  have bits := append_bit (dividend.toNat / 2 ^ (rounds + 1) / d.toNat) (r.toNat / d.toNat) (by
    rw [Nat.div_lt_iff_lt_mul positive]
    exact below)
  by_cases le : d.toNat ≤ r.toNat
  · have mask : borrowMask d r = BitVec.allOnes w :=
      borrowMask_of_le d r nonzero le (by omega)
    have once : r.toNat / d.toNat = 1 := Nat.div_eq_of_lt_le (by omega) (by omega)
    have one : (1 : BitVec w).toNat = 1 := by
      obtain ⟨v, rfl⟩ : ∃ v, w = v + 1 := ⟨w - 1, by omega⟩
      simp
    refine ⟨by omega, ?_, ?_, ?_⟩
    · rw [remainders, mask, BitVec.and_allOnes, BitVec.toNat_sub_of_le (by rwa [BitVec.le_def]),
        Nat.mod_eq_sub_mod le, Nat.mod_eq_of_lt (by omega)]
    · rw [quotients, bits.1]
      exact shifted
    · rw [quotients, bits.2, once, mask, BitVec.allOnes_and, one]
  · have mask : borrowMask d r = 0 := borrowMask_of_lt d r (by omega) (by omega)
    refine ⟨by omega, ?_, ?_, ?_⟩
    · rw [remainders, mask, show d &&& 0 = 0 from BitVec.and_zero,
        show r - 0 = r from BitVec.sub_zero r, Nat.mod_eq_of_lt (by omega)]
    · rw [quotients, bits.1]
      exact shifted
    · rw [quotients, bits.2, Nat.div_eq_of_lt (by omega), mask]
      simp

def restoringRounds (d : BitVec w) : Nat → DivRegs w → DivRegs w
  | 0, s => s
  | rounds + 1, s => restoringRounds d rounds (restoringRound d s)

theorem DivRegs.Holds.all_rounds (holds : s.Holds dividend d rounds) (positive : 0 < d.toNat)
    (near : d.toNat ≤ 2 ^ (w - 1) ∨ ∀ k < rounds, 2 ^ (w - 1) ≤ dividend.toNat / 2 ^ k) :
    (restoringRounds d rounds s).Holds dividend d 0 := by
  induction rounds generalizing s with
  | zero => exact holds
  | succ rounds ih =>
    have here := near.imp_right fun each => each rounds (Nat.lt_succ_self _)
    exact ih (holds.round positive here)
      (near.imp_right fun each k lt => each k (Nat.lt_succ_of_lt lt))

/-- With no bits left, the registers hold the quotient and the remainder. -/
theorem DivRegs.Holds.result (holds : s.Holds dividend d 0) :
    shiftIn s.n s.carry = dividend / d ∧ s.r = dividend % d := by
  have one : s.carry.toNat ≤ 1 := by
    rw [holds.last]
    omega
  have quotient : dividend.toNat / 2 ^ 0 / d.toNat = dividend.toNat / d.toNat := by
    rw [Nat.pow_zero, Nat.div_one]
  have small : dividend.toNat / d.toNat < 2 ^ w :=
    Nat.lt_of_le_of_lt (Nat.div_le_self _ _) dividend.isLt
  have left : s.n.toNat = dividend.toNat / d.toNat / 2 := by
    rw [holds.left, quotient, Nat.pow_zero, Nat.mod_one, Nat.zero_mul, Nat.zero_add]
  constructor
  · apply BitVec.eq_of_toNat_eq
    rw [toNat_shiftIn_of_lt _ _ one (by omega), left, holds.last, quotient, BitVec.toNat_udiv]
    omega
  · apply BitVec.eq_of_toNat_eq
    rw [holds.remainder, Nat.pow_zero, Nat.div_one, BitVec.toNat_umod]

/-- The dividend split at a bit above which it is less than the divisor. -/
theorem DivRegs.holds_start (within : rounds ≤ w) (lt : dividend.toNat / 2 ^ rounds < d.toNat) :
    DivRegs.Holds dividend d rounds
      { r := dividend >>> rounds, n := dividend <<< (w - rounds), carry := 0 } where
  within := within
  remainder := by
    rw [BitVec.toNat_ushiftRight, Nat.shiftRight_eq_div_pow, Nat.mod_eq_of_lt lt]
  left := by
    have whole : 2 ^ w = 2 ^ rounds * 2 ^ (w - rounds) := by
      rw [← Nat.pow_add, Nat.add_sub_cancel' within]
    rw [BitVec.toNat_shiftLeft, Nat.shiftLeft_eq, whole, Nat.mul_mod_mul_right,
      Nat.div_eq_of_lt lt, Nat.zero_div, Nat.add_zero]
  last := by
    rw [Nat.div_eq_of_lt lt]
    simp

end

end Library
