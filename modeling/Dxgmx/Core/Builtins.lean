import Dxgmx.Library.LongDivision

open Library

namespace Dxgmx

/-- `__builtin_clzll`. What it answers at 0 is undefined. -/
def clzll (undefined : BitVec 32) (x : BitVec 64) : BitVec 32 :=
  if x = 0 then undefined else x.clz.setWidth 32

/-- `u8 shr = clz(d) - clz(n)`. -/
def udivShift (undefined : BitVec 32) (n d : BitVec 64) : BitVec 8 :=
  (clzll undefined d - clzll undefined n).setWidth 8

/-- The loop of `__udivdi3` and of `__umoddi3`. -/
def udivLoop (d : BitVec 64) : Nat → DivRegs 64 → DivRegs 64
  | 0, s => s
  | shr + 1, s =>
    let r := s.r <<< 1 ||| s.n >>> 63
    let n := s.n <<< 1 ||| s.carry
    let mask := (d - r - 1).sshiftRight 63
    udivLoop d shr { r := r - (d &&& mask), n := n, carry := mask &&& 1 }

def udivStart (shr : Nat) (n : BitVec 64) : DivRegs 64 where
  r := n >>> shr
  n := n <<< (64 - shr)
  carry := 0

def udivdi3 (undefined : BitVec 32) (n d : BitVec 64) : BitVec 64 :=
  let shr := (udivShift undefined n d).toNat
  if 63 < shr then 0
  else if shr = 63 then n
  else
    let s := udivLoop d (shr + 1) (udivStart (shr + 1) n)
    s.n <<< 1 ||| s.carry

def umoddi3 (undefined : BitVec 32) (n d : BitVec 64) : BitVec 64 :=
  let shr := (udivShift undefined n d).toNat
  if 63 < shr then n
  else if shr = 63 then 0
  else (udivLoop d (shr + 1) (udivStart (shr + 1) n)).r

def divdi3 (undefined : BitVec 32) (a b : BitVec 64) : BitVec 64 :=
  let signA := a.sshiftRight 63
  let signB := b.sshiftRight 63
  let ua := (a ^^^ signA) + -signA
  let ub := (b ^^^ signB) + -signB
  let sign := signA ^^^ signB
  (udivdi3 undefined ua ub ^^^ sign) + -sign

def moddi3 (undefined : BitVec 32) (a b : BitVec 64) : BitVec 64 :=
  let signB := b.sshiftRight 63
  let ub := (b ^^^ signB) + -signB
  let signA := a.sshiftRight 63
  let ua := (a ^^^ signA) + -signA
  (umoddi3 undefined ua ub ^^^ signA) + -signA

theorem udivLoop_eq (d : BitVec 64) (rounds : Nat) (s : DivRegs 64) :
    udivLoop d rounds s = restoringRounds d rounds s := by
  induction rounds generalizing s with
  | zero => rfl
  | succ rounds ih => exact ih _

variable (undefined : BitVec 32) {n d : BitVec 64}

theorem clzll_toNat (some_ : n ≠ 0) : (clzll undefined n).toNat = n.clz.toNat ∧ n.clz.toNat < 64 := by
  have lt : n.clz.toNat < 64 := by
    have bound := BitVec.clz_lt_iff_ne_zero.mpr some_
    simpa [BitVec.lt_def] using bound
  refine ⟨?_, lt⟩
  rw [clzll, if_neg some_, BitVec.toNat_setWidth, Nat.mod_eq_of_lt (by omega)]

/-- How much longer `n` is than `d`, or over 63 where it is shorter. -/
theorem udivShift_toNat (someN : n ≠ 0) (someD : d ≠ 0) :
    (udivShift undefined n d).toNat =
      if n.clz.toNat ≤ d.clz.toNat then d.clz.toNat - n.clz.toNat
      else 256 + d.clz.toNat - n.clz.toNat := by
  have first := clzll_toNat undefined someN
  have second := clzll_toNat undefined someD
  rw [udivShift, BitVec.toNat_setWidth, BitVec.toNat_sub, first.1, second.1]
  split <;> omega

theorem clz_bounds (some_ : n ≠ 0) :
    2 ^ (63 - n.clz.toNat) ≤ n.toNat ∧ n.toNat < 2 ^ (64 - n.clz.toNat) :=
  ⟨BitVec.two_pow_sub_clz_le_toNat_of_ne_zero (by decide) some_, BitVec.toNat_lt_two_pow_sub_clz⟩

theorem shift_far (far : 63 < (udivShift undefined n d).toNat) :
    udivdi3 undefined n d = 0 ∧ umoddi3 undefined n d = n :=
  ⟨if_pos far, if_pos far⟩

theorem shift_full (full : (udivShift undefined n d).toNat = 63) :
    udivdi3 undefined n d = n ∧ umoddi3 undefined n d = 0 := by
  have near : ¬ 63 < (udivShift undefined n d).toNat := by omega
  constructor
  · exact (if_neg near).trans (if_pos full)
  · exact (if_neg near).trans (if_pos full)

theorem shift_short {shr : Nat} (shift : (udivShift undefined n d).toNat = shr) (short : shr < 63) :
    let s := udivLoop d (shr + 1) (udivStart (shr + 1) n)
    udivdi3 undefined n d = s.n <<< 1 ||| s.carry ∧ umoddi3 undefined n d = s.r := by
  subst shift
  have near : ¬ 63 < (udivShift undefined n d).toNat := by omega
  constructor
  · exact (if_neg near).trans (if_neg (Nat.ne_of_lt short))
  · exact (if_neg near).trans (if_neg (Nat.ne_of_lt short))

theorem shift_short_right {shr : Nat} (shift : (udivShift undefined n d).toNat = shr)
    (short : shr < 63) (positive : 0 < d.toNat) (lt : n.toNat / 2 ^ (shr + 1) < d.toNat)
    (near : d.toNat ≤ 2 ^ 63 ∨ ∀ k < shr + 1, 2 ^ 63 ≤ n.toNat / 2 ^ k) :
    udivdi3 undefined n d = n / d ∧ umoddi3 undefined n d = n % d := by
  have start := DivRegs.holds_start (show shr + 1 ≤ 64 by omega) lt
  have done := start.all_rounds positive near
  rw [← udivLoop_eq] at done
  have code := shift_short undefined shift short
  rw [code.1, code.2]
  exact done.result

theorem toNat_pos (some_ : d ≠ 0) : 0 < d.toNat :=
  Nat.pos_of_ne_zero fun zero => some_ (BitVec.eq_of_toNat_eq zero)

/-- The quotient and the remainder of a dividend that is not 0. -/
theorem division_right (someN : n ≠ 0) (someD : d ≠ 0) :
    udivdi3 undefined n d = n / d ∧ umoddi3 undefined n d = n % d := by
  have shift := udivShift_toNat undefined someN someD
  rcases clz_bounds someN with ⟨lowN, highN⟩
  rcases clz_bounds someD with ⟨lowD, highD⟩
  have lastN := (clzll_toNat undefined someN).2
  have lastD := (clzll_toNat undefined someD).2
  by_cases longer : n.clz.toNat ≤ d.clz.toNat
  · rw [if_pos longer] at shift
    by_cases whole : d.clz.toNat - n.clz.toNat = 63
    · have one : d = 1 := by
        rw [show d.clz.toNat = 63 by omega] at lowD highD
        apply BitVec.eq_of_toNat_eq
        simp
        omega
      have code := shift_full undefined (shift.trans whole)
      rw [code.1, code.2, one]
      simp
    · apply shift_short_right undefined shift (by omega) (toNat_pos someD)
      · rw [Nat.div_lt_iff_lt_mul (Nat.two_pow_pos _)]
        have reach : 2 ^ (64 - n.clz.toNat) =
            2 ^ (63 - d.clz.toNat) * 2 ^ (d.clz.toNat - n.clz.toNat + 1) := by
          rw [← Nat.pow_add]
          congr 1
          omega
        calc n.toNat < 2 ^ (64 - n.clz.toNat) := highN
          _ ≤ d.toNat * 2 ^ (d.clz.toNat - n.clz.toNat + 1) := by
            rw [reach]
            exact Nat.mul_le_mul_right _ lowD
      · by_cases half : d.toNat ≤ 2 ^ 63
        · exact .inl half
        · have high : d.clz.toNat = 0 := by
            by_contra low
            have bound := Nat.pow_le_pow_right (show 0 < 2 by decide)
              (show 64 - d.clz.toNat ≤ 63 by omega)
            omega
          rw [show n.clz.toNat = 0 by omega] at lowN
          right
          intro k lt
          rw [show k = 0 by omega, Nat.pow_zero, Nat.div_one]
          exact lowN
  · rw [if_neg longer] at shift
    have lt : n.toNat < d.toNat := by
      have bound := Nat.pow_le_pow_right (show 0 < 2 by decide)
        (show 64 - n.clz.toNat ≤ 63 - d.clz.toNat by omega)
      omega
    have code := shift_far undefined (n := n) (d := d) (by omega)
    rw [code.1, code.2]
    constructor
    · apply BitVec.eq_of_toNat_eq
      rw [BitVec.toNat_udiv, Nat.div_eq_of_lt lt]
      rfl
    · apply BitVec.eq_of_toNat_eq
      rw [BitVec.toNat_umod, Nat.mod_eq_of_lt lt]

theorem zero_division_right (long : 63 ≤ (udivShift undefined 0 d).toNat) :
    udivdi3 undefined 0 d = 0 / d ∧ umoddi3 undefined 0 d = 0 % d := by
  rcases Nat.lt_or_eq_of_le long with far | full
  · have code := shift_far undefined far
    rw [code.1, code.2]
    simp
  · have code := shift_full undefined full.symm
    rw [code.1, code.2]
    simp

/-- With a divisor of at most half the range the undefined answer does not matter. -/
theorem division_right_of_le (someD : d ≠ 0) (half : d.toNat ≤ 2 ^ 63) (n : BitVec 64) :
    udivdi3 undefined n d = n / d ∧ umoddi3 undefined n d = n % d := by
  by_cases zero : n = 0
  · subst zero
    by_cases short : (udivShift undefined 0 d).toNat < 63
    · apply shift_short_right undefined rfl short (toNat_pos someD) _ (.inl half)
      simpa using toNat_pos someD
    · exact zero_division_right undefined (by omega)
  · exact division_right undefined zero someD

/-- A bit of the quotient moves up with every round. -/
theorem udivLoop_bit (d : BitVec 64) (rounds : Nat) (s : DivRegs 64) (i : Nat)
    (bit : (s.n <<< 1 ||| s.carry).getLsbD i = true) (room : i + rounds < 64) :
    ((udivLoop d rounds s).n <<< 1 ||| (udivLoop d rounds s).carry).getLsbD (i + rounds) = true := by
  induction rounds generalizing s i with
  | zero => exact bit
  | succ rounds ih =>
    rw [show i + (rounds + 1) = i + 1 + rounds by omega, udivLoop]
    apply ih
    · rw [BitVec.getLsbD_or, BitVec.getLsbD_shiftLeft]
      simp only [show i + 1 < 64 by omega, show ¬ i + 1 < 1 by omega, Nat.add_sub_cancel, bit]
      rfl
    · omega

/-- A divisor over half the range into 0: the first round already subtracts. -/
theorem zero_division_wrong (large : 2 ^ 63 < d.toNat)
    (short : (udivShift undefined 0 d).toNat < 63) : udivdi3 undefined 0 d ≠ 0 / d := by
  have sign : (d - 0 - 1).msb = true := by
    rw [BitVec.msb_eq_decide, decide_eq_true_iff, show d - 0 = d from BitVec.sub_zero d,
      BitVec.toNat_sub_of_le (by rw [BitVec.le_def]; simp; omega)]
    simp
    omega
  have mask : (d - 0 - 1).sshiftRight 63 = BitVec.allOnes 64 := borrowMask_of_sign d 0 sign
  have code := shift_short undefined rfl short
  generalize (udivShift undefined 0 d).toNat = shr at short code
  have first : udivLoop d (shr + 1) (udivStart (shr + 1) 0) =
      udivLoop d shr { r := 0 - (d &&& BitVec.allOnes 64), n := 0, carry := 1 } := by
    rw [udivLoop]
    have brought : (0 : BitVec 64) >>> (shr + 1) <<< 1 |||
        (0 : BitVec 64) <<< (64 - (shr + 1)) >>> 63 = 0 := by simp
    have left : (0 : BitVec 64) <<< (64 - (shr + 1)) <<< 1 ||| 0 = 0 := by simp
    simp only [udivStart]
    rw [brought, left, mask]
    rfl
  have bit := udivLoop_bit d shr { r := 0 - (d &&& BitVec.allOnes 64), n := 0, carry := 1 } 0
    (by simp) (by omega)
  rw [← first] at bit
  intro same
  rw [← code.1, same] at bit
  simp at bit

/-- The division of `n` by `d` is right, except that of 0 by more than half the range where the
    undefined answer makes the shift less than 63. -/
theorem division_right_iff (someD : d ≠ 0) :
    (udivdi3 undefined n d = n / d ∧ umoddi3 undefined n d = n % d) ↔
      (n ≠ 0 ∨ d.toNat ≤ 2 ^ 63 ∨ 63 ≤ (udivShift undefined n d).toNat) := by
  constructor
  · intro right
    by_contra bad
    push Not at bad
    rcases bad with ⟨rfl, large, short⟩
    exact zero_division_wrong undefined large short right.1
  · intro condition
    rcases condition with some_ | half | long
    · exact division_right undefined some_ someD
    · exact division_right_of_le undefined someD half n
    · by_cases zero : n = 0
      · subst zero
        exact zero_division_right undefined long
      · exact division_right undefined zero someD

theorem division_right_by_ten : udivdi3 32 0 10 = 0 / 10 ∧ umoddi3 32 0 10 = 0 % 10 :=
  (division_right_iff 32 (by decide)).mpr (.inr (.inl (by decide)))

/-- The sign of a word, in all bits. -/
theorem sign_mask (a : BitVec 64) : a.sshiftRight 63 = if a.msb then BitVec.allOnes 64 else 0 := by
  cases sign : a.msb with
  | true =>
    have whole := borrowMask_of_sign (a + 1) 0 (by simpa using sign)
    simpa [borrowMask] using whole
  | false =>
    rw [BitVec.sshiftRight_eq_of_msb_false sign]
    apply BitVec.eq_of_toNat_eq
    have low := BitVec.toNat_lt_of_msb_false sign
    rw [BitVec.toNat_ushiftRight, Nat.shiftRight_eq_div_pow, Nat.div_eq_of_lt (by omega)]
    rfl

/-- Negates where the sign is set. -/
theorem apply_sign (a : BitVec 64) (sign : Bool) :
    (a ^^^ if sign then BitVec.allOnes 64 else 0) + -(if sign then BitVec.allOnes 64 else 0) =
      if sign then -a else a := by
  cases sign with
  | true =>
    simp only [↓reduceIte]
    rw [BitVec.xor_allOnes, ← BitVec.neg_one_eq_allOnes, BitVec.neg_neg, BitVec.neg_eq_not_add]
  | false => simp

theorem magnitude_le (b : BitVec 64) : (if b.msb then -b else b).toNat ≤ 2 ^ 63 := by
  cases sign : b.msb with
  | true =>
    have high := sign
    rw [BitVec.msb_eq_decide, decide_eq_true_iff] at high
    simp only [↓reduceIte, BitVec.toNat_neg]
    omega
  | false =>
    have low := BitVec.toNat_lt_of_msb_false sign
    simp only [Bool.false_eq_true, ↓reduceIte]
    omega

theorem magnitude_ne_zero {b : BitVec 64} (some_ : b ≠ 0) : (if b.msb then -b else b) ≠ 0 := by
  split
  · simpa using some_
  · exact some_

theorem xor_sign (p q : Bool) :
    ((if p then BitVec.allOnes 64 else 0) ^^^ if q then BitVec.allOnes 64 else 0) =
      if p ^^ q then BitVec.allOnes 64 else 0 := by
  cases p <;> cases q <;> simp

/-- Signed division rounds towards 0 and the remainder has the sign of the dividend, whatever
    `clzll` answers at 0. -/
theorem signed_division_right {b : BitVec 64} (some_ : b ≠ 0) (a : BitVec 64) :
    divdi3 undefined a b = a.sdiv b ∧ moddi3 undefined a b = a.srem b := by
  have unsigned := division_right_of_le undefined (magnitude_ne_zero some_) (magnitude_le b)
    (if a.msb then -a else a)
  unfold divdi3 moddi3
  simp only [sign_mask, apply_sign, xor_sign, unsigned.1, unsigned.2]
  rw [BitVec.sdiv_eq, BitVec.srem_eq]
  cases a.msb <;> cases b.msb <;> simp

theorem signed_division_right_min :
    divdi3 64 (BitVec.intMin 64) (-1) = (BitVec.intMin 64).sdiv (-1) ∧
      moddi3 64 (BitVec.intMin 64) (-1) = (BitVec.intMin 64).srem (-1) :=
  signed_division_right 64 (by decide) _

end Dxgmx
