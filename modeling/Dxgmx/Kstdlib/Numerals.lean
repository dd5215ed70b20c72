import Dxgmx.Kstdlib.Stdio
import Dxgmx.Library.Numerals

open Library

namespace Dxgmx

/-- What a character counts in a base. Small letters count as the large ones. -/
def digitOf (base : Nat) (c : Byte) : Option Nat :=
  let digit :=
    if chr '0' ≤ c ∧ c ≤ chr '9' then c.toNat - 48
    else if chr 'A' ≤ c ∧ c ≤ chr 'Z' then c.toNat - 55
    else if chr 'a' ≤ c ∧ c ≤ chr 'z' then c.toNat - 87
    else base
  if digit < base then some digit else none

/-- The digits of a number in characters. -/
def numeralText (base n : Nat) : List Byte := (numeral base n).map fun digit : Nat => digitChar digit

/-- The numeral of an integer, with its sign. -/
def integerText (base : Nat) (value : Int) : List Byte :=
  if value < 0 then chr '-' :: numeralText base value.natAbs else numeralText base value.natAbs

/-- The integer that a text stands for: blanks, a sign and then nothing but digits. -/
def readInteger (base : Nat) (text : List Byte) : Option Int :=
  let text := text.dropWhile (· = chr ' ')
  let negative := text.head? = some (chr '-')
  let digits := if negative then text.tail else text
  let run := digitRun (digitOf base) digits
  if run = [] ∨ run.length ≠ digits.length then none
  else if negative then some (-(runValue base run : Int))
  else some (runValue base run)

section Digits

variable {base : Nat}

theorem digitOf_eq_some {digit : Nat} {c : Byte} :
    digitOf base c = some digit ↔ digit < base ∧
      (c.toNat = digit + 48 ∧ digit < 10 ∨
        10 ≤ digit ∧ digit < 36 ∧ (c.toNat = digit + 55 ∨ c.toNat = digit + 87)) := by
  have range : ∀ lo hi : Nat, lo < 256 → hi < 256 →
      (BitVec.ofNat 8 lo ≤ c ∧ c ≤ BitVec.ofNat 8 hi ↔ lo ≤ c.toNat ∧ c.toNat ≤ hi) := by
    intro lo hi low high
    rw [BitVec.le_def, BitVec.le_def, BitVec.toNat_ofNat, BitVec.toNat_ofNat, Nat.mod_eq_of_lt low,
      Nat.mod_eq_of_lt high]
  have decimal : chr '0' ≤ c ∧ c ≤ chr '9' ↔ 48 ≤ c.toNat ∧ c.toNat ≤ 57 :=
    range 48 57 (by decide) (by decide)
  have upper : chr 'A' ≤ c ∧ c ≤ chr 'Z' ↔ 65 ≤ c.toNat ∧ c.toNat ≤ 90 :=
    range 65 90 (by decide) (by decide)
  have lower : chr 'a' ≤ c ∧ c ≤ chr 'z' ↔ 97 ≤ c.toNat ∧ c.toNat ≤ 122 :=
    range 97 122 (by decide) (by decide)
  unfold digitOf
  rw [if_congr decimal rfl rfl, if_congr upper rfl rfl, if_congr lower rfl rfl,
    Option.ite_none_right_eq_some, Option.some_inj]
  split
  · omega
  split
  · omega
  split <;> omega

theorem digitOf_digitChar (base_le : base ≤ 36) {digit : Nat} (small : digit < base) :
    digitOf base (digitChar digit) = some digit := by
  have value : ∀ digit < 36, ((digitChar (digit : Nat)).toNat = if digit < 10 then digit + 48
      else digit + 55) := by decide
  rw [digitOf_eq_some, value digit (Nat.lt_of_lt_of_le small base_le)]
  split <;> omega

theorem digitChar_ne {digit : Nat} (small : digit < 36) :
    digitChar digit ≠ 0 ∧ digitChar digit ≠ chr ' ' ∧ digitChar digit ≠ chr '-' := by
  have all : ∀ digit < 36, digitChar (digit : Nat) ≠ 0 ∧ digitChar (digit : Nat) ≠ chr ' ' ∧
      digitChar (digit : Nat) ≠ chr '-' := by decide
  exact all digit small

/-- The rounds are enough for every number below `2 ^ rounds`. -/
theorem lltoaDigits_eq (large : 1 < base) (rounds : Nat) {n : Nat} (small : n < 2 ^ rounds) :
    lltoaDigits base rounds n = (Nat.digits base n).reverse.map fun digit : Nat => digitChar digit := by
  induction rounds generalizing n with
  | zero =>
    rw [Nat.lt_one_iff.mp small, Nat.digits_zero]
    rfl
  | succ rounds ih =>
    unfold lltoaDigits
    by_cases zero : n = 0
    · rw [if_pos (by omega), zero, Nat.digits_zero]
      rfl
    · have quotient : (n : Int).tdiv base = (n / base : Nat) := rfl
      have remainder : (n : Int).tmod base = (n % base : Nat) := rfl
      rw [if_neg (by omega), quotient, remainder, ih (quotient_lt large small),
        digits_reverse_eq large (Nat.pos_of_ne_zero zero), List.map_append]
      rfl

theorem numeralText_ne_nil (base n : Nat) : numeralText base n ≠ [] := by
  unfold numeralText
  rw [ne_eq, List.map_eq_nil_iff]
  exact numeral_ne_nil base n

theorem numeralText_char (large : 1 < base) {n : Nat} {c : Byte} (member : c ∈ numeralText base n) :
    ∃ digit < base, c = digitChar (digit : Nat) := by
  obtain ⟨digit, there, rfl⟩ := List.mem_map.mp member
  exact ⟨digit, numeral_digit large there, rfl⟩

theorem numeralText_clean (large : 1 < base) (base_le : base ≤ 36) (n : Nat) :
    0 ∉ numeralText base n := by
  intro zero
  obtain ⟨digit, small, same⟩ := numeralText_char large zero
  exact (digitChar_ne (Nat.lt_of_lt_of_le small base_le)).1 same.symm

theorem integerText_clean (large : 1 < base) (base_le : base ≤ 36) (value : Int) :
    0 ∉ integerText base value := by
  have clean := numeralText_clean large base_le value.natAbs
  unfold integerText
  split
  · rw [List.mem_cons, not_or]
    exact ⟨by decide, clean⟩
  · exact clean

/-- Blanks before the sign and zeros behind it do not change what is read. -/
theorem readInteger_padded (large : 1 < base) (base_le : base ≤ 36) (blanks zeros : Nat) (value : Int) :
    readInteger base (List.replicate blanks (chr ' ') ++ ((if value < 0 then [chr '-'] else []) ++
      (List.replicate zeros (chr '0') ++ numeralText base value.natAbs))) = some value := by
  have digits : List.replicate zeros (chr '0') ++ numeralText base value.natAbs =
      (List.replicate zeros 0 ++ numeral base value.natAbs).map fun digit : Nat => digitChar digit := by
    rw [List.map_append, List.map_replicate]
    rfl
  have small : ∀ digit ∈ List.replicate zeros 0 ++ numeral base value.natAbs, digit < base := by
    intro digit member
    rcases List.mem_append.mp member with zero | inside
    · rw [List.eq_of_mem_replicate zero]
      omega
    · exact numeral_digit large inside
  have some_ : List.replicate zeros 0 ++ numeral base value.natAbs ≠ [] := by
    simp [numeral_ne_nil]
  have total : runValue base (List.replicate zeros 0 ++ numeral base value.natAbs) = value.natAbs := by
    rw [runValue_zeros, runValue_numeral]
  rw [digits]
  generalize List.replicate zeros 0 ++ numeral base value.natAbs = run at small some_ total
  have read : digitRun (digitOf base) (run.map fun digit : Nat => digitChar digit) = run := by
    have whole := @digitRun_map Byte (digitOf base) (fun digit => digitChar digit) run []
      (fun digit member => digitOf_digitChar base_le (small digit member)) nofun
    rwa [List.append_nil] at whole
  have drop : ∀ text : List Byte, (∀ c ∈ text.head?, c ≠ chr ' ') →
      (List.replicate blanks (chr ' ') ++ text).dropWhile (· = chr ' ') = text := by
    intro text other
    induction blanks with
    | zero =>
      cases text with
      | nil => rfl
      | cons c text => exact List.dropWhile_cons_of_neg (by simpa using other c rfl)
    | succ blanks ih =>
      rw [List.replicate_succ, List.cons_append, List.dropWhile_cons_of_pos (by simp), ih]
  cases run with
  | nil => exact absurd rfl some_
  | cons digit run =>
    have chars := digitChar_ne (Nat.lt_of_lt_of_le (small digit List.mem_cons_self) base_le)
    unfold readInteger
    by_cases negative : value < 0
    · rw [if_pos negative, drop _ (by rintro c ⟨⟩; decide)]
      simp only [List.singleton_append, List.head?_cons, List.tail_cons, if_true, read, total]
      simp [abs_of_neg negative]
    · rw [if_neg negative, List.nil_append, drop _ (by rintro c ⟨⟩; exact chars.2.1)]
      simp [chars.2.2] at read ⊢
      simp [read, total, abs_of_nonneg (Int.not_lt.mp negative)]

end Digits

section Conversions

variable {base : Nat}

theorem ulltoa_eq (large : 1 < base) (n : BitVec 64) : ulltoa n base = numeralText base n.toNat := by
  unfold ulltoa numeralText numeral
  by_cases zero : n = 0
  · subst zero
    rfl
  · have positive : n.toNat ≠ 0 := fun none => zero (BitVec.eq_of_toNat_eq none)
    rw [if_neg zero, if_neg positive, lltoaDigits_eq large 64 n.isLt]

theorem ultoa_eq (large : 1 < base) (n : BitVec 32) : ultoa n base = numeralText base n.toNat := by
  unfold ultoa
  rw [ulltoa_eq large, BitVec.toNat_setWidth, Nat.mod_eq_of_lt (by omega)]

/-- The smallest value is its own negation, so its digits are those of a negative number. -/
theorem lltoa_eq (large : 1 < base) {n : BitVec 64} (notLeast : n.toInt ≠ -2 ^ 63) :
    lltoa n base = integerText base n.toInt := by
  have range := BitVec.le_two_mul_toInt (x := n)
  unfold lltoa integerText
  by_cases zero : n = 0
  · subst zero
    rfl
  have nonzero : n.toInt ≠ 0 := fun same => zero (BitVec.eq_of_toInt_eq same)
  have digits : ∀ k : Nat, k < 2 ^ 64 → k ≠ 0 → lltoaDigits base 64 k = numeralText base k := by
    intro k small positive
    unfold numeralText
    rw [lltoaDigits_eq large 64 small, numeral_of_pos (Nat.pos_of_ne_zero positive)]
  have upper := BitVec.two_mul_toInt_lt (x := n)
  rw [if_neg zero]
  by_cases negative : n.toInt < 0
  · have magnitude : (llabs n).toInt = n.toInt.natAbs := by
      unfold llabs
      rw [if_pos negative, BitVec.toInt_neg, Int.bmod_eq_of_le (by omega) (by omega)]
      omega
    rw [if_pos negative, if_pos negative, magnitude, digits _ (by omega) (by omega)]
    rfl
  · have same : n.toInt = n.toInt.natAbs := by omega
    rw [if_neg negative, if_neg negative, ← digits _ (by omega) (by omega), ← same]

theorem ltoa_eq (large : 1 < base) (n : BitVec 32) : ltoa n base = integerText base n.toInt := by
  have lower := BitVec.le_two_mul_toInt (x := n)
  have same : (n.signExtend 64).toInt = n.toInt := BitVec.toInt_signExtend_of_le (by decide)
  unfold ltoa
  rw [lltoa_eq large (by omega), same]

end Conversions

end Dxgmx
