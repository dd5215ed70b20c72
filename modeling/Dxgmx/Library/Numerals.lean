import Mathlib.Data.Nat.Digits.Lemmas

namespace Library

/-- The value of a run of digits, the most significant one first. -/
def runValue (base : Nat) (run : List Nat) : Nat :=
  run.foldl (fun value digit => value * base + digit) 0

section Value

variable {base : Nat} {run : List Nat} {digit : Nat}

@[simp]
theorem runValue_nil : runValue base [] = 0 := rfl

theorem runValue_concat : runValue base (run ++ [digit]) = runValue base run * base + digit := by
  simp [runValue]

theorem runValue_eq_ofDigits (base : Nat) (run : List Nat) :
    runValue base run = Nat.ofDigits base run.reverse := by
  induction run using List.reverseRecOn with
  | nil => rfl
  | append_singleton run digit ih =>
    rw [runValue_concat, ih, List.reverse_append, List.reverse_singleton, List.singleton_append,
      Nat.ofDigits_cons, Nat.mul_comm, Nat.add_comm]

theorem runValue_take_succ {j : Nat} (inside : j < run.length) :
    runValue base (run.take (j + 1)) = runValue base (run.take j) * base + run[j] := by
  rw [List.take_succ_eq_append_getElem inside, runValue_concat]

theorem runValue_zeros (count : Nat) (run : List Nat) :
    runValue base (List.replicate count 0 ++ run) = runValue base run := by
  have zeros : runValue base (List.replicate count 0) = 0 := by
    induction count with
    | zero => rfl
    | succ count ih => rw [List.replicate_succ', runValue_concat, ih, Nat.zero_mul]
  unfold runValue at zeros ⊢
  rw [List.foldl_append, zeros]

theorem runValue_take_le (positive : 0 < base) (i : Nat) {j : Nat} (order : i ≤ j) :
    runValue base (run.take i) ≤ runValue base (run.take j) := by
  induction j, order using Nat.le_induction with
  | base => exact Nat.le_refl _
  | succ j order ih =>
    by_cases inside : j < run.length
    · rw [runValue_take_succ inside]
      have grown : runValue base (run.take j) ≤ runValue base (run.take j) * base :=
        Nat.le_mul_of_pos_right _ positive
      omega
    · have whole : run.length ≤ j := Nat.not_lt.mp inside
      rw [List.take_of_length_le whole] at ih
      rwa [List.take_of_length_le (Nat.le_succ_of_le whole)]

end Value

/-- The digits of a number, the most significant one first. Zero has one digit. -/
def numeral (base n : Nat) : List Nat := if n = 0 then [0] else (Nat.digits base n).reverse

section Numeral

variable {base n : Nat}

theorem numeral_of_pos (positive : 0 < n) : numeral base n = (Nat.digits base n).reverse :=
  if_neg (Nat.pos_iff_ne_zero.mp positive)

theorem runValue_numeral (base n : Nat) : runValue base (numeral base n) = n := by
  unfold numeral
  split
  · simp [runValue, *]
  · rw [runValue_eq_ofDigits, List.reverse_reverse, Nat.ofDigits_digits]

theorem numeral_ne_nil (base n : Nat) : numeral base n ≠ [] := by
  unfold numeral
  split
  · exact List.cons_ne_nil _ _
  · rename_i nonzero
    rwa [ne_eq, List.reverse_eq_nil_iff, Nat.digits_eq_nil_iff_eq_zero]

theorem numeral_digit (large : 1 < base) {digit : Nat} (member : digit ∈ numeral base n) :
    digit < base := by
  unfold numeral at member
  split at member
  · rw [List.mem_singleton.mp member]
    omega
  · exact Nat.digits_lt_base large (List.mem_reverse.mp member)

theorem numeral_length_le_iff (large : 1 < base) {k : Nat} (positive : 0 < k) :
    (numeral base n).length ≤ k ↔ n < base ^ k := by
  unfold numeral
  split
  · have power : 0 < base ^ k := Nat.pow_pos (Nat.lt_of_succ_lt large)
    rw [List.length_singleton]
    omega
  · rw [List.length_reverse, Nat.digits_length_le_iff large]

theorem digits_reverse_eq (large : 1 < base) (positive : 0 < n) :
    (Nat.digits base n).reverse = (Nat.digits base (n / base)).reverse ++ [n % base] := by
  rw [Nat.digits_def' large positive, List.reverse_cons]

/-- A round takes at least one bit of the number. -/
theorem quotient_lt (large : 1 < base) {rounds : Nat} (small : n < 2 ^ (rounds + 1)) :
    n / base < 2 ^ rounds := by
  have half : n / base ≤ n / 2 := Nat.div_le_div_left large (by omega)
  rw [Nat.pow_succ] at small
  omega

end Numeral

/-- The digits at the start of a text, up to the first character that is none. -/
def digitRun {α : Type*} (digitOf : α → Option Nat) : List α → List Nat
  | [] => []
  | c :: text =>
    match digitOf c with
    | none => []
    | some digit => digit :: digitRun digitOf text

section Run

variable {α : Type*} {digitOf : α → Option Nat}

theorem digitRun_map {char : Nat → α} {run : List Nat} {rest : List α}
    (reads : ∀ digit ∈ run, digitOf (char digit) = some digit)
    (ends : ∀ c ∈ rest.head?, digitOf c = none) :
    digitRun digitOf (run.map char ++ rest) = run := by
  induction run with
  | nil =>
    cases rest with
    | nil => rfl
    | cons c rest =>
      rw [List.map_nil, List.nil_append, digitRun, ends c rfl]
  | cons digit run ih =>
    rw [List.map_cons, List.cons_append, digitRun, reads digit List.mem_cons_self]
    dsimp only
    rw [ih fun digit member => reads digit (List.mem_cons_of_mem _ member)]

end Run

end Library
