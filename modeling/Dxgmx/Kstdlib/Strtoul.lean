import Dxgmx.Kstdlib.Numerals

open Library

namespace Dxgmx

def Ctype.isspace (c : Byte) : Bool :=
  c = chr ' ' ∨ c = 0x0C ∨ c = chr '\n' ∨ c = chr '\r' ∨ c = chr '\t' ∨ c = 0x0B

/-- A `char` is signed. -/
def isbasedigit (c : Byte) (base : Int) : Bool :=
  if 2 ≤ base ∧ base ≤ 10 then
    (chr '0').toInt ≤ c.toInt ∧ c.toInt ≤ (chr '0').toInt + base - 1
  else if 11 ≤ base ∧ base ≤ 32 then
    (chr '0').toInt ≤ c.toInt ∧ c.toInt ≤ (chr '9').toInt ∨
      (chr 'A').toInt ≤ c.toInt ∧ c.toInt ≤ (chr 'A').toInt + base - 11 ∨
      (chr 'a').toInt ≤ c.toInt ∧ c.toInt ≤ (chr 'a').toInt + base - 11
  else false

/-- What a digit adds to the accumulator. -/
def strtoDigit (c : Byte) : Int :=
  if c.toInt ≤ (chr '9').toInt then c.toInt - (chr '0').toInt
  else if (chr 'a').toInt ≤ c.toInt ∧ c.toInt ≤ (chr 'v').toInt then c.toInt - (chr 'a').toInt + 10
  else c.toInt - (chr 'A').toInt + 10

def skipSpaces : List Byte → (offset : Nat) → Exec (List Byte × Nat)
  | [], _ => .error .fault
  | c :: str, offset =>
    if Ctype.isspace c then skipSpaces str (offset + 1) else .ok (c :: str, offset)

/-- The loop over the digits. It returns nothing when the new accumulator is less than the old one,
    which both wrap. -/
def strtoScan (less : BitVec 32 → BitVec 32 → Bool) (base : Int) :
    List Byte → (offset : Nat) → BitVec 32 → Exec (Option (BitVec 32 × Nat))
  | [], _, _ => .error .fault
  | c :: str, offset, out =>
    if c = 0 then .ok (some (out, offset))
    else if ¬ isbasedigit c base then .ok (some (out, offset))
    else
      let tmp := out * BitVec.ofInt 32 base + BitVec.ofInt 32 (strtoDigit c)
      if less tmp out then .ok none else strtoScan less base str (offset + 1) tmp

/-- The return value, the offset that is left at `endptr` and what is left at `dst`, where anything
    is. -/
structure StrtoResult where
  ret : Int
  endptr : Option Nat
  dst : Option (BitVec 32)
  deriving DecidableEq, Repr

/-- The part behind the sign. -/
def strtoDigits (less : BitVec 32 → BitVec 32 → Bool) (limit : Bool → BitVec 32) (base : Int)
    (neg : Bool) (str : List Byte) (offset : Nat) : Exec StrtoResult :=
  match str with
  | [] => .error .fault
  | c :: rest =>
    if ¬ isbasedigit c base then .ok ⟨-22, some 0, none⟩
    else do
      match ← strtoScan less base (c :: rest) offset 0 with
      | none => pure ⟨-34, some 0, some (limit neg)⟩
      | some (out, offset) => pure ⟨0, some offset, some (if neg then -out else out)⟩

/-- What `strtoul` and `strtol` share: they differ in the comparison and in what they store on
    overflow. `TODO_FATAL` panics. -/
def strto (less : BitVec 32 → BitVec 32 → Bool) (limit : Bool → BitVec 32) (str : List Byte)
    (base : Int) : Exec StrtoResult :=
  if base < 2 ∧ base ≠ 0 ∨ 36 < base then .ok ⟨0, none, none⟩
  else if base = 0 then .error .panic
  else do
    let (str, offset) ← skipSpaces str 0
    if str.head? = some (chr '-') then strtoDigits less limit base true str.tail (offset + 1)
    else strtoDigits less limit base false str offset

/-- `ULONG_MAX` is stored on overflow, whatever the sign. -/
def strtoul (str : List Byte) (base : Int) : Exec StrtoResult :=
  strto (fun tmp out => tmp < out) (fun _ => BitVec.allOnes 32) str base

/-- `LONG_MIN` or `LONG_MAX` is stored on overflow. -/
def strtol (str : List Byte) (base : Int) : Exec StrtoResult :=
  strto BitVec.slt (fun neg => if neg then BitVec.intMin 32 else BitVec.intMax 32) str base

/-- What a string says: its sign, its digits and where they end. -/
structure StrtoInput where
  negative : Bool
  run : List Nat
  stop : Nat
  deriving DecidableEq, Repr

def strtoInput (base : Nat) (text : List Byte) : StrtoInput :=
  let rest := text.dropWhile Ctype.isspace
  let negative : Bool := rest.head? = some (chr '-')
  let digits := if negative then rest.tail else rest
  let run := digitRun (digitOf base) digits
  ⟨negative, run, text.length - digits.length + run.length⟩

namespace StrtoInput

variable (base : Nat) (input : StrtoInput)

def magnitude : Nat := runValue base input.run

def value : Int := if input.negative then -(input.magnitude base : Int) else input.magnitude base

/-- What is to be returned, for a type that holds the magnitudes that `fits` says. -/
structure Right (fits : Bool → Nat → Prop) (limit : Bool → BitVec 32) (result : StrtoResult) :
    Prop where
  none_ : input.run = [] → result.ret = -22 ∧ result.endptr = some 0
  value : input.run ≠ [] → fits input.negative (input.magnitude base) →
    result = ⟨0, some input.stop, some (BitVec.ofInt 32 (input.value base))⟩
  range : input.run ≠ [] → ¬ fits input.negative (input.magnitude base) →
    result.ret = -34 ∧ result.dst = some (limit input.negative)

/-- The value of the first `j` digits. -/
def prefixValue (j : Nat) : Nat := runValue base (input.run.take j)

/-- Some digit makes the value less than it was, as a type sees it. -/
def Drops (wrap : Nat → Int) : Prop :=
  ∃ j < input.run.length, wrap (input.prefixValue base (j + 1)) < wrap (input.prefixValue base j)

instance (wrap : Nat → Int) : Decidable (input.Drops base wrap) :=
  inferInstanceAs (Decidable (∃ j < input.run.length,
    wrap (input.prefixValue base (j + 1)) < wrap (input.prefixValue base j)))

end StrtoInput

section Digits

variable {base : Nat} {c : Byte}

/-- A byte seen as a `char`. -/
theorem toInt_char (c : Byte) :
    c.toInt = if c.toNat < 128 then (c.toNat : Int) else c.toNat - 256 := by
  rw [BitVec.toInt_eq_toNat_cond]
  split <;> split <;> omega

theorem toInt_chr : (chr '0').toInt = 48 ∧ (chr '9').toInt = 57 ∧ (chr 'A').toInt = 65 ∧
    (chr 'a').toInt = 97 ∧ (chr 'v').toInt = 118 := by
  decide

theorem isbasedigit_iff (low : 2 ≤ base) (high : base ≤ 32) (c : Byte) :
    isbasedigit c base = (digitOf base c).isSome := by
  have seen := toInt_char c
  have bound := c.isLt
  obtain ⟨zero, nine, upper, lower, -⟩ := toInt_chr
  rw [Bool.eq_iff_iff, Option.isSome_iff_exists]
  simp only [digitOf_eq_some]
  unfold isbasedigit
  rw [zero, nine, upper, lower]
  constructor
  · intro is
    split at is
    · rw [decide_eq_true_iff] at is
      exact ⟨c.toNat - 48, by omega⟩
    · rw [if_pos (by omega), decide_eq_true_iff] at is
      rcases is with decimal | capital | small
      · exact ⟨c.toNat - 48, by omega⟩
      · exact ⟨c.toNat - 55, by omega⟩
      · exact ⟨c.toNat - 87, by omega⟩
  · rintro ⟨digit, small, is⟩
    split
    · rw [decide_eq_true_iff]
      omega
    · rw [if_pos (by omega), decide_eq_true_iff]
      omega

theorem strtoDigit_eq (high : base ≤ 32) {digit : Nat} (is : digitOf base c = some digit) :
    strtoDigit c = digit := by
  have seen := toInt_char c
  have bound := c.isLt
  obtain ⟨zero, nine, upper, lower, last⟩ := toInt_chr
  obtain ⟨small, is⟩ := digitOf_eq_some.mp is
  unfold strtoDigit
  rw [zero, nine, upper, lower, last]
  split
  · omega
  split <;> omega

theorem digitOf_terminator (base : Nat) : digitOf base 0 = none := by
  have decimal : ¬ (chr '0' ≤ 0 ∧ 0 ≤ chr '9') := by decide
  have upper : ¬ (chr 'A' ≤ 0 ∧ 0 ≤ chr 'Z') := by decide
  have lower : ¬ (chr 'a' ≤ 0 ∧ 0 ≤ chr 'z') := by decide
  simp only [digitOf, if_neg decimal, if_neg upper, if_neg lower, Nat.lt_irrefl, if_false]

end Digits

/-- The loop on the digits alone. -/
def scanRun (less : BitVec 32 → BitVec 32 → Bool) (base : Nat) :
    List Nat → BitVec 32 → Option (BitVec 32)
  | [], out => some out
  | digit :: run, out =>
    let tmp := out * BitVec.ofNat 32 base + BitVec.ofNat 32 digit
    if less tmp out then none else scanRun less base run tmp

section Scan

variable {less : BitVec 32 → BitVec 32 → Bool} {base : Nat} {behind : List Byte}

theorem digitRun_head (c : Byte) (text : List Byte) :
    digitRun (digitOf base) (c :: text) = [] ↔ digitOf base c = none := by
  unfold digitRun
  cases digitOf base c <;> simp

theorem strtoScan_eq (low : 2 ≤ base) (high : base ≤ 32) {text : List Byte} (clean : 0 ∉ text)
    (offset : Nat) (out : BitVec 32) :
    strtoScan less base (text ++ 0 :: behind) offset out =
      .ok ((scanRun less base (digitRun (digitOf base) text) out).map
        (·, offset + (digitRun (digitOf base) text).length)) := by
  induction text generalizing offset out with
  | nil =>
    rw [List.nil_append, strtoScan, if_pos rfl]
    rfl
  | cons c text ih =>
    have tail : 0 ∉ text := fun member => clean (List.mem_cons_of_mem c member)
    have terminator : ¬ c = 0 := fun zero => clean (zero ▸ List.mem_cons_self)
    rw [List.cons_append, strtoScan, if_neg terminator, isbasedigit_iff low high, digitRun]
    cases is : digitOf base c with
    | none => rfl
    | some digit =>
      rw [strtoDigit_eq high is, BitVec.ofInt_natCast, BitVec.ofInt_natCast]
      dsimp only
      rw [if_neg (by simp), scanRun, List.length_cons]
      split
      · rfl
      · rw [ih tail, Nat.add_assoc, Nat.add_comm 1]

theorem skipSpaces_eq {text : List Byte} (offset : Nat) :
    skipSpaces (text ++ 0 :: behind) offset =
      .ok (text.dropWhile Ctype.isspace ++ 0 :: behind,
        offset + (text.length - (text.dropWhile Ctype.isspace).length)) := by
  induction text generalizing offset with
  | nil =>
    rw [List.nil_append, skipSpaces, if_neg (by decide)]
    rfl
  | cons c text ih =>
    have shorter := (List.dropWhile_sublist (l := text) Ctype.isspace).length_le
    rw [List.cons_append, skipSpaces]
    by_cases space : Ctype.isspace c
    · rw [if_pos space, ih, List.dropWhile_cons_of_pos space, List.length_cons]
      congr 2
      omega
    · rw [if_neg space, List.dropWhile_cons_of_neg space, Nat.sub_self]
      rfl

/-- Without a drop the accumulator is the value of the digits. -/
theorem scanRun_eq {wrap : Nat → Int}
    (agrees : ∀ a b : Nat, less (BitVec.ofNat 32 a) (BitVec.ofNat 32 b) ↔ wrap a < wrap b)
    (done run : List Nat) :
    scanRun less base run (BitVec.ofNat 32 (runValue base done)) =
      if ∃ j < run.length, wrap (runValue base (done ++ run.take (j + 1))) <
          wrap (runValue base (done ++ run.take j)) then none
      else some (BitVec.ofNat 32 (runValue base (done ++ run))) := by
  induction run generalizing done with
  | nil =>
    rw [if_neg (by simp), List.append_nil]
    rfl
  | cons digit run ih =>
    have tmp : BitVec.ofNat 32 (runValue base done) * BitVec.ofNat 32 base + BitVec.ofNat 32 digit =
        BitVec.ofNat 32 (runValue base (done ++ [digit])) := by
      rw [runValue_concat, ← BitVec.ofNat_mul, ← BitVec.ofNat_add]
    have rest := ih (done ++ [digit])
    simp only [List.append_assoc, List.singleton_append] at rest
    rw [scanRun, tmp, rest]
    by_cases now : wrap (runValue base (done ++ [digit])) < wrap (runValue base done)
    · rw [if_pos ((agrees _ _).mpr now), if_pos]
      refine ⟨0, by simp, ?_⟩
      rwa [List.take_succ_cons, List.take_zero, List.take_zero, List.append_nil]
    rw [if_neg fun drop => now ((agrees _ _).mp drop)]
    by_cases later : ∃ j < run.length, wrap (runValue base (done ++ digit :: run.take (j + 1))) <
        wrap (runValue base (done ++ digit :: run.take j))
    · obtain ⟨j, inside, drops⟩ := later
      rw [if_pos ⟨j, inside, drops⟩, if_pos ⟨j + 1, Nat.succ_lt_succ inside, drops⟩]
    · rw [if_neg later, if_neg]
      rintro ⟨j, inside, drops⟩
      cases j with
      | zero =>
        rw [List.take_succ_cons, List.take_zero, List.take_zero, List.append_nil] at drops
        exact now drops
      | succ j => exact later ⟨j, Nat.lt_of_succ_lt_succ inside, drops⟩

/-- The answer for a string that has been cut into its parts. -/
def strtoAnswer (limit : Bool → BitVec 32) (wrap : Nat → Int) (base : Nat) (input : StrtoInput) :
    StrtoResult :=
  if input.run = [] then ⟨-22, some 0, none⟩
  else if input.Drops base wrap then ⟨-34, some 0, some (limit input.negative)⟩
  else ⟨0, some input.stop, some (BitVec.ofInt 32 (input.value base))⟩

theorem strtoDigits_eq {limit : Bool → BitVec 32} {wrap : Nat → Int} (low : 2 ≤ base)
    (high : base ≤ 32)
    (agrees : ∀ a b : Nat, less (BitVec.ofNat 32 a) (BitVec.ofNat 32 b) ↔ wrap a < wrap b)
    (neg : Bool) {digits : List Byte} (clean : 0 ∉ digits) (offset : Nat) :
    strtoDigits less limit base neg (digits ++ 0 :: behind) offset =
      .ok (strtoAnswer limit wrap base ⟨neg, digitRun (digitOf base) digits,
        offset + (digitRun (digitOf base) digits).length⟩) := by
  unfold strtoDigits strtoAnswer
  cases digits with
  | nil =>
    rw [List.nil_append]
    dsimp only
    rw [isbasedigit_iff low high, digitOf_terminator]
    rfl
  | cons c digits =>
    rw [List.cons_append]
    dsimp only
    rw [isbasedigit_iff low high, ← List.cons_append, strtoScan_eq low high clean]
    by_cases none_ : digitRun (digitOf base) (c :: digits) = []
    · rw [if_pos none_, (digitRun_head c digits).mp none_]
      rfl
    · have some_ : (digitOf base c).isSome := by
        rw [Option.isSome_iff_ne_none]
        exact fun none => none_ ((digitRun_head c digits).mpr none)
      have start : (0 : BitVec 32) = BitVec.ofNat 32 (runValue base []) := rfl
      rw [if_neg none_, some_, if_neg (by simp), start, scanRun_eq agrees, Exec.ok_bind]
      simp only [List.nil_append]
      generalize digitRun (digitOf base) (c :: digits) = run
      by_cases drops : ∃ j < run.length,
          wrap (runValue base (run.take (j + 1))) < wrap (runValue base (run.take j))
      · have answer : StrtoInput.Drops base ⟨neg, run, offset + run.length⟩ wrap := drops
        rw [if_pos drops, if_pos answer]
        rfl
      · have answer : ¬ StrtoInput.Drops base ⟨neg, run, offset + run.length⟩ wrap := drops
        have value : (if neg then -BitVec.ofNat 32 (runValue base run)
            else BitVec.ofNat 32 (runValue base run)) =
              BitVec.ofInt 32 (if neg then -(runValue base run : Int) else runValue base run) := by
          cases neg with
          | false => exact (BitVec.ofInt_natCast 32 _).symm
          | true =>
            rw [if_pos rfl, if_pos rfl, BitVec.ofInt_neg, BitVec.ofInt_natCast]
        rw [if_neg drops, if_neg answer]
        show Except.ok (StrtoResult.mk 0 _ (some (if neg then _ else _))) = _
        rw [value]
        rfl

theorem strto_eq {limit : Bool → BitVec 32} {wrap : Nat → Int} (low : 2 ≤ base) (high : base ≤ 32)
    (agrees : ∀ a b : Nat, less (BitVec.ofNat 32 a) (BitVec.ofNat 32 b) ↔ wrap a < wrap b)
    {text : List Byte} (clean : 0 ∉ text) :
    strto less limit (text ++ 0 :: behind) base =
      .ok (strtoAnswer limit wrap base (strtoInput base text)) := by
  have notBase : ¬ (((base : Int) < 2 ∧ (base : Int) ≠ 0) ∨ 36 < (base : Int)) := by omega
  have head : ∀ rest : List Byte, (rest ++ 0 :: behind).head? = some (chr '-') →
      rest.head? = some (chr '-') := by
    intro rest same
    cases rest with
    | nil => exact absurd (Option.some.inj same) (by decide)
    | cons c rest => exact same
  have sublist := List.dropWhile_sublist (l := text) Ctype.isspace
  have shorter := sublist.length_le
  have clean' : 0 ∉ text.dropWhile Ctype.isspace := fun member => clean (sublist.mem member)
  unfold strto strtoInput
  rw [if_neg notBase, if_neg (by omega), skipSpaces_eq, Exec.ok_bind]
  dsimp only
  generalize text.dropWhile Ctype.isspace = rest at shorter clean'
  cases rest with
  | nil =>
    rw [if_neg fun same => absurd (head [] same) nofun,
      strtoDigits_eq low high agrees false clean']
    simp
  | cons c rest =>
    have tail : 0 ∉ rest := fun member => clean' (List.mem_cons_of_mem c member)
    by_cases minus : c = chr '-'
    · rw [List.cons_append, if_pos (by simp [minus]), List.tail_cons,
        strtoDigits_eq low high agrees true tail]
      have stop : 0 + (text.length - (c :: rest).length) + 1 = text.length - rest.length := by
        rw [List.length_cons] at shorter ⊢
        omega
      rw [stop]
      simp [minus]
    · rw [List.cons_append, if_neg (by simp [minus]), ← List.cons_append,
        strtoDigits_eq low high agrees false clean']
      simp [minus]

end Scan

section Answer

variable {fits : Bool → Nat → Prop} {limit : Bool → BitVec 32} {wrap : Nat → Int} {base : Nat}
variable {input : StrtoInput}

/-- The answer is right if the drops tell what does not fit. -/
theorem strtoAnswer_right_iff :
    input.Right base fits limit (strtoAnswer limit wrap base input) ↔
      input.run = [] ∨ (fits input.negative (input.magnitude base) ↔ ¬ input.Drops base wrap) := by
  unfold strtoAnswer
  by_cases none_ : input.run = []
  · rw [if_pos none_]
    exact iff_of_true ⟨fun _ => ⟨rfl, rfl⟩, fun some_ => absurd none_ some_,
      fun some_ => absurd none_ some_⟩ (.inl none_)
  rw [if_neg none_, or_iff_right none_]
  by_cases drops : input.Drops base wrap
  · rw [if_pos drops]
    constructor
    · intro right
      refine iff_of_false (fun fit => ?_) (not_not_intro drops)
      have ret : (-34 : Int) = 0 := congrArg StrtoResult.ret (right.value none_ fit)
      exact absurd ret (by decide)
    · intro same
      have unfit : ¬ fits input.negative (input.magnitude base) := fun fit => same.mp fit drops
      exact ⟨fun none => absurd none none_, fun _ fit => absurd fit unfit, fun _ _ => ⟨rfl, rfl⟩⟩
  · rw [if_neg drops]
    constructor
    · intro right
      refine iff_of_true ?_ drops
      by_contra unfit
      have ret : (0 : Int) = -34 := (right.range none_ unfit).1
      exact absurd ret (by decide)
    · intro same
      exact ⟨fun none => absurd none none_, fun _ _ => rfl,
        fun _ unfit => absurd (same.mpr drops) unfit⟩

theorem StrtoInput.prefixValue_le (low : 0 < base) (j : Nat) :
    input.prefixValue base j ≤ input.magnitude base := by
  have grown : input.prefixValue base j ≤ _ :=
    runValue_take_le low j (Nat.le_max_left j input.run.length)
  rwa [List.take_of_length_le (Nat.le_max_right j input.run.length)] at grown

/-- While the values are seen as they are, no digit makes them less. -/
theorem StrtoInput.not_drops (low : 0 < base)
    (whole : ∀ value ≤ input.magnitude base, wrap value = value) : ¬ input.Drops base wrap := by
  rintro ⟨j, -, drops⟩
  rw [whole _ (prefixValue_le low j), whole _ (prefixValue_le low (j + 1))] at drops
  have grown : input.prefixValue base j ≤ input.prefixValue base (j + 1) :=
    runValue_take_le low j (Nat.le_succ j)
  omega

/-- The last digit of 2 ^ 31 makes the value negative. -/
theorem StrtoInput.drops_of_least (low : 2 ≤ base) (least : input.magnitude base = 2 ^ 31) :
    input.Drops base fun value => Int.bmod value (2 ^ 32) := by
  have some_ : input.run.length ≠ 0 := by
    intro none
    unfold magnitude at least
    rw [List.length_eq_zero_iff.mp none] at least
    cases least
  have last : input.run.length - 1 < input.run.length := by omega
  have step : runValue base _ = _ := runValue_take_succ last
  have whole : input.run.length - 1 + 1 = input.run.length := by omega
  rw [whole, List.take_length] at step
  change input.magnitude base = input.prefixValue base (input.run.length - 1) * base + _ at step
  have twice : input.prefixValue base (input.run.length - 1) * 2 ≤
      input.prefixValue base (input.run.length - 1) * base := Nat.mul_le_mul_left _ low
  refine ⟨input.run.length - 1, last, ?_⟩
  have full : input.prefixValue base (input.run.length - 1 + 1) = 2 ^ 31 := by
    unfold prefixValue
    rw [whole, List.take_length]
    exact least
  have seen : Int.bmod (input.prefixValue base (input.run.length - 1)) (2 ^ 32) =
      input.prefixValue base (input.run.length - 1) := Int.bmod_eq_of_le (by omega) (by omega)
  dsimp only
  rw [full, seen]
  exact Int.lt_of_lt_of_le (by decide) (Int.natCast_nonneg _)

end Answer

theorem unsignedLess_iff (a b : Nat) :
    decide (BitVec.ofNat 32 a < BitVec.ofNat 32 b) = true ↔
      ((a % 2 ^ 32 : Nat) : Int) < ((b % 2 ^ 32 : Nat) : Int) := by
  rw [decide_eq_true_iff, BitVec.lt_def, BitVec.toNat_ofNat, BitVec.toNat_ofNat, Int.ofNat_lt]

theorem signedLess_iff (a b : Nat) :
    BitVec.slt (BitVec.ofNat 32 a) (BitVec.ofNat 32 b) = true ↔
      Int.bmod a (2 ^ 32) < Int.bmod b (2 ^ 32) := by
  rw [BitVec.slt_iff_toInt_lt, BitVec.toInt_ofNat', BitVec.toInt_ofNat']

def fitsUnsigned (_ : Bool) (magnitude : Nat) : Prop := magnitude < 2 ^ 32

def fitsSigned (negative : Bool) (magnitude : Nat) : Prop :=
  if negative then magnitude ≤ 2 ^ 31 else magnitude < 2 ^ 31

section Right

variable {base : Nat} {text behind : List Byte} {input : StrtoInput}

theorem StrtoInput.magnitude_nil (none : input.run = []) : input.magnitude base = 0 := by
  unfold magnitude
  rw [none]
  rfl

theorem strto_answered {fits : Bool → Nat → Prop} {limit : Bool → BitVec 32} {wrap : Nat → Int} :
    (∃ result, Except.ok (strtoAnswer limit wrap base input) = (.ok result : Exec StrtoResult) ∧
        input.Right base fits limit result) ↔
      input.run = [] ∨ (fits input.negative (input.magnitude base) ↔ ¬ input.Drops base wrap) := by
  rw [← @strtoAnswer_right_iff fits limit wrap base input]
  constructor
  · rintro ⟨result, ⟨⟩, right⟩
    exact right
  · exact fun right => ⟨_, rfl, right⟩

theorem strtoul_right (low : 2 ≤ base) (high : base ≤ 32) (clean : 0 ∉ text)
    (same : strtoInput base text = input) :
    (∃ result, strtoul (text ++ 0 :: behind) base = .ok result ∧
        input.Right base fitsUnsigned (fun _ => BitVec.allOnes 32) result) ↔
      input.magnitude base < 2 ^ 32 ∨
        input.Drops base fun value => ((value % 2 ^ 32 : Nat) : Int) := by
  unfold strtoul
  rw [strto_eq low high unsignedLess_iff clean, same, strto_answered]
  by_cases fit : input.magnitude base < 2 ^ 32
  · have kept : ¬ input.Drops base fun value => ((value % 2 ^ 32 : Nat) : Int) :=
      StrtoInput.not_drops (by omega) fun value below =>
        congrArg Int.ofNat (Nat.mod_eq_of_lt (Nat.lt_of_le_of_lt below fit))
    exact iff_of_true (.inr (iff_of_true fit kept)) (.inl fit)
  · have some_ : input.run ≠ [] := by
      intro none
      apply fit
      rw [StrtoInput.magnitude_nil none]
      decide
    have unfit : ¬ fitsUnsigned input.negative (input.magnitude base) := fit
    rw [or_iff_right some_, or_iff_right fit, iff_false_left unfit, not_not]

theorem strtol_right (low : 2 ≤ base) (high : base ≤ 32) (clean : 0 ∉ text)
    (same : strtoInput base text = input) :
    (∃ result, strtol (text ++ 0 :: behind) base = .ok result ∧
        input.Right base fitsSigned
          (fun neg => if neg then BitVec.intMin 32 else BitVec.intMax 32) result) ↔
      input.magnitude base < 2 ^ 31 ∨
        ¬ (input.negative ∧ input.magnitude base = 2 ^ 31) ∧
          input.Drops base fun value => Int.bmod value (2 ^ 32) := by
  unfold strtol
  rw [strto_eq low high signedLess_iff clean, same, strto_answered]
  by_cases fit : input.magnitude base < 2 ^ 31
  · have kept : ¬ input.Drops base fun value => Int.bmod value (2 ^ 32) :=
      StrtoInput.not_drops (by omega) fun value below =>
        Int.bmod_eq_of_le (by omega) (by omega)
    have fits : fitsSigned input.negative (input.magnitude base) := by
      unfold fitsSigned
      split
      · exact Nat.le_of_lt fit
      · exact fit
    exact iff_of_true (.inr (iff_of_true fits kept)) (.inl fit)
  have some_ : input.run ≠ [] := by
    intro none
    apply fit
    rw [StrtoInput.magnitude_nil none]
    decide
  rw [or_iff_right some_, or_iff_right fit]
  by_cases least : input.negative ∧ input.magnitude base = 2 ^ 31
  · have fits : fitsSigned input.negative (input.magnitude base) := by
      unfold fitsSigned
      rw [if_pos least.1]
      exact Nat.le_of_eq least.2
    have drops := StrtoInput.drops_of_least low least.2
    exact iff_of_false (fun right => right.mp fits drops) (fun right => right.1 least)
  · have unfit : ¬ fitsSigned input.negative (input.magnitude base) := by
      unfold fitsSigned
      split
      · rename_i negative
        exact fun below => least ⟨negative, Nat.le_antisymm below (Nat.not_lt.mp fit)⟩
      · exact fit
    rw [iff_false_left unfit, not_not, and_iff_right least]

end Right

/-- What does not fit is seen only where some digit makes the wrapped value less, and `strtol` takes
    its smallest value for an overflow. -/
theorem strto_right_iff (base : Nat) (low : 2 ≤ base) (high : base ≤ 32) (text : List Byte)
    (clean : 0 ∉ text) (behind : List Byte) :
    ((∃ result, strtoul (text ++ 0 :: behind) base = .ok result ∧
        (strtoInput base text).Right base fitsUnsigned (fun _ => BitVec.allOnes 32) result) ↔
      (strtoInput base text).magnitude base < 2 ^ 32 ∨
        (strtoInput base text).Drops base fun value => ((value % 2 ^ 32 : Nat) : Int)) ∧
    ((∃ result, strtol (text ++ 0 :: behind) base = .ok result ∧
        (strtoInput base text).Right base fitsSigned
          (fun neg => if neg then BitVec.intMin 32 else BitVec.intMax 32) result) ↔
      (strtoInput base text).magnitude base < 2 ^ 31 ∨
        ¬ ((strtoInput base text).negative ∧ (strtoInput base text).magnitude base = 2 ^ 31) ∧
          (strtoInput base text).Drops base fun value => Int.bmod value (2 ^ 32)) :=
  ⟨strtoul_right low high clean rfl, strtol_right low high clean rfl⟩

/-- `"-10"` for base 10. -/
theorem strto_right_ten :
    (∃ result, strtoul ([0x2D, 0x31, 0x30] ++ 0 :: []) 10 = .ok result ∧
      (strtoInput 10 [0x2D, 0x31, 0x30]).Right 10 fitsUnsigned (fun _ => BitVec.allOnes 32) result) ∧
    ∃ result, strtol ([0x2D, 0x31, 0x30] ++ 0 :: []) 10 = .ok result ∧
      (strtoInput 10 [0x2D, 0x31, 0x30]).Right 10 fitsSigned
        (fun neg => if neg then BitVec.intMin 32 else BitVec.intMax 32) result :=
  ⟨(strto_right_iff 10 (by decide) (by decide) [0x2D, 0x31, 0x30] (by decide) []).1.mpr
      (.inl (by decide)),
    (strto_right_iff 10 (by decide) (by decide) [0x2D, 0x31, 0x30] (by decide) []).2.mpr
      (.inl (by decide))⟩

/-- `"5000000000"` is 705032704 modulo 2 ^ 32, which is more than the 500000000 before the last
    digit. -/
theorem not_strto_right :
    ¬ ∀ (base : Nat), 2 ≤ base → base ≤ 32 → ∀ (text : List Byte), 0 ∉ text →
      ∀ behind : List Byte,
      (∃ result, strtoul (text ++ 0 :: behind) base = .ok result ∧
        (strtoInput base text).Right base fitsUnsigned (fun _ => BitVec.allOnes 32) result) ∧
      ∃ result, strtol (text ++ 0 :: behind) base = .ok result ∧
        (strtoInput base text).Right base fitsSigned
          (fun neg => if neg then BitVec.intMin 32 else BitVec.intMax 32) result := by
  intro claim
  obtain ⟨result, call, right⟩ :=
    (claim 10 (by decide) (by decide) (0x35 :: List.replicate 9 0x30) (by decide) []).1
  have returned : strtoul ((0x35 :: List.replicate 9 0x30) ++ 0 :: []) 10 = .ok ⟨0, some 10, some 705032704⟩ := by
    decide
  have same := returned.symm.trans call
  cases same
  have unfit : ¬ (strtoInput 10 (0x35 :: List.replicate 9 0x30)).magnitude 10 < 2 ^ 32 := by
    decide
  have ret : (0 : Int) = -34 := (right.range (by decide) unfit).1
  exact absurd ret (by decide)

end Dxgmx
