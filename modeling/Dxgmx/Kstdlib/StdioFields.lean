import Dxgmx.Kstdlib.Numerals
import Dxgmx.Kstdlib.StdioReads
import Dxgmx.Kstdlib.StdioText

open Library

namespace Dxgmx

/-- No length, `l` or `ll`. -/
inductive IntegerLength
  | int | long | longLong
  deriving DecidableEq, Repr

def IntegerLength.bits : IntegerLength → Nat
  | .longLong => 64
  | _ => 32

def IntegerLength.text : IntegerLength → List Byte
  | .int => []
  | .long => [chr 'l']
  | .longLong => [chr 'l', chr 'l']

def IntegerLength.specifier : IntegerLength → PrintfLengthSpecifier
  | .int => .none
  | .long => .l
  | .longLong => .ll

def IntegerLength.vaArg : (length : IntegerLength) → BitVec length.bits → VaArg
  | .int, value => .word value
  | .long, value => .word value
  | .longLong, value => .dword value

inductive IntegerSpecifier
  | d | i | u | x | X
  deriving DecidableEq, Repr

def IntegerSpecifier.char : IntegerSpecifier → Byte
  | .d => chr 'd'
  | .i => chr 'i'
  | .u => chr 'u'
  | .x => chr 'x'
  | .X => chr 'X'

def IntegerSpecifier.signed (spec : IntegerSpecifier) : Bool := spec = .d ∨ spec = .i

def IntegerSpecifier.base : IntegerSpecifier → Nat
  | .x | .X => 16
  | _ => 10

/-- A conversion `%[0][width]{d,i,u,x,X}` with its length. Without a width it is zero. -/
structure IntegerConversion where
  padZero : Bool
  width : Nat
  length : IntegerLength
  spec : IntegerSpecifier

namespace IntegerConversion

variable (conv : IntegerConversion)

def flagText : List Byte := if conv.padZero then [chr '0'] else []

def widthText (width : Nat) : List Byte :=
  (Nat.digits 10 width).reverse.map fun digit : Nat => digitChar digit

/-- The conversion behind its `%`. -/
def format : List Byte :=
  conv.flagText ++ (widthText conv.width ++ (conv.length.text ++ [conv.spec.char]))

variable (arg : BitVec conv.length.bits)

def value : Int := if conv.spec.signed then arg.toInt else arg.toNat

def numeral : List Byte := integerText conv.spec.base (conv.value arg)

/-- What the field has to be. -/
structure RightField (field : List Byte) : Prop where
  length : field.length = max conv.width (conv.numeral arg).length
  padded : ∃ count, field =
    if conv.padZero then
      (if conv.value arg < 0 then [chr '-'] else []) ++ (List.replicate count (chr '0') ++
        numeralText conv.spec.base (conv.value arg).natAbs)
    else List.replicate count (chr ' ') ++ conv.numeral arg
  reads : readInteger conv.spec.base field = some (conv.value arg)

/-- The text before the padding. -/
def printed : List Byte :=
  match conv.length, conv.spec.signed, arg with
  | .int, true, arg => itoa arg 10
  | .long, true, arg => ltoa arg 10
  | .longLong, true, arg => lltoa arg 10
  | .int, false, arg => utoa arg conv.spec.base
  | .long, false, arg => ultoa arg conv.spec.base
  | .longLong, false, arg => ulltoa arg conv.spec.base

def field : List Byte :=
  List.replicate (conv.width - (conv.printed arg).length) (if conv.padZero then chr '0' else chr ' ') ++
    conv.printed arg

end IntegerConversion

section Parse

variable {c : Byte} {fmt : List Byte}

theorem printfFlags_done {flags : PrintfFlags} (other : printfParseFlags c flags = (.done, flags)) :
    printfFlags (c :: fmt) flags = .ok (flags, c :: fmt) := by
  rw [printfFlags, other]

theorem printfWidthDigits_run {digits : List Byte} (all : ∀ d ∈ digits, isdigit d)
    (ends : ¬ isdigit c) (width : BitVec 16) :
    printfWidthDigits (digits ++ c :: fmt) width =
      .ok (digits.foldl (fun width d => width * 10 + (d - chr '0').setWidth 16) width, c :: fmt) := by
  induction digits generalizing width with
  | nil => rw [List.nil_append, printfWidthDigits, if_neg ends]; rfl
  | cons d digits ih =>
    rw [List.cons_append, printfWidthDigits, if_pos (all d List.mem_cons_self),
      ih fun e member => all e (List.mem_cons_of_mem d member)]
    rfl

/-- A character that starts neither a flag nor a width nor a precision. -/
structure PlainChar (c : Byte) : Prop where
  digit : ¬ isdigit c
  star : c ≠ chr '*'
  dot : c ≠ chr '.'
  flag : ∀ flags, printfParseFlags c flags = (.done, flags)

theorem plainChar_length : PlainChar (chr 'l') :=
  ⟨by decide, by decide, by decide, fun _ => rfl⟩

theorem plainChar_specifier (spec : IntegerSpecifier) : PlainChar spec.char := by
  cases spec <;> exact ⟨by decide, by decide, by decide, fun _ => rfl⟩

theorem lengthText_head (length : IntegerLength) (spec : IntegerSpecifier) (rest : List Byte) :
    ∃ c more, length.text ++ (spec.char :: rest) = c :: more ∧ PlainChar c := by
  cases length with
  | int => exact ⟨spec.char, rest, rfl, plainChar_specifier spec⟩
  | long => exact ⟨chr 'l', spec.char :: rest, rfl, plainChar_length⟩
  | longLong => exact ⟨chr 'l', chr 'l' :: spec.char :: rest, rfl, plainChar_length⟩

theorem widthText_digit {width : Nat} {d : Byte} (member : d ∈ IntegerConversion.widthText width) :
    isdigit d := by
  have decimal : ∀ digit < 10, isdigit (digitChar (digit : Nat)) := by decide
  obtain ⟨digit, there, rfl⟩ := List.mem_map.mp member
  exact decimal digit (Nat.digits_lt_base (by decide) (List.mem_reverse.mp there))

theorem widthText_value (width : Nat) :
    (IntegerConversion.widthText width).foldl
      (fun width d => width * 10 + (d - chr '0').setWidth 16) (0 : BitVec 16) =
        BitVec.ofNat 16 width := by
  have decimal : ∀ digit < 10, (digitChar (digit : Nat) - chr '0').setWidth 16 =
      BitVec.ofNat 16 digit := by decide
  have step : ∀ run : List Nat, (∀ digit ∈ run, digit < 10) →
      (run.map fun digit : Nat => digitChar digit).foldl
        (fun width d => width * 10 + (d - chr '0').setWidth 16) (0 : BitVec 16) =
          BitVec.ofNat 16 (runValue 10 run) := by
    intro run small
    induction run using List.reverseRecOn with
    | nil => rfl
    | append_singleton run digit ih =>
      rw [List.map_append, List.foldl_append,
        ih fun digit member => small digit (List.mem_append_left _ member), List.map_singleton,
        List.foldl_cons, List.foldl_nil, decimal digit (small digit List.mem_concat_self),
        runValue_concat, BitVec.ofNat_add, BitVec.ofNat_mul]
      rfl
  unfold IntegerConversion.widthText
  rw [step, runValue_eq_ofDigits, List.reverse_reverse, Nat.ofDigits_digits]
  intro digit member
  exact Nat.digits_lt_base (by decide) (List.mem_reverse.mp member)

theorem widthText_head (width : Nat) :
    ∀ d ∈ (IntegerConversion.widthText width).head?, d ≠ chr '*' ∧
      printfParseFlags d ⟨false⟩ = (.done, ⟨false⟩) ∧
      printfParseFlags d ⟨true⟩ = (.done, ⟨true⟩) := by
  have positive : ∀ digit < 10, digit ≠ 0 → digitChar (digit : Nat) ≠ chr '*' ∧
      printfParseFlags (digitChar (digit : Nat)) ⟨false⟩ = (.done, ⟨false⟩) ∧
      printfParseFlags (digitChar (digit : Nat)) ⟨true⟩ = (.done, ⟨true⟩) := by decide
  intro d starts
  unfold IntegerConversion.widthText at starts
  rw [List.head?_map, List.head?_reverse] at starts
  obtain ⟨digit, last, rfl⟩ := Option.mem_map.mp starts
  have some_ : Nat.digits 10 width ≠ [] := by
    intro none
    rw [none] at last
    cases last
  rw [List.getLast?_eq_getLast_of_ne_nil some_] at last
  cases last
  have nonzero : width ≠ 0 := fun zero => some_ (by rw [zero, Nat.digits_zero])
  exact positive _ (Nat.digits_lt_base (by decide) (List.getLast_mem some_))
    (Nat.getLast_digit_ne_zero 10 nonzero)

theorem printfLength_integer (length : IntegerLength) (spec : IntegerSpecifier) (rest : List Byte) :
    printfLength (length.text ++ (spec.char :: rest)) .none =
      .ok (some length.specifier, spec.char :: rest) := by
  cases length <;> cases spec <;> rfl

end Parse

namespace IntegerConversion

variable (conv : IntegerConversion)

theorem printfFlags_eq (rest : List Byte) :
    printfFlags (conv.flagText ++ (widthText conv.width ++ (conv.length.text ++
        (conv.spec.char :: rest)))) ⟨false⟩ =
      .ok (⟨conv.padZero⟩, widthText conv.width ++ (conv.length.text ++ (conv.spec.char :: rest))) := by
  obtain ⟨c, more, starts, plain⟩ : ∃ c more,
      widthText conv.width ++ (conv.length.text ++ (conv.spec.char :: rest)) = c :: more ∧
        printfParseFlags c ⟨false⟩ = (.done, ⟨false⟩) ∧
        printfParseFlags c ⟨true⟩ = (.done, ⟨true⟩) := by
    have heads := widthText_head conv.width
    cases text : widthText conv.width with
    | nil =>
      obtain ⟨c, more, starts, plain⟩ := lengthText_head conv.length conv.spec rest
      exact ⟨c, more, starts, plain.flag _, plain.flag _⟩
    | cons d digits =>
      rw [text] at heads
      exact ⟨d, _, rfl, (heads d rfl).2⟩
  rw [starts]
  unfold flagText
  cases conv.padZero with
  | false => exact printfFlags_done plain.1
  | true => exact printfFlags_done plain.2

theorem printfWidth_eq (rest : List Byte) (args : List VaArg) :
    printfWidth (widthText conv.width ++ (conv.length.text ++ (conv.spec.char :: rest))) args =
      .ok (BitVec.ofNat 16 conv.width, conv.length.text ++ (conv.spec.char :: rest), args) := by
  obtain ⟨c, more, starts, plain⟩ := lengthText_head conv.length conv.spec rest
  have heads := widthText_head conv.width
  have run := @printfWidthDigits_run c more (widthText conv.width) (fun _ => widthText_digit)
    plain.digit 0
  rw [widthText_value] at run
  rw [starts]
  unfold printfWidth
  cases text : widthText conv.width with
  | nil =>
    rw [text, List.nil_append] at run
    rw [List.nil_append]
    dsimp only
    rw [if_neg plain.star, run]
    rfl
  | cons d rest =>
    rw [text, List.cons_append] at run
    rw [text] at heads
    rw [List.cons_append]
    dsimp only
    rw [if_neg (heads d rfl).1, run]
    rfl

theorem printfPrecision_eq (rest : List Byte) (args : List VaArg) :
    printfPrecision (conv.length.text ++ (conv.spec.char :: rest)) args =
      .ok (-1, conv.length.text ++ (conv.spec.char :: rest), args) := by
  obtain ⟨c, more, starts, plain⟩ := lengthText_head conv.length conv.spec rest
  rw [starts]
  unfold printfPrecision
  dsimp only
  rw [if_neg plain.dot]

variable (arg : BitVec conv.length.bits)

theorem printfSpecifier_eq (args : List VaArg) :
    printfSpecifier conv.spec.char ⟨conv.padZero⟩ (BitVec.ofNat 16 conv.width) (-1)
        conv.length.specifier (conv.length.vaArg arg :: args) =
      .ok (.ofText (printfApplyFlagsAndWidth (conv.printed arg) 21 ⟨conv.padZero⟩
        (BitVec.ofNat 16 conv.width).toNat), args) := by
  obtain ⟨padZero, width, length, spec⟩ := conv
  cases length <;> cases spec <;> rfl

theorem printfApplyFlagsAndWidth_eq (narrow : conv.width ≤ 21) :
    printfApplyFlagsAndWidth (conv.printed arg) 21 ⟨conv.padZero⟩ (BitVec.ofNat 16 conv.width).toNat =
      conv.field arg := by
  have width : (BitVec.ofNat 16 conv.width).toNat = conv.width := by
    rw [BitVec.toNat_ofNat]
    omega
  unfold printfApplyFlagsAndWidth field
  rw [width, if_neg (Nat.not_lt.mpr narrow)]
  dsimp only
  by_cases shorter : (conv.printed arg).length < conv.width
  · rw [if_pos shorter, printfPad_eq]
  · rw [if_neg shorter, Nat.sub_eq_zero_of_le (Nat.not_lt.mp shorter)]
    rfl

theorem printfConversion_eq (narrow : conv.width ≤ 21) (rest : List Byte) (args : List VaArg) :
    printfConversion (conv.format ++ rest) (conv.length.vaArg arg :: args) =
      .ok (some (.ofText (conv.field arg)), rest, args) := by
  have parts : conv.format ++ rest = conv.flagText ++ (widthText conv.width ++ (conv.length.text ++
      (conv.spec.char :: rest))) := by simp [format]
  rw [parts, printfConversion_specifier (printfFlags_eq conv rest)
    (printfWidth_eq conv rest _) (printfPrecision_eq conv rest _)
    (printfLength_integer _ _ _), printfSpecifier_eq, printfApplyFlagsAndWidth_eq conv arg narrow]
  rfl

theorem base_bounds : 1 < conv.spec.base ∧ conv.spec.base ≤ 36 := by
  cases conv.spec <;> decide

theorem printed_eq (notLeast : conv.value arg ≠ -2 ^ 63) : conv.printed arg = conv.numeral arg := by
  obtain ⟨padZero, width, length, spec⟩ := conv
  have decimal : (1 : Nat) < 10 := by decide
  have hex : (1 : Nat) < 16 := by decide
  have unsigned : ∀ base n : Nat, integerText base (n : Int) = numeralText base n := fun base n =>
    if_neg (Int.not_lt.mpr (Int.natCast_nonneg n))
  cases length with
  | int | long =>
    cases spec with
    | d | i => exact ltoa_eq decimal arg
    | u => exact (ultoa_eq decimal arg).trans (unsigned _ _).symm
    | x | X => exact (ultoa_eq hex arg).trans (unsigned _ _).symm
  | longLong =>
    cases spec with
    | d | i => exact lltoa_eq decimal notLeast
    | u => exact (ulltoa_eq decimal arg).trans (unsigned _ _).symm
    | x | X => exact (ulltoa_eq hex arg).trans (unsigned _ _).symm

/-- The digits of the smallest value are printed as those of a negative number. -/
theorem printed_least (least : conv.value arg = -2 ^ 63) :
    conv.printed arg = lltoa (BitVec.intMin 64) 10 ∧ conv.spec.base = 10 := by
  obtain ⟨padZero, width, length, spec⟩ := conv
  have smallest : ∀ {w : Nat} (n : BitVec w), w = 32 → n.toInt ≠ -2 ^ 63 := by
    intro w n size same
    subst size
    have lower := BitVec.le_two_mul_toInt (x := n)
    omega
  have same : ∀ n : BitVec 64, n.toInt = -2 ^ 63 → n = BitVec.intMin 64 := fun n equal =>
    BitVec.eq_of_toInt_eq (equal.trans (by decide))
  have nonneg : ∀ n : Nat, (n : Int) ≠ -2 ^ 63 := fun n => by omega
  cases length with
  | longLong =>
    cases spec with
    | d | i => exact ⟨congrArg (lltoa · 10) (same arg least), rfl⟩
    | u | x | X => exact absurd least (nonneg _)
  | int | long =>
    cases spec with
    | d | i => exact absurd least (smallest arg rfl)
    | u | x | X => exact absurd least (nonneg _)

theorem printed_length : (conv.printed arg).length = (conv.numeral arg).length := by
  by_cases least : conv.value arg = -2 ^ 63
  · obtain ⟨text, base⟩ := conv.printed_least arg least
    unfold numeral
    rw [text, base, least]
    decide
  · rw [conv.printed_eq arg least]

theorem printed_clean : 0 ∉ conv.printed arg := by
  by_cases least : conv.value arg = -2 ^ 63
  · rw [(conv.printed_least arg least).1]
    decide
  · rw [conv.printed_eq arg least]
    exact integerText_clean conv.base_bounds.1 conv.base_bounds.2 _

theorem printed_ne_nil : conv.printed arg ≠ [] := by
  rw [← List.length_pos_iff, conv.printed_length arg]
  unfold numeral integerText
  have some_ := List.length_pos_iff.mpr
    (numeralText_ne_nil conv.spec.base (conv.value arg).natAbs)
  split
  · exact Nat.succ_pos _
  · exact some_

theorem field_clean : 0 ∉ conv.field arg := by
  unfold field
  rw [List.mem_append, not_or]
  refine ⟨fun zero => ?_, conv.printed_clean arg⟩
  have same := List.eq_of_mem_replicate zero
  revert same
  split <;> decide

theorem field_length : (conv.field arg).length = max conv.width (conv.numeral arg).length := by
  unfold field
  rw [List.length_append, List.length_replicate, conv.printed_length arg]
  omega

/-- The argument is not the smallest value of 64 bits, and a negative one is not padded with zeros. -/
structure Exact : Prop where
  notLeast : conv.value arg ≠ -2 ^ 63
  sign : conv.padZero → conv.value arg < 0 → conv.width ≤ (conv.numeral arg).length

theorem field_eq (exact_ : conv.Exact arg) :
    ∃ blanks zeros, conv.field arg =
      List.replicate blanks (chr ' ') ++ ((if conv.value arg < 0 then [chr '-'] else []) ++
        (List.replicate zeros (chr '0') ++ numeralText conv.spec.base (conv.value arg).natAbs)) ∧
      (conv.padZero → blanks = 0) ∧ (¬ conv.padZero → zeros = 0) := by
  have parts : conv.numeral arg = (if conv.value arg < 0 then [chr '-'] else []) ++
      numeralText conv.spec.base (conv.value arg).natAbs := by
    unfold numeral integerText
    split <;> rfl
  unfold field
  rw [conv.printed_eq arg exact_.notLeast]
  cases pad : conv.padZero with
  | false =>
    refine ⟨conv.width - (conv.numeral arg).length, 0, ?_, nofun, fun _ => rfl⟩
    rw [parts]
    rfl
  | true =>
    refine ⟨0, conv.width - (conv.numeral arg).length, ?_, fun _ => rfl, fun absent => absurd rfl absent⟩
    by_cases negative : conv.value arg < 0
    · rw [Nat.sub_eq_zero_of_le (exact_.sign pad negative), parts]
      rfl
    · rw [parts, if_neg negative]
      rfl

theorem rightField_of_exact (exact_ : conv.Exact arg) : conv.RightField arg (conv.field arg) := by
  obtain ⟨blanks, zeros, same, noBlanks, noZeros⟩ := conv.field_eq arg exact_
  refine ⟨conv.field_length arg, ?_, ?_⟩
  · rw [same]
    cases pad : conv.padZero with
    | true =>
      rw [noBlanks pad]
      exact ⟨zeros, rfl⟩
    | false =>
      rw [noZeros (by simp [pad])]
      refine ⟨blanks, ?_⟩
      unfold numeral integerText
      rw [if_neg Bool.false_ne_true]
      by_cases negative : conv.value arg < 0
      · rw [if_pos negative, if_pos negative]
        rfl
      · rw [if_neg negative, if_neg negative]
        rfl
  · rw [same]
    exact readInteger_padded conv.base_bounds.1 conv.base_bounds.2 blanks zeros _

theorem exact_of_rightField (right : conv.RightField arg (conv.field arg)) : conv.Exact arg := by
  obtain ⟨count, padded⟩ := right.padded
  have notLeast : conv.value arg ≠ -2 ^ 63 := by
    intro least
    obtain ⟨text, base⟩ := conv.printed_least arg least
    have printed : lltoa (BitVec.intMin 64) 10 <:+ conv.field arg := by
      rw [← text]
      exact List.suffix_append _ _
    have digits : numeralText 10 (2 ^ 63) <:+ conv.field arg := by
      rw [padded, numeral, integerText, least, base]
      split
      · exact (List.suffix_append _ _).trans (List.suffix_append _ _)
      · exact (List.suffix_cons _ _).trans (List.suffix_append _ _)
    have inside := List.suffix_of_suffix_length_le digits printed (by decide)
    revert inside
    decide
  refine ⟨notLeast, fun pad negative => ?_⟩
  by_contra short
  have wide : conv.width - (conv.printed arg).length =
      conv.width - (conv.printed arg).length - 1 + 1 := by
    rw [conv.printed_length arg]
    omega
  rw [if_pos pad, if_pos negative, field, if_pos pad, wide, List.replicate_succ] at padded
  exact absurd (List.cons.inj padded).1 (by decide)

end IntegerConversion

theorem prints_text {n fuel : Nat} {text total fmt before : List Byte} {args : List VaArg}
    (small : n < 2 ^ 32) (literal : ∀ c ∈ before, c ≠ 0 ∧ c ≠ chr '%') (ended : 0 ∈ fmt)
    (room : text.length + before.length ≤ n - 1)
    (rest : Prints n fuel fmt args (text ++ before) total) :
    Prints n (fuel + before.length) (before ++ fmt) args text total := by
  induction before generalizing text with
  | nil =>
    rw [List.append_nil] at rest
    exact rest
  | cons c before ih =>
    obtain ⟨terminator, plain⟩ := literal c List.mem_cons_self
    rw [List.length_cons] at room
    rw [List.append_cons] at rest
    apply prints_literal small terminator plain (List.mem_append_right before ended) (by omega)
    apply ih (fun d member => literal d (List.mem_cons_of_mem c member)) _ rest
    rw [List.length_append, List.length_singleton]
    omega

theorem prints_integer {n fuel : Nat} {text total fmt : List Byte} {args : List VaArg}
    (small : n < 2 ^ 32) (conv : IntegerConversion) (narrow : conv.width ≤ 21)
    (arg : BitVec conv.length.bits) (room : text.length + (conv.field arg).length ≤ n - 1)
    (rest : Prints n fuel fmt args (text ++ conv.field arg) total) :
    Prints n (fuel + 1) (chr '%' :: (conv.format ++ fmt)) (conv.length.vaArg arg :: args) text total := by
  have some_ : conv.field arg ≠ [] := by
    unfold IntegerConversion.field
    rw [ne_eq, List.append_eq_nil_iff, not_and]
    exact fun _ => conv.printed_ne_nil arg
  exact prints_conversion small (conv.field_clean arg) (conv.printfConversion_eq arg narrow fmt args)
    some_ room rest

theorem TextAt.unique {dest : Nat → Byte} {text other : List Byte} (there : TextAt dest text)
    (there' : TextAt dest other) : text = other := by
  have same := there.cstring (Nat.lt_succ_of_le (Nat.le_max_left text.length other.length))
  rw [there'.cstring (Nat.lt_succ_of_le (Nat.le_max_right text.length other.length))] at same
  exact (Except.ok.inj same).symm

theorem prints_integerField {n : Nat} (small : n < 2 ^ 32) (conv : IntegerConversion)
    (narrow : conv.width ≤ 21) (arg : BitVec conv.length.bits) (args : List VaArg)
    {before after : List Byte} (literal : ∀ c ∈ before ++ after, c ≠ 0 ∧ c ≠ chr '%')
    (room : before.length + (conv.field arg).length + after.length ≤ n - 1) :
    Prints n ((before ++ chr '%' :: (conv.format ++ (after ++ [0]))).length + 1)
      (before ++ chr '%' :: (conv.format ++ (after ++ [0]))) (conv.length.vaArg arg :: args) []
      (before ++ (conv.field arg ++ after)) := by
  have ends : Prints n (conv.format.length + 2) [0] args (before ++ (conv.field arg ++ after))
      (before ++ (conv.field arg ++ after)) := prints_end
  have behind : Prints n (conv.format.length + 2 + after.length) (after ++ [0]) args
      (before ++ conv.field arg) (before ++ (conv.field arg ++ after)) := by
    apply prints_text small (fun c member => literal c (List.mem_append_right before member))
      (List.mem_singleton_self 0)
    · rw [List.length_append]
      omega
    · rw [List.append_assoc]
      exact ends
  have there : Prints n (conv.format.length + 2 + after.length + 1)
      (chr '%' :: (conv.format ++ (after ++ [0]))) (conv.length.vaArg arg :: args) before
      (before ++ (conv.field arg ++ after)) :=
    prints_integer small conv narrow arg (by omega) behind
  have ended : 0 ∈ chr '%' :: (conv.format ++ (after ++ [0])) := by simp
  have whole := @prints_text n _ [] _ _ before (conv.length.vaArg arg :: args) small
    (fun c member => literal c (List.mem_append_left after member)) ended
    (by rw [List.length_nil]; omega) there
  have fuel : conv.format.length + 2 + after.length + 1 + before.length =
      (before ++ chr '%' :: (conv.format ++ (after ++ [0]))).length + 1 := by
    simp
    omega
  rwa [fuel] at whole

section Call

variable {dest : Nat → Byte} {n : BitVec 32} {conv : IntegerConversion} {arg : BitVec conv.length.bits}
variable {args : List VaArg} {before after : List Byte}

theorem vsnprintf_field (narrow : conv.width ≤ 21)
    (literal : ∀ c ∈ before ++ after, c ≠ 0 ∧ c ≠ chr '%')
    (room : before.length + max conv.width (conv.numeral arg).length + after.length < n.toNat) :
    ∃ ret dest', vsnprintf dest n (before ++ chr '%' :: (conv.format ++ (after ++ [0])))
        (conv.length.vaArg arg :: args) = .ok (ret, dest') ∧
      TextAt dest' (before ++ (conv.field arg ++ after)) := by
  have length := conv.field_length arg
  obtain ⟨dest', printed, there⟩ :=
    prints_integerField n.isLt conv narrow arg args literal (by omega)
      (Function.update dest 0 0) (textAt_empty dest)
  rw [List.length_nil] at printed
  refine ⟨(BitVec.ofNat 32 (before ++ (conv.field arg ++ after)).length).toInt, dest', ?_, there⟩
  unfold vsnprintf
  rw [printed]
  rfl

theorem field_unique {ret : Int} {dest' : Nat → Byte} {field : List Byte} (narrow : conv.width ≤ 21)
    (literal : ∀ c ∈ before ++ after, c ≠ 0 ∧ c ≠ chr '%')
    (room : before.length + max conv.width (conv.numeral arg).length + after.length < n.toNat)
    (call : vsnprintf dest n (before ++ chr '%' :: (conv.format ++ (after ++ [0])))
      (conv.length.vaArg arg :: args) = .ok (ret, dest'))
    (there : TextAt dest' (before ++ (field ++ after))) : field = conv.field arg := by
  obtain ⟨ret₁, dest₁, call₁, there₁⟩ :=
    @vsnprintf_field dest n conv arg args before after narrow literal room
  rw [call₁] at call
  cases call
  exact List.append_cancel_right (List.append_cancel_left (there.unique there₁))

end Call

/-- The conversion stands between literal text, in a buffer with room for all of it. -/
theorem vsnprintf_field_iff (dest : Nat → Byte) (n : BitVec 32) (conv : IntegerConversion)
    (narrow : conv.width ≤ 21) (arg : BitVec conv.length.bits) (args : List VaArg)
    (before after : List Byte) (literal : ∀ c ∈ before ++ after, c ≠ 0 ∧ c ≠ chr '%')
    (room : before.length + max conv.width (conv.numeral arg).length + after.length < n.toNat) :
    (∃ ret dest' field,
        vsnprintf dest n (before ++ chr '%' :: (conv.format ++ (after ++ [0])))
          (conv.length.vaArg arg :: args) = .ok (ret, dest') ∧
        TextAt dest' (before ++ (field ++ after)) ∧ conv.RightField arg field) ↔
      conv.Exact arg := by
  constructor
  · rintro ⟨ret, dest', field, call, there, right⟩
    rw [field_unique narrow literal room call there] at right
    exact conv.exact_of_rightField arg right
  · intro exact_
    obtain ⟨ret, dest', call, there⟩ := vsnprintf_field narrow literal room
    exact ⟨ret, dest', conv.field arg, call, there, conv.rightField_of_exact arg exact_⟩

/-- `%06d` for 42. -/
theorem vsnprintf_field_zeros :
    ∃ ret dest' field,
      vsnprintf (fun _ => 0xFF) 16 [0x25, 0x30, 0x36, 0x64, 0] [.word 42] = .ok (ret, dest') ∧
        TextAt dest' ([] ++ (field ++ [])) ∧
        IntegerConversion.RightField ⟨true, 6, .int, .d⟩ 42 field :=
  (vsnprintf_field_iff (fun _ => 0xFF) 16 ⟨true, 6, .int, .d⟩ (by decide) 42 [] [] [] nofun
    (by decide)).mpr ⟨by decide, fun _ negative => absurd negative (by decide)⟩

/-- `%05d` prints -42 as `00-42`. -/
theorem not_vsnprintf_field :
    ¬ ∀ (dest : Nat → Byte) (n : BitVec 32) (conv : IntegerConversion), conv.width ≤ 21 →
      ∀ (arg : BitVec conv.length.bits) (args : List VaArg) (before after : List Byte),
      (∀ c ∈ before ++ after, c ≠ 0 ∧ c ≠ chr '%') →
      before.length + max conv.width (conv.numeral arg).length + after.length < n.toNat →
      ∃ ret dest' field,
        vsnprintf dest n (before ++ chr '%' :: (conv.format ++ (after ++ [0])))
          (conv.length.vaArg arg :: args) = .ok (ret, dest') ∧
        TextAt dest' (before ++ (field ++ after)) ∧ conv.RightField arg field := by
  intro claim
  have room : ([] : List Byte).length +
      max 5 (IntegerConversion.numeral ⟨true, 5, .int, .d⟩ (-42)).length + 0 <
        (16 : BitVec 32).toNat := by decide
  have literal : ∀ c ∈ ([] : List Byte) ++ [], c ≠ 0 ∧ c ≠ chr '%' := by decide
  obtain ⟨ret, dest', field, call, there, right⟩ :=
    claim (fun _ => 0xFF) 16 ⟨true, 5, .int, .d⟩ (by decide) (-42) [] [] [] literal room
  rw [field_unique (by decide) literal room call there] at right
  have narrow := (IntegerConversion.exact_of_rightField _ _ right).sign rfl (by decide)
  revert narrow
  decide

end Dxgmx
