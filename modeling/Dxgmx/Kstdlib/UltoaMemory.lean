import Dxgmx.Kstdlib.StdioText
import Dxgmx.Kstdlib.Strtoul

open Library

namespace Dxgmx

/-- The loop over the digits. `tmpbuff` are the bytes that are filled so far, of its 21. -/
def ulltoaScratch (base : Int) : (fuel : Nat) → Int → List Byte → Exec (List Byte)
  | 0, _, _ => .error .fuel
  | fuel + 1, n, tmpbuff =>
    if n = 0 then .ok tmpbuff
    else if 21 ≤ tmpbuff.length then .error .fault
    else ulltoaScratch base fuel (n.tdiv base) (tmpbuff ++ [digitChar (n.tmod base)])

/-- The loop that reverses the digits into the string. -/
def ulltoaReverse (tmpbuff : List Byte) (revstart : Nat) :
    (digits : Nat) → (Nat → Byte) → Exec (Nat → Byte)
  | 0, str => .ok (Function.update str revstart 0)
  | digits + 1, str =>
    match tmpbuff[digits]? with
    | none => .error .fault
    | some c => ulltoaReverse tmpbuff revstart digits (Function.update str (revstart - (digits + 1)) c)

/-- `ulltoa` with the buffers it writes. -/
def ulltoaIn (n : BitVec 64) (str : Nat → Byte) (base : Int) : Exec (Nat → Byte) :=
  if n = 0 then .ok (Function.update (Function.update str 0 (chr '0')) 1 0)
  else do
    let tmpbuff ← ulltoaScratch base 65 n.toNat []
    ulltoaReverse tmpbuff tmpbuff.length tmpbuff.length str

def ultoaIn (n : BitVec 32) (str : Nat → Byte) (base : Int) : Exec (Nat → Byte) :=
  ulltoaIn (n.setWidth 64) str base

section Memory

variable {base n : Nat}

theorem ulltoaScratch_eq (large : 1 < base) (rounds : Nat) (small : n < 2 ^ rounds)
    {tmpbuff : List Byte} (inside : tmpbuff.length ≤ 21) :
    ulltoaScratch base (rounds + 1) n tmpbuff =
      if tmpbuff.length + (Nat.digits base n).length ≤ 21 then
        .ok (tmpbuff ++ (Nat.digits base n).map fun digit : Nat => digitChar digit)
      else .error .fault := by
  induction rounds generalizing n tmpbuff with
  | zero =>
    have inside' : tmpbuff.length + 0 ≤ 21 := inside
    rw [Nat.lt_one_iff.mp small, Nat.digits_zero, List.length_nil, if_pos inside', List.map_nil,
      List.append_nil]
    rfl
  | succ rounds ih =>
    unfold ulltoaScratch
    by_cases zero : n = 0
    · rw [if_pos (by omega), zero, Nat.digits_zero, List.length_nil, Nat.add_zero,
      if_pos inside, List.map_nil, List.append_nil]
    have quotient : (n : Int).tdiv base = (n / base : Nat) := rfl
    have remainder : (n : Int).tmod base = (n % base : Nat) := rfl
    have smaller := quotient_lt large small
    rw [if_neg (by omega), quotient, remainder, Nat.digits_def' large (Nat.pos_of_ne_zero zero),
      List.length_cons]
    by_cases full : 21 ≤ tmpbuff.length
    · rw [if_pos full, if_neg (by omega)]
    · have longer : (tmpbuff ++ [digitChar ((n % base : Nat) : Int)]).length ≤ 21 := by
        rw [List.length_append, List.length_singleton]
        omega
      rw [if_neg full, ih smaller longer, List.length_append, List.length_singleton, Nat.add_assoc,
        Nat.add_comm 1, List.map_cons, List.append_assoc, List.singleton_append]

theorem ulltoaReverse_eq {tmpbuff : List Byte} {revstart : Nat} {digits : Nat}
    (filled : digits ≤ tmpbuff.length) (room : digits ≤ revstart) (str : Nat → Byte) :
    ulltoaReverse tmpbuff revstart digits str =
      .ok (storeBytes str (revstart - digits) ((tmpbuff.take digits).reverse ++ [0])) := by
  induction digits generalizing str with
  | zero => rfl
  | succ digits ih =>
    have next : revstart - (digits + 1) + 1 = revstart - digits := by omega
    rw [ulltoaReverse, List.getElem?_eq_getElem filled]
    dsimp only
    rw [ih (Nat.le_of_succ_le filled) (Nat.le_of_succ_le room),
      List.take_succ_eq_append_getElem filled, List.reverse_append, List.reverse_singleton,
      List.append_assoc, List.singleton_append, storeBytes, next]

theorem storeBytes_range (dest : Nat → Byte) (bytes : List Byte) :
    (List.range bytes.length).map (storeBytes dest 0 bytes) = bytes := by
  apply List.ext_getElem
  · rw [List.length_map, List.length_range]
  · intro i left right
    have stored := storeBytes_inside dest 0 bytes i right
    rw [Nat.zero_add] at stored
    rw [List.getElem_map, List.getElem_range, stored]

theorem ultoaIn_eq (large : 1 < base) (n : BitVec 32) (str : Nat → Byte) :
    ultoaIn n str base =
      if (numeral base n.toNat).length ≤ 21 then
        .ok (storeBytes str 0 (numeralText base n.toNat ++ [0]))
      else .error .fault := by
  unfold ultoaIn ulltoaIn
  by_cases zero : n = 0
  · subst zero
    rfl
  have positive : 0 < n.toNat := Nat.pos_of_ne_zero fun none => zero (BitVec.eq_of_toNat_eq none)
  have wide : (n.setWidth 64).toNat = n.toNat := by
    rw [BitVec.toNat_setWidth, Nat.mod_eq_of_lt (by omega)]
  have nonzero : n.setWidth 64 ≠ 0 := by
    intro same
    rw [same] at wide
    exact Nat.ne_of_lt positive wide
  have scratch := @ulltoaScratch_eq base n.toNat large 64 (by omega) [] (Nat.zero_le _)
  rw [if_neg nonzero, wide, scratch, List.length_nil, Nat.zero_add, List.nil_append, numeralText,
    numeral_of_pos positive, List.length_reverse]
  by_cases fits : (Nat.digits base n.toNat).length ≤ 21
  · rw [if_pos fits, if_pos fits, Exec.ok_bind, ulltoaReverse_eq (Nat.le_refl _) (Nat.le_refl _),
      List.take_length, Nat.sub_self, List.map_reverse]
  · rw [if_neg fits, if_neg fits]
    rfl

theorem numeralText_length (base n : Nat) : (numeralText base n).length = (numeral base n).length :=
  List.length_map _

theorem textAt_store (str : Nat → Byte) {text : List Byte} (clean : 0 ∉ text) :
    TextAt (storeBytes str 0 (text ++ [0])) text := by
  have bytes := storeBytes_range str (text ++ [0])
  rw [List.length_append, List.length_singleton] at bytes
  exact ⟨bytes, clean⟩

theorem strtoInput_numeral (large : 1 < base) (high : base ≤ 36) (n : Nat) :
    strtoInput base (numeralText base n) =
      ⟨false, numeral base n, (numeral base n).length⟩ := by
  have plain : ∀ digit < 36, Ctype.isspace (digitChar (digit : Nat)) = false := by decide
  have run := @digitRun_map Byte (digitOf base) (fun digit => digitChar digit) (numeral base n) []
    (fun digit member => digitOf_digitChar high (numeral_digit large member)) nofun
  rw [List.append_nil] at run
  unfold strtoInput
  cases text : numeral base n with
  | nil => exact absurd text (numeral_ne_nil base n)
  | cons digit rest =>
    have small : digit < 36 :=
      Nat.lt_of_lt_of_le (numeral_digit large (text ▸ List.mem_cons_self)) high
    have space := plain digit small
    have minus := (digitChar_ne small).2.2
    rw [text] at run
    rw [numeralText, text, List.map_cons, List.dropWhile_cons_of_neg (by simp [space])]
    have positive : (decide ((digitChar (digit : Nat) :: rest.map fun digit : Nat =>
        digitChar digit).head? = some (chr '-'))) = false := by
      exact decide_eq_false fun same => minus (Option.some.inj same)
    rw [List.map_cons] at run
    dsimp only
    rw [positive, if_neg Bool.false_ne_true, Nat.sub_self, Nat.zero_add, run]

theorem strtoul_numeral (low : 2 ≤ base) (high : base ≤ 32) (small : n < 2 ^ 32)
    (behind : List Byte) :
    strtoul (numeralText base n ++ 0 :: behind) base =
      .ok ⟨0, some (numeral base n).length, some (BitVec.ofNat 32 n)⟩ := by
  have whole : StrtoInput.magnitude base ⟨false, numeral base n, (numeral base n).length⟩ = n :=
    runValue_numeral base n
  have kept : ¬ StrtoInput.Drops base ⟨false, numeral base n, (numeral base n).length⟩
      fun value => ((value % 2 ^ 32 : Nat) : Int) := by
    refine StrtoInput.not_drops (by omega) fun value below => ?_
    rw [whole] at below
    exact congrArg Int.ofNat (Nat.mod_eq_of_lt (Nat.lt_of_le_of_lt below small))
  have value : StrtoInput.value base ⟨false, numeral base n, (numeral base n).length⟩ = n := by
    unfold StrtoInput.value
    rw [if_neg Bool.false_ne_true, whole]
  unfold strtoul
  rw [strto_eq low high unsignedLess_iff (numeralText_clean low (Nat.le_trans high (by decide)) n),
    strtoInput_numeral low (Nat.le_trans high (by decide)), strtoAnswer,
    if_neg (numeral_ne_nil base n), if_neg kept, value, BitVec.ofInt_natCast]

end Memory

/-- The scratch buffer is too small for 22 digits, which only base 2 has. -/
theorem ultoa_roundTrip_iff (n : BitVec 32) (base : Nat) (low : 2 ≤ base) (high : base ≤ 32)
    (str : Nat → Byte) :
    (∃ str', ultoaIn n str base = .ok str' ∧ TextAt str' (numeralText base n.toNat) ∧
        (∀ m, (numeral base n.toNat).length + 1 ≤ m → str' m = str m) ∧
        ∀ behind, strtoul ((List.range ((numeral base n.toNat).length + 1)).map str' ++ behind) base =
          .ok ⟨0, some (numeral base n.toNat).length, some n⟩) ↔
      n.toNat < base ^ 21 := by
  rw [← numeral_length_le_iff low (by decide), ultoaIn_eq low]
  constructor
  · rintro ⟨str', call, -⟩
    by_contra long
    rw [if_neg long] at call
    cases call
  · intro fits
    have clean := numeralText_clean low (Nat.le_trans high (by decide)) n.toNat
    have there := textAt_store str clean
    refine ⟨_, if_pos fits, there, fun m after => ?_, fun behind => ?_⟩
    · apply storeBytes_after
      rw [List.length_append, numeralText_length]
      exact Nat.le_trans (Nat.le_of_eq (Nat.zero_add _)) after
    · rw [← numeralText_length, there.bytes, List.append_assoc, List.singleton_append,
        strtoul_numeral low high n.isLt, numeralText_length, BitVec.ofNat_toNat, BitVec.setWidth_eq]

theorem ultoa_roundTrip_hex :
    ∃ str', ultoaIn 0xDEADBEEF (fun _ => 0xFF) 16 = .ok str' ∧
      TextAt str' (numeralText 16 0xDEADBEEF) ∧
      (∀ m, (numeral 16 0xDEADBEEF).length + 1 ≤ m → str' m = 0xFF) ∧
      ∀ behind, strtoul ((List.range ((numeral 16 0xDEADBEEF).length + 1)).map str' ++ behind) 16 =
        .ok ⟨0, some (numeral 16 0xDEADBEEF).length, some 0xDEADBEEF⟩ :=
  (ultoa_roundTrip_iff 0xDEADBEEF 16 (by decide) (by decide) fun _ => 0xFF).mpr (by decide)

/-- 2 ^ 21 has 22 digits in base 2. -/
theorem not_ultoa_roundTrip :
    ¬ ∀ (n : BitVec 32) (base : Nat), 2 ≤ base → base ≤ 32 → ∀ str : Nat → Byte,
      ∃ str', ultoaIn n str base = .ok str' ∧ TextAt str' (numeralText base n.toNat) ∧
        (∀ m, (numeral base n.toNat).length + 1 ≤ m → str' m = str m) ∧
        ∀ behind, strtoul ((List.range ((numeral base n.toNat).length + 1)).map str' ++ behind) base =
          .ok ⟨0, some (numeral base n.toNat).length, some n⟩ := by
  intro claim
  obtain ⟨str', call, -⟩ := claim 0x200000 2 (by decide) (by decide) fun _ => 0
  have overruns : ultoaIn 0x200000 (fun _ => 0) 2 = .error .fault := rfl
  cases call.symm.trans overruns

end Dxgmx
