import Dxgmx.Kstdlib.StdioBound

open Library

namespace Dxgmx

/-- The text stands at the start of the buffer, with its terminator. -/
structure TextAt (dest : Nat → Byte) (text : List Byte) : Prop where
  bytes : (List.range (text.length + 1)).map dest = text ++ [0]
  clean : 0 ∉ text

variable {dest : Nat → Byte} {text total : List Byte}

theorem TextAt.getElem? (there : TextAt dest text) {i : Nat} (inside : i ≤ text.length) :
    (text ++ [0])[i]? = some (dest i) := by
  rw [← there.bytes, List.getElem?_map, List.getElem?_range (by omega)]
  rfl

theorem TextAt.byte (there : TextAt dest text) {i : Nat} (inside : i < text.length) :
    dest i = text[i] := by
  have same := there.getElem? (Nat.le_of_lt inside)
  rw [List.getElem?_append_left inside, List.getElem?_eq_getElem inside] at same
  exact (Option.some.inj same).symm

theorem TextAt.string (there : TextAt dest text) : StringAt dest text.length := by
  constructor
  · have same := there.getElem? (Nat.le_refl _)
    rw [List.getElem?_append_right (Nat.le_refl _), Nat.sub_self] at same
    exact (Option.some.inj same).symm
  · intro i inside
    rw [there.byte inside]
    exact fun zero => there.clean (zero ▸ List.getElem_mem inside)

theorem textAt_empty (dest : Nat → Byte) : TextAt (Function.update dest 0 0) [] :=
  ⟨rfl, List.not_mem_nil⟩

theorem TextAt.strncat (there : TextAt dest text) (bound : text.length < 2 ^ 32)
    {src read : List Byte} (reads : cstring src = .ok read) (k : Nat) :
    ∃ dest', Dxgmx.strncat dest src k = .ok dest' ∧ TextAt dest' (text ++ read.take k) := by
  unfold Dxgmx.strncat
  rw [strlen_eq there.string bound, Exec.ok_bind, reads, Exec.ok_bind]
  refine ⟨_, rfl, ?_, ?_⟩
  · apply List.ext_getElem
    · simp only [List.length_map, List.length_range, List.length_append, List.length_singleton]
    · intro i left right
      rw [List.getElem_map, List.getElem_range]
      simp only [List.length_append, List.length_singleton] at right
      by_cases old : i < text.length
      · rw [storeBytes_before _ _ _ _ old, there.byte old, List.getElem_append_left
          (by rw [List.length_append]; omega), List.getElem_append_left old]
      · have inside : i - text.length < (read.take k ++ [0]).length := by
          rw [List.length_append, List.length_singleton]
          omega
        have stored := storeBytes_inside dest text.length (read.take k ++ [0]) _ inside
        rw [show text.length + (i - text.length) = i by omega] at stored
        rw [stored, List.getElem_of_eq (List.append_assoc text (read.take k) [0]),
          List.getElem_append_right (Nat.not_lt.mp old)]
  · rw [List.mem_append]
    rintro (zero | zero)
    · exact there.clean zero
    · exact cstring_nonzero reads 0 (List.mem_of_mem_take zero) rfl

theorem TextAt.cstring (there : TextAt dest text) {k : Nat} (room : text.length < k) :
    Dxgmx.cstring ((List.range k).map dest) = .ok text := by
  obtain ⟨more, rfl⟩ := Nat.exists_eq_add_of_le room
  rw [List.range_add, List.map_append, there.bytes, List.append_assoc]
  exact cstring_terminated there.clean _

theorem strncpy_textAt (dest : Nat → Byte) (clean : 0 ∉ text) {n : Nat} (short : text.length < n) :
    ∃ dest', strncpy dest (text ++ [0]) n = .ok dest' ∧ TextAt dest' text := by
  unfold strncpy
  rw [strncpyText_ok clean short, Exec.ok_bind]
  refine ⟨_, rfl, ?_, clean⟩
  obtain ⟨more, padding⟩ := Nat.exists_eq_add_of_lt short
  rw [show n - text.length = more + 1 by omega, List.replicate_succ]
  apply List.ext_getElem
  · simp only [List.length_map, List.length_range, List.length_append, List.length_singleton]
  · intro i left right
    have inside : i < (text ++ 0 :: List.replicate more 0).length := by
      simp only [List.length_append, List.length_singleton] at right
      rw [List.length_append, List.length_cons]
      omega
    have stored := storeBytes_inside dest 0 (text ++ 0 :: List.replicate more 0) i inside
    rw [Nat.zero_add] at stored
    rw [List.getElem_map, List.getElem_range, stored,
      List.getElem_of_eq (List.append_cons text 0 (List.replicate more 0)),
      List.getElem_append_left right]

/-- From a buffer with `text` in it on, the loop goes through and leaves `total`. -/
def Prints (n fuel : Nat) (fmt : List Byte) (args : List VaArg) (text total : List Byte) : Prop :=
  ∀ dest, TextAt dest text →
    ∃ dest', vsnprintfLoop n fuel fmt args text.length dest = .ok (total.length, dest') ∧
      TextAt dest' total

section Prints

variable {n fuel : Nat} {fmt fmt' : List Byte} {args args' : List VaArg} {c : Byte}

theorem prints_end : Prints n (fuel + 1) (0 :: fmt) args text text := by
  intro dest there
  refine ⟨dest, ?_, there⟩
  unfold vsnprintfLoop
  rw [if_pos rfl]

theorem prints_literal (small : n < 2 ^ 32) (terminator : c ≠ 0) (literal : c ≠ chr '%')
    (ended : 0 ∈ fmt) (room : text.length < n - 1)
    (rest : Prints n fuel fmt args (text ++ [c]) total) :
    Prints n (fuel + 1) (c :: fmt) args text total := by
  intro dest there
  have reads : cstring (c :: fmt) = .ok (c :: fmt.takeWhile (· ≠ 0)) := by
    unfold cstring
    rw [if_pos (List.mem_cons_of_mem c ended), List.takeWhile_cons_of_pos (by simpa using terminator)]
  obtain ⟨dest₁, appended, there₁⟩ := there.strncat (by omega) reads 1
  obtain ⟨dest', printed, there'⟩ := rest dest₁ there₁
  refine ⟨dest', ?_, there'⟩
  rw [vsnprintfLoop_literal terminator (by omega) literal, appended, Exec.ok_bind, ← printed,
    List.length_append, List.length_singleton]

/-- A conversion whose text fits. -/
theorem prints_conversion (small : n < 2 ^ 32) {out : List Byte} (clean : 0 ∉ out)
    (converted : printfConversion fmt args = .ok (some (.ofText out), fmt', args'))
    (some_ : out ≠ []) (room : text.length + out.length ≤ n - 1)
    (rest : Prints n fuel fmt' args' (text ++ out) total) :
    Prints n (fuel + 1) (chr '%' :: fmt) args text total := by
  intro dest there
  have positive := List.length_pos_iff.mpr some_
  obtain ⟨dest₁, appended, there₁⟩ :=
    there.strncat (by omega) (cstring_terminated clean []) out.length
  rw [List.take_length] at there₁
  obtain ⟨dest', printed, there'⟩ := rest dest₁ there₁
  refine ⟨dest', ?_, there'⟩
  have small' : text.length + out.length < 2 ^ 32 := by omega
  have loop := @vsnprintfLoop_fits n fuel text.length (chr '%') fmt fmt' args args' dest
    (.ofText out) (by decide) (by omega) (by decide) converted small' room
  rw [loop, ← printed, List.length_append]
  dsimp only [Outbuf.ofText]
  rw [appended, Exec.ok_bind]

theorem Prints.vsnprintf {n : BitVec 32} (prints : Prints n.toNat (fmt.length + 1) fmt args [] total)
    (small : total.length < 2 ^ 31) (dest : Nat → Byte) :
    ∃ dest', Dxgmx.vsnprintf dest n fmt args = .ok (total.length, dest') ∧ TextAt dest' total := by
  obtain ⟨dest', printed, there⟩ := prints _ (textAt_empty dest)
  refine ⟨dest', ?_, there⟩
  have count : (BitVec.ofNat 32 total.length).toInt = total.length := by
    rw [BitVec.toInt_ofNat']
    exact Int.bmod_eq_of_le (by omega) (by omega)
  rw [List.length_nil] at printed
  unfold Dxgmx.vsnprintf
  rw [printed, Exec.ok_bind]
  dsimp only
  rw [count]
  rfl

end Prints

/-- What `%0<width>X` makes of a word. -/
def hexPadded (width : Nat) (value : BitVec 32) : List Byte :=
  printfApplyFlagsAndWidth (utoa value 16) 21 ⟨true⟩ width

theorem digitChar_ne_zero {digit : Int} (nonneg : 0 ≤ digit) (small : digit < 16) :
    digitChar digit ≠ 0 := by
  obtain ⟨k, rfl⟩ := Int.eq_ofNat_of_zero_le nonneg
  have hex : ∀ k < 16, digitChar (k : Nat) ≠ 0 := by decide
  exact hex k (by omega)

theorem lltoaDigits_clean (rounds n : Nat) : 0 ∉ lltoaDigits 16 rounds n := by
  induction rounds generalizing n with
  | zero => exact List.not_mem_nil
  | succ rounds ih =>
    unfold lltoaDigits
    split
    · exact List.not_mem_nil
    · rw [List.mem_append, List.mem_singleton]
      rintro (zero | zero)
      · exact ih (n / 16) zero
      · have digit : (n : Int).tmod 16 = (n % 16 : Nat) := rfl
        rw [digit] at zero
        exact digitChar_ne_zero (by omega) (by omega) zero.symm

theorem lltoaDigits_hex_length_le (rounds n k : Nat) (small : n < 16 ^ k) :
    (lltoaDigits 16 rounds n).length ≤ k := by
  induction rounds generalizing n k with
  | zero => exact Nat.zero_le k
  | succ rounds ih =>
    unfold lltoaDigits
    split
    · exact Nat.zero_le k
    · rename_i nonzero
      have positive : n ≠ 0 := by
        rintro rfl
        exact nonzero rfl
      cases k with
      | zero => omega
      | succ k =>
        have fewer : n / 16 < 16 ^ k := by
          rw [Nat.pow_succ] at small
          omega
        rw [List.length_append, List.length_singleton]
        exact Nat.succ_le_succ (ih (n / 16) k fewer)

theorem utoa_clean (value : BitVec 32) : 0 ∉ utoa value 16 := by
  unfold utoa ultoa ulltoa
  split
  · decide
  · exact lltoaDigits_clean 64 _

theorem utoa_hex_length_le (value : BitVec 32) {k : Nat} (positive : 0 < k)
    (small : value.toNat < 16 ^ k) :
    (utoa value 16).length ≤ k := by
  unfold utoa ultoa ulltoa
  split
  · exact positive
  · apply lltoaDigits_hex_length_le
    rw [BitVec.toNat_setWidth]
    exact Nat.lt_of_le_of_lt (Nat.mod_le _ _) small

theorem printfPad_eq (c : Byte) (rounds : Nat) (buf : List Byte) :
    printfPad c rounds buf = List.replicate rounds c ++ buf := by
  induction rounds with
  | zero => rfl
  | succ rounds ih =>
    unfold printfPad
    rw [ih]
    rfl

theorem hexPadded_eq {width : Nat} {value : BitVec 32} (narrow : width ≤ 21) :
    hexPadded width value =
      List.replicate (width - (utoa value 16).length) (chr '0') ++ utoa value 16 := by
  unfold hexPadded printfApplyFlagsAndWidth
  dsimp only
  rw [if_neg (Nat.not_lt.mpr narrow)]
  by_cases shorter : (utoa value 16).length < width
  · rw [if_pos shorter, if_pos rfl, printfPad_eq]
  · rw [if_neg shorter, Nat.sub_eq_zero_of_le (Nat.not_lt.mp shorter)]
    rfl

theorem hexPadded_length {width : Nat} {value : BitVec 32} (narrow : width ≤ 21)
    (fits : (utoa value 16).length ≤ width) : (hexPadded width value).length = width := by
  rw [hexPadded_eq narrow, List.length_append, List.length_replicate]
  omega

theorem hexPadded_clean {width : Nat} {value : BitVec 32} (narrow : width ≤ 21) :
    0 ∉ hexPadded width value := by
  rw [hexPadded_eq narrow, List.mem_append]
  rintro (zero | zero)
  · exact absurd (List.eq_of_mem_replicate zero) (by decide)
  · exact utoa_clean value zero

end Dxgmx
