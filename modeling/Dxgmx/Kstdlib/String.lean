import Mathlib.Data.BitVec
import Mathlib.Data.List.TakeWhile
import Dxgmx.Library.Exec

open Library

namespace Dxgmx

abbrev Byte := BitVec 8

/-- The string at the start of the bytes that can be read. Without a terminator the reader runs past
    them. -/
def cstring (bytes : List Byte) : Exec (List Byte) :=
  if 0 ∈ bytes then .ok (bytes.takeWhile (· ≠ 0)) else .error .fault

theorem cstring_terminated {text : List Byte} (clean : 0 ∉ text) (junk : List Byte) :
    cstring (text ++ 0 :: junk) = .ok text := by
  unfold cstring
  rw [if_pos (by simp), List.takeWhile_append_of_pos]
  · rw [List.takeWhile_cons_of_neg (by simp), List.append_nil]
  · intro byte member
    exact decide_eq_true fun zero => clean (zero ▸ member)

def strlenLoop (str : Nat → Byte) : (fuel ret : Nat) → Exec Nat
  | 0, _ => .error .fuel
  | fuel + 1, ret => if str ret ≠ 0 then strlenLoop str fuel (ret + 1) else .ok ret

/-- No string is longer than the address space. -/
def strlen (str : Nat → Byte) : Exec Nat := strlenLoop str (2 ^ 32) 0

/-- Bytes stored one after the other, from `place` on. -/
def storeBytes (dest : Nat → Byte) : (place : Nat) → List Byte → Nat → Byte
  | _, [] => dest
  | place, byte :: bytes => storeBytes (Function.update dest place byte) (place + 1) bytes

attribute [grind =] storeBytes

/-- The source is not in the place that is written. -/
def strcpy (dest : Nat → Byte) (place : Nat) (src : List Byte) : Exec (Nat → Byte) := do
  let text ← cstring src
  pure (storeBytes dest place (text ++ [0]))

def strncat (dest : Nat → Byte) (src : List Byte) (n : Nat) : Exec (Nat → Byte) := do
  let place ← strlen dest
  let text ← cstring src
  pure (storeBytes dest place (text.take n ++ [0]))

/-- What `strncpy` copies. -/
def strncpyText : (src : List Byte) → (n : Nat) → Exec (List Byte)
  | _, 0 => .ok []
  | [], _ + 1 => .error .fault
  | c :: src, n + 1 =>
    if c = 0 then .ok []
    else do
      let text ← strncpyText src n
      pure (c :: text)

def strncpy (dest : Nat → Byte) (src : List Byte) (n : Nat) : Exec (Nat → Byte) := do
  let text ← strncpyText src n
  pure (storeBytes dest 0 (text ++ List.replicate (n - text.length) 0))

def memcmp : (str1 str2 : List Byte) → (n : Nat) → Int
  | byte1 :: str1, byte2 :: str2, n + 1 =>
    if byte1 ≠ byte2 then byte1.toNat - byte2.toNat else memcmp str1 str2 n
  | _, _, _ => 0

def strcmp (str1 str2 : List Byte) : Exec Int := do
  let text1 ← cstring str1
  let text2 ← cstring str2
  if text2.length < text1.length then pure 1
  else if text1.length < text2.length then pure (-1)
  else pure (memcmp text1 text2 text1.length)

/-- Where `needle` stands in `haystack`. -/
def strstr (haystack needle : List Byte) : Option Nat :=
  if haystack.length < needle.length then none
  else if haystack.take needle.length = needle then some 0
  else
    match haystack with
    | [] => none
    | _ :: haystack => (strstr haystack needle).map (· + 1)

def strrchrLoop (str : List Byte) (c : Byte) : (left : Nat) → Option Nat
  | 0 => none
  | i + 1 => if str.getD i 0 = c then some i else strrchrLoop str c i

/-- The terminator is searched too. No string is longer than `_SSIZE_MAX_`. -/
def strrchr (str : List Byte) (c : Byte) : Option Nat := strrchrLoop str c (str.length + 1)

theorem memcmp_zero_iff {str1 str2 : List Byte} (same : str1.length = str2.length) :
    memcmp str1 str2 str1.length = 0 ↔ str1 = str2 := by
  induction str1 generalizing str2 with
  | nil =>
    rw [List.length_eq_zero_iff.mp same.symm]
    exact iff_of_true rfl rfl
  | cons byte1 str1 ih =>
    cases str2 with
    | nil => cases same
    | cons byte2 str2 =>
      rw [List.length_cons, memcmp]
      by_cases equal : byte1 = byte2
      · rw [if_neg (not_not.mpr equal), ih (Nat.succ.inj same), equal, List.cons.injEq]
        exact (and_iff_right rfl).symm
      · rw [if_pos equal]
        refine iff_of_false (fun zero => equal ?_) fun cons => equal (List.cons.inj cons).1
        apply BitVec.eq_of_toNat_eq
        omega

theorem strcmp_ok {str1 str2 text1 text2 : List Byte} (first : cstring str1 = .ok text1)
    (second : cstring str2 = .ok text2) : ∃ order, strcmp str1 str2 = .ok order ∧
      (order = 0 ↔ text1 = text2) := by
  unfold strcmp
  rw [first, Exec.ok_bind, second, Exec.ok_bind]
  split_ifs with longer shorter
  · refine ⟨1, rfl, iff_of_false (by decide) ?_⟩
    rintro rfl
    exact Nat.lt_irrefl _ longer
  · refine ⟨-1, rfl, iff_of_false (by decide) ?_⟩
    rintro rfl
    exact Nat.lt_irrefl _ shorter
  · exact ⟨_, rfl, memcmp_zero_iff (by omega)⟩

theorem strncpyText_ok {text : List Byte} {n : Nat} (clean : 0 ∉ text) (short : text.length < n) :
    strncpyText (text ++ [0]) n = .ok text := by
  induction text generalizing n with
  | nil =>
    cases n with
    | zero => cases short
    | succ n => rfl
  | cons c text ih =>
    cases n with
    | zero => cases short
    | succ n =>
      obtain ⟨head, tail⟩ := not_or.mp (mt List.mem_cons.mpr clean)
      rw [List.cons_append, strncpyText, if_neg (Ne.symm head), ih tail (Nat.lt_of_succ_lt_succ short)]
      rfl

/-- The string starts with `needle` exactly where the search stops at once. -/
theorem strstr_start (haystack needle : List Byte) :
    strstr haystack needle = some 0 ↔ needle <+: haystack := by
  rw [strstr.eq_def, List.prefix_iff_eq_take]
  by_cases short : haystack.length < needle.length
  · rw [if_pos short]
    constructor
    · exact nofun
    · intro same
      have shorter := congrArg List.length same
      rw [List.length_take] at shorter
      omega
  · rw [if_neg short]
    by_cases here : haystack.take needle.length = needle
    · rw [if_pos here]
      exact iff_of_true rfl here.symm
    · rw [if_neg here]
      refine iff_of_false ?_ (Ne.symm here)
      cases haystack with
      | nil => exact nofun
      | cons byte haystack => simp

theorem strrchrLoop_some {str : List Byte} {c : Byte} {left i : Nat} :
    strrchrLoop str c left = some i ↔
      i < left ∧ str.getD i 0 = c ∧ ∀ j < left, i < j → str.getD j 0 ≠ c := by
  induction left with
  | zero => simp [strrchrLoop]
  | succ left ih =>
    rw [strrchrLoop]
    by_cases here : str.getD left 0 = c
    · rw [if_pos here]
      constructor
      · intro same
        cases same
        exact ⟨Nat.lt_succ_self _, here, fun j below above => by omega⟩
      · rintro ⟨below, -, last⟩
        by_contra other
        have earlier : i < left := by
          rcases Nat.lt_or_eq_of_le (Nat.le_of_lt_succ below) with earlier | same
          · exact earlier
          · exact absurd (by rw [same]) other
        exact last left (Nat.lt_succ_self _) earlier here
    · rw [if_neg here, ih]
      constructor
      · rintro ⟨below, found, last⟩
        refine ⟨Nat.lt_succ_of_lt below, found, fun j inside above => ?_⟩
        rcases Nat.lt_or_eq_of_le (Nat.le_of_lt_succ inside) with earlier | same
        · exact last j earlier above
        · rw [same]
          exact here
      · rintro ⟨below, found, last⟩
        refine ⟨?_, found, fun j inside above => last j (Nat.lt_succ_of_lt inside) above⟩
        rcases Nat.lt_or_eq_of_le (Nat.le_of_lt_succ below) with earlier | same
        · exact earlier
        · rw [same] at found
          exact absurd found here

/-- The last occurrence of a byte splits the string after everything before it. -/
theorem strrchr_append {before after : List Byte} {c : Byte} (nonzero : c ≠ 0)
    (last : c ∉ after) : strrchr (before ++ c :: after) c = some before.length := by
  unfold strrchr
  rw [strrchrLoop_some]
  refine ⟨?_, by simp, fun j inside above => ?_⟩
  · rw [List.length_append, List.length_cons]
    omega
  obtain ⟨k, rfl⟩ : ∃ k, j = before.length + 1 + k := ⟨j - (before.length + 1), by omega⟩
  rw [List.getD_eq_getElem?_getD, Nat.add_assoc, List.getElem?_append_right (by omega)]
  rw [Nat.add_sub_cancel_left, Nat.add_comm 1 k, List.getElem?_cons_succ]
  cases there : after[k]? with
  | none => exact Ne.symm nonzero
  | some byte =>
    rintro rfl
    exact last (List.mem_of_getElem? there)

theorem strrchr_none {str : List Byte} {c : Byte} (nonzero : c ≠ 0) (absent : c ∉ str) :
    strrchr str c = none := by
  rw [Option.eq_none_iff_forall_ne_some]
  intro i found
  unfold strrchr at found
  have here := (strrchrLoop_some.mp found).2.1
  rw [List.getD_eq_getElem?_getD] at here
  cases there : str[i]? with
  | none =>
    rw [there] at here
    exact nonzero here.symm
  | some byte =>
    rw [there] at here
    cases here
    exact absent (List.mem_of_getElem? there)

end Dxgmx
