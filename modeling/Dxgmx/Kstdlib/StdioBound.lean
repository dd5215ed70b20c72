import Dxgmx.Kstdlib.Stdio

open Library

namespace Dxgmx

/-- The string in `dest` has `len` bytes before its terminator. -/
def StringAt (dest : Nat → Byte) (len : Nat) : Prop := dest len = 0 ∧ ∀ i < len, dest i ≠ 0

theorem strlenLoop_eq {str : Nat → Byte} {len : Nat} (string : StringAt str len) (fuel ret : Nat)
    (before : ret ≤ len) (enough : len < ret + fuel) : strlenLoop str fuel ret = .ok len := by
  induction fuel generalizing ret with
  | zero => omega
  | succ fuel ih =>
    simp only [strlenLoop]
    by_cases here : ret = len
    · simp [here, string.1]
    · rw [if_pos (string.2 ret (by omega)), ih (ret + 1) (by omega) (by omega)]

theorem strlen_eq {str : Nat → Byte} {len : Nat} (string : StringAt str len)
    (bound : len < 2 ^ 32) : strlen str = .ok len :=
  strlenLoop_eq string _ _ (Nat.zero_le _) (by omega)

theorem storeBytes_before (dest : Nat → Byte) (place : Nat) (bytes : List Byte) (m : Nat)
    (before : m < place) : storeBytes dest place bytes m = dest m := by
  induction bytes generalizing dest place with
  | nil => rfl
  | cons byte bytes ih =>
    rw [storeBytes, ih _ _ (by omega), Function.update_of_ne (by omega)]

theorem storeBytes_after (dest : Nat → Byte) (place : Nat) (bytes : List Byte) (m : Nat)
    (after : place + bytes.length ≤ m) : storeBytes dest place bytes m = dest m := by
  induction bytes generalizing dest place with
  | nil => rfl
  | cons byte bytes ih =>
    rw [List.length_cons] at after
    rw [storeBytes, ih _ _ (by omega), Function.update_of_ne (by omega)]

theorem storeBytes_inside (dest : Nat → Byte) (place : Nat) (bytes : List Byte) (i : Nat)
    (inside : i < bytes.length) : storeBytes dest place bytes (place + i) = bytes[i] := by
  induction bytes generalizing dest place i with
  | nil => cases inside
  | cons byte bytes ih =>
    rw [storeBytes]
    cases i with
    | zero =>
      have first := storeBytes_before (Function.update dest place byte) (place + 1) bytes place
        (Nat.lt_succ_self _)
      exact first.trans (Function.update_self _ _ _)
    | succ i =>
      have next : place + (i + 1) = place + 1 + i := by omega
      rw [next, ih _ _ _ (by simpa using inside), List.getElem_cons_succ]

theorem cstring_ok {bytes text : List Byte} (call : cstring bytes = .ok text) :
    text = bytes.takeWhile (· ≠ 0) := by
  unfold cstring at call
  split at call
  · cases call
    rfl
  · cases call

theorem cstring_nonzero {bytes text : List Byte} (call : cstring bytes = .ok text) :
    ∀ byte ∈ text, byte ≠ 0 := by
  intro byte member
  rw [cstring_ok call] at member
  simpa using List.mem_takeWhile_imp member

/-- Appending a text of nonzero bytes to a string, up to `k` of them. -/
theorem strncat_spec {dest dest' : Nat → Byte} {src : List Byte} {len k : Nat}
    (string : StringAt dest len) (bound : len < 2 ^ 32) (call : strncat dest src k = .ok dest') :
    StringAt dest' (len + min k (src.takeWhile (· ≠ 0)).length) ∧
      ∀ m, len + min k (src.takeWhile (· ≠ 0)).length < m → dest' m = dest m := by
  obtain ⟨place, measured, rest⟩ := Exec.bind_ok.mp call
  rw [strlen_eq string bound] at measured
  cases measured
  obtain ⟨text, read, rest⟩ := Exec.bind_ok.mp rest
  have stored := Exec.pure_ok.mp rest
  have content := cstring_ok read
  have size : (text.take k ++ [0]).length = min k text.length + 1 := by simp
  rw [← content, ← stored]
  refine ⟨⟨?_, fun i before => ?_⟩, fun m after => ?_⟩
  · rw [storeBytes_inside _ _ _ _ (by omega)]
    rw [List.getElem_append_right (by simp)]
    simp
  · by_cases old : i < len
    · rw [storeBytes_before _ _ _ _ old]
      exact string.2 i old
    · have place : i = len + (i - len) := by omega
      rw [place, storeBytes_inside _ _ _ _ (by omega),
        List.getElem_append_left (by simp only [List.length_take]; omega)]
      exact cstring_nonzero read _ (List.mem_of_mem_take (List.getElem_mem _))
  · exact storeBytes_after _ _ _ _ (by omega)

/-- What one round of the loop emits: the text it has and the number of bytes it counts. -/
structure Piece where
  text : List Byte
  len : Nat

def Outbuf.piece (out : Outbuf) : Piece := ⟨out.bytes.takeWhile (· ≠ 0), out.len⟩

/-- The pieces that a format and its arguments stand for, whatever room there is for them. -/
def printfPieces : (fuel : Nat) → List Byte → List VaArg → List Piece
  | 0, _, _ => []
  | _ + 1, [], _ => []
  | fuel + 1, c :: fmt, args =>
    if c = 0 then []
    else if c ≠ chr '%' then ⟨[c], 1⟩ :: printfPieces fuel fmt args
    else
      match printfConversion fmt args with
      | .ok (none, fmt, args) => printfPieces fuel fmt args
      | .ok (some out, fmt, args) => out.piece :: printfPieces fuel fmt args
      | .error _ => []

attribute [grind =] printfPieces

section

variable {fuel : Nat} {c : Byte} {fmt fmt' : List Byte} {args args' : List VaArg}

theorem printfPieces_end : printfPieces (fuel + 1) (0 :: fmt) args = [] := by
  simp only [printfPieces, ↓reduceIte]

theorem printfPieces_literal (terminator : ¬ c = 0) (literal : c ≠ chr '%') :
    printfPieces (fuel + 1) (c :: fmt) args = ⟨[c], 1⟩ :: printfPieces fuel fmt args := by
  simp only [printfPieces, terminator, literal, ↓reduceIte, ne_eq, not_false_eq_true]

theorem printfPieces_invalid (terminator : ¬ c = 0) (percent : ¬ c ≠ chr '%')
    (converted : printfConversion fmt args = .ok (none, fmt', args')) :
    printfPieces (fuel + 1) (c :: fmt) args = printfPieces fuel fmt' args' := by
  simp only [printfPieces, terminator, percent, converted, ↓reduceIte]

theorem printfPieces_conversion {out : Outbuf} (terminator : ¬ c = 0) (percent : ¬ c ≠ chr '%')
    (converted : printfConversion fmt args = .ok (some out, fmt', args')) :
    printfPieces (fuel + 1) (c :: fmt) args = out.piece :: printfPieces fuel fmt' args' := by
  simp only [printfPieces, terminator, percent, converted, ↓reduceIte]

end

/-- What `written` counts for pieces that fit, and what they put into the buffer. -/
def counted (pieces : List Piece) : Nat := (pieces.map Piece.len).sum

def emitted (pieces : List Piece) : Nat :=
  (pieces.map fun p => min p.len p.text.length).sum

/-- From `written` counted and `len` emitted bytes on: the first piece that does not fit, cut to
    `n - 1` bytes, still ends before the last byte of the buffer. -/
def CutFits (n written len : Nat) (pieces : List Piece) : Prop :=
  ∀ before p, before ++ [p] <+: pieces → written + counted before < n - 1 →
    n - 1 < written + counted before + p.len →
    len + emitted before + min (n - 1) p.text.length ≤ n - 1

theorem cutFits_nil (n written len : Nat) : CutFits n written len [] := by
  intro before p inside
  simp at inside

theorem cutFits_full {n written len : Nat} (full : n - 1 ≤ written) (pieces : List Piece) :
    CutFits n written len pieces := by
  intro before p _ room
  omega

theorem cutFits_fits {n written len : Nat} {p : Piece} {pieces : List Piece}
    (fits : written + p.len ≤ n - 1) :
    CutFits n written len (p :: pieces) ↔
      CutFits n (written + p.len) (len + min p.len p.text.length) pieces := by
  constructor
  · intro cut before q inside room exceeds
    have whole := cut (p :: before) q (by simpa using inside)
      (by simp only [counted, List.map_cons, List.sum_cons] at room ⊢; omega)
      (by simp only [counted, List.map_cons, List.sum_cons] at exceeds ⊢; omega)
    simp only [emitted, List.map_cons, List.sum_cons] at whole ⊢
    omega
  · intro cut before q inside room exceeds
    cases before with
    | nil =>
      obtain ⟨same, -⟩ := List.cons_prefix_cons.mp inside
      subst same
      simp only [counted, List.map_nil, List.sum_nil] at exceeds
      omega
    | cons first before =>
      obtain ⟨same, tail⟩ := List.cons_prefix_cons.mp inside
      subst same
      have rest := cut before q tail
        (by simp only [counted, List.map_cons, List.sum_cons] at room ⊢; omega)
        (by simp only [counted, List.map_cons, List.sum_cons] at exceeds ⊢; omega)
      simp only [emitted, List.map_cons, List.sum_cons] at rest ⊢
      omega

theorem cutFits_cut {n written len : Nat} {p : Piece} {pieces : List Piece}
    (room : written < n - 1) (exceeds : n - 1 < written + p.len) :
    CutFits n written len (p :: pieces) ↔ len + min (n - 1) p.text.length ≤ n - 1 := by
  constructor
  · intro cut
    exact cut [] p (by simp) (by simpa [counted] using room) (by simpa [counted] using exceeds)
  · intro fits before q inside notFull _
    cases before with
    | nil =>
      obtain ⟨same, -⟩ := List.cons_prefix_cons.mp inside
      subst same
      simpa [emitted] using fits
    | cons first before =>
      obtain ⟨same, -⟩ := List.cons_prefix_cons.mp inside
      subst same
      simp only [counted, List.map_cons, List.sum_cons] at notFull
      omega

/-- The loop leaves a string that differs from the old one only up to its terminator, and whether it
    ends inside the buffer is decided by the piece that is cut. -/
theorem vsnprintfLoop_spec {n fuel written len result : Nat} {fmt : List Byte}
    {args : List VaArg} {dest dest' : Nat → Byte} (string : StringAt dest len)
    (behind : len ≤ written) (room : written ≤ n - 1) (bound : n < 2 ^ 32)
    (objects : ∀ p ∈ printfPieces fuel fmt args, n + p.len ≤ 2 ^ 32)
    (call : vsnprintfLoop n fuel fmt args written dest = .ok (result, dest')) :
    ∃ last, len ≤ last ∧ StringAt dest' last ∧ (∀ m, last < m → dest' m = dest m) ∧
      (last ≤ n - 1 ↔ CutFits n written len (printfPieces fuel fmt args)) := by
  induction fuel generalizing fmt args written len dest with
  | zero => cases call
  | succ fuel ih =>
    cases fmt with
    | nil => cases call
    | cons c fmt =>
      by_cases terminator : c = 0
      · rw [vsnprintfLoop, if_pos terminator] at call
        cases call
        rw [terminator, printfPieces_end]
        exact ⟨len, le_refl _, string, fun _ _ => rfl, fun _ => cutFits_nil _ _ _,
          fun _ => by omega⟩
      by_cases full : n - 1 ≤ written
      · rw [vsnprintfLoop_full terminator full] at call
        cases call
        exact ⟨len, le_refl _, string, fun _ _ => rfl, fun _ => cutFits_full full _,
          fun _ => by omega⟩
      by_cases literal : c ≠ chr '%'
      · rw [vsnprintfLoop_literal terminator full literal] at call
        rw [printfPieces_literal terminator literal] at objects ⊢
        obtain ⟨dest₁, appended, rest⟩ := Exec.bind_ok.mp call
        obtain ⟨string₁, same₁⟩ := strncat_spec string (by omega) appended
        have text : (c :: fmt).takeWhile (· ≠ 0) = c :: fmt.takeWhile (· ≠ 0) :=
          List.takeWhile_cons_of_pos (by simpa using terminator)
        have step : min 1 ((c :: fmt).takeWhile (· ≠ 0)).length = 1 := by
          rw [text, List.length_cons]
          omega
        rw [step] at string₁ same₁
        obtain ⟨last, grown, string', same', iff⟩ := ih string₁ (by omega) (by omega)
          (fun p member => objects p (List.mem_cons_of_mem _ member)) rest
        refine ⟨last, by omega, string', fun m after => ?_, ?_⟩
        · rw [same' m after, same₁ m (by omega)]
        · rw [iff, cutFits_fits (by simp only; omega)]
          rfl
      cases converted : printfConversion fmt args with
      | error stop =>
        rw [vsnprintfLoop_stops terminator full literal converted] at call
        cases call
      | ok result =>
      obtain ⟨out, fmt', args'⟩ := result
      cases out with
      | none =>
        rw [vsnprintfLoop_invalid terminator full literal converted] at call
        rw [printfPieces_invalid terminator literal converted] at objects ⊢
        exact ih string behind room objects call
      | some out =>
        rw [printfPieces_conversion terminator literal converted] at objects ⊢
        have size : n + out.len ≤ 2 ^ 32 := objects out.piece List.mem_cons_self
        by_cases exceeds : n - 1 < written + out.len
        · rw [vsnprintfLoop_exceeds terminator full literal converted (by omega) exceeds] at call
          obtain ⟨dest₁, appended, done⟩ := Exec.bind_ok.mp call
          obtain ⟨string₁, same₁⟩ := strncat_spec string (by omega) appended
          cases Exec.pure_ok.mp done
          refine ⟨_, by omega, string₁, same₁, ?_⟩
          rw [cutFits_cut (by omega) exceeds]
          rfl
        · have fits := Nat.not_lt.mp exceeds
          rw [vsnprintfLoop_fits terminator full literal converted (by omega) fits] at call
          obtain ⟨dest₁, appended, done⟩ := Exec.bind_ok.mp call
          obtain ⟨string₁, same₁⟩ := strncat_spec string (by omega) appended
          obtain ⟨last, grown, string', same', iff⟩ := ih string₁ (by omega) (by omega)
            (fun p member => objects p (List.mem_cons_of_mem _ member)) done
          refine ⟨last, by omega, string', fun m after => ?_, ?_⟩
          · rw [same' m after, same₁ m (by omega)]
          · rw [iff, cutFits_fits (by simp only [Outbuf.piece]; omega)]
            rfl

theorem vaWord_terminates (args : List VaArg) : Terminates (vaWord args) := by
  unfold vaWord
  split
  · exact terminates_ok _
  · exact terminates_fault

theorem vaDword_terminates (args : List VaArg) : Terminates (vaDword args) := by
  unfold vaDword
  split
  · exact terminates_ok _
  · exact terminates_fault

theorem cstring_terminates (bytes : List Byte) : Terminates (cstring bytes) := by
  unfold cstring
  split
  · exact terminates_ok _
  · exact terminates_fault

theorem printfSigned_terminates (length : PrintfLengthSpecifier) (args : List VaArg) :
    Terminates (printfSigned length args) := by
  unfold printfSigned
  split
  · exact (vaWord_terminates args).bind fun _ _ => terminates_pure _
  · exact (vaDword_terminates args).bind fun _ _ => terminates_pure _
  · exact (vaWord_terminates args).bind fun _ _ => terminates_pure _

theorem printfHex_terminates (length : PrintfLengthSpecifier) (args : List VaArg) :
    Terminates (printfHex length args) := by
  unfold printfHex
  split
  · exact (vaWord_terminates args).bind fun _ _ => terminates_pure _
  · exact (vaDword_terminates args).bind fun _ _ => terminates_pure _
  · exact (vaWord_terminates args).bind fun _ _ => terminates_pure _

theorem printfUnsigned_terminates (length : PrintfLengthSpecifier) (args : List VaArg) :
    Terminates (printfUnsigned length args) := by
  unfold printfUnsigned
  split
  · exact (vaWord_terminates args).bind fun _ _ => terminates_pure _
  · exact (vaDword_terminates args).bind fun _ _ => terminates_pure _
  · exact terminates_ok _
  · exact terminates_ok _
  · exact terminates_ok _
  · exact (vaWord_terminates args).bind fun _ _ => terminates_pure _

theorem printfReal_terminates (length : PrintfLengthSpecifier) (precision : BitVec 64)
    (args : List VaArg) : Terminates (printfReal length precision args) := by
  have read : Terminates (vaReal length args) := by
    unfold vaReal vaLongDouble vaDouble
    split <;> split
    · exact terminates_ok _
    · exact terminates_fault
    · exact terminates_ok _
    · exact terminates_fault
  exact read.bind fun _ _ => terminates_pure _

theorem printfString_terminates (precision : BitVec 64) (args : List VaArg) :
    Terminates (printfString precision args) := by
  have read : Terminates (vaString args) := by
    unfold vaString
    split
    · exact terminates_ok _
    · exact terminates_fault
  refine read.bind fun out _ => (cstring_terminates out.1).bind fun text _ => ?_
  split <;> exact terminates_pure _

theorem printfSpecifier_terminates (spec : Byte) (flags : PrintfFlags) (width : BitVec 16)
    (precision : BitVec 64) (length : PrintfLengthSpecifier) (args : List VaArg) :
    Terminates (printfSpecifier spec flags width precision length args) := by
  unfold printfSpecifier
  split
  · exact (printfSigned_terminates length args).bind fun _ _ => terminates_pure _
  split
  · exact (printfHex_terminates length args).bind fun _ _ => terminates_pure _
  split
  · exact (vaWord_terminates args).bind fun _ _ => terminates_pure _
  split
  · exact (printfUnsigned_terminates length args).bind fun _ _ => terminates_pure _
  split
  · exact (printfReal_terminates length precision args).bind fun _ _ => terminates_pure _
  split
  · exact printfString_terminates precision args
  split
  · exact (vaWord_terminates args).bind fun _ _ => terminates_pure _
  · exact terminates_pure _

theorem fault_reads {α : Type} {fits : α → Prop} :
    Terminates (.error .fault : Exec α) ∧ ∀ out, (.error .fault : Exec α) = .ok out → fits out :=
  ⟨terminates_fault, nofun⟩

/-- The flags are read to an end, and not from beyond the format. -/
theorem printfFlags_reads (fmt : List Byte) (flags : PrintfFlags) :
    Terminates (printfFlags fmt flags) ∧
      ∀ out, printfFlags fmt flags = .ok out → out.2.length ≤ fmt.length := by
  induction fmt generalizing flags with
  | nil => exact fault_reads
  | cons c fmt ih =>
    simp only [printfFlags]
    split
    · rename_i next parsed
      refine ⟨(ih next).1, fun out call => ?_⟩
      have shorter := (ih next).2 out call
      rw [List.length_cons]
      omega
    · refine ⟨terminates_ok _, fun out call => ?_⟩
      cases call
      exact le_refl _

theorem printfWidthDigits_reads (fmt : List Byte) (width : BitVec 16) :
    Terminates (printfWidthDigits fmt width) ∧
      ∀ out, printfWidthDigits fmt width = .ok out → out.2.length ≤ fmt.length := by
  induction fmt generalizing width with
  | nil => exact fault_reads
  | cons c fmt ih =>
    simp only [printfWidthDigits]
    split
    · refine ⟨(ih _).1, fun out call => ?_⟩
      have shorter := (ih _).2 out call
      rw [List.length_cons]
      omega
    · refine ⟨terminates_ok _, fun out call => ?_⟩
      cases call
      exact le_refl _

theorem printfPrecisionDigits_reads (fmt : List Byte) (precision : BitVec 64) :
    Terminates (printfPrecisionDigits fmt precision) ∧
      ∀ out, printfPrecisionDigits fmt precision = .ok out → out.2.length ≤ fmt.length := by
  induction fmt generalizing precision with
  | nil => exact fault_reads
  | cons c fmt ih =>
    simp only [printfPrecisionDigits]
    split
    · refine ⟨(ih _).1, fun out call => ?_⟩
      have shorter := (ih _).2 out call
      rw [List.length_cons]
      omega
    · refine ⟨terminates_ok _, fun out call => ?_⟩
      cases call
      exact le_refl _

theorem printfWidth_reads (fmt : List Byte) (args : List VaArg) :
    Terminates (printfWidth fmt args) ∧
      ∀ out, printfWidth fmt args = .ok out → out.2.1.length ≤ fmt.length := by
  unfold printfWidth
  split
  · exact fault_reads
  · rename_i c rest
    split
    · refine ⟨(vaWord_terminates args).bind fun _ _ => terminates_pure _, fun out call => ?_⟩
      obtain ⟨value, -, done⟩ := Exec.bind_ok.mp call
      cases Exec.pure_ok.mp done
      exact Nat.le_succ _
    · obtain ⟨ends, shorter⟩ := printfWidthDigits_reads (c :: rest) 0
      refine ⟨ends.bind fun _ _ => terminates_pure _, fun out call => ?_⟩
      obtain ⟨digits, read, done⟩ := Exec.bind_ok.mp call
      cases Exec.pure_ok.mp done
      exact shorter digits read

theorem printfPrecision_reads (fmt : List Byte) (args : List VaArg) :
    Terminates (printfPrecision fmt args) ∧
      ∀ out, printfPrecision fmt args = .ok out → out.2.1.length ≤ fmt.length := by
  unfold printfPrecision
  split
  · exact fault_reads
  · rename_i c rest
    split
    · cases rest with
      | nil => exact fault_reads
      | cons d tail =>
        simp only
        split
        · refine ⟨(vaWord_terminates args).bind fun _ _ => terminates_pure _, fun out call => ?_⟩
          obtain ⟨value, -, done⟩ := Exec.bind_ok.mp call
          cases Exec.pure_ok.mp done
          exact Nat.le_succ _
        · obtain ⟨ends, shorter⟩ := printfPrecisionDigits_reads (d :: tail) 0
          refine ⟨ends.bind fun _ _ => terminates_pure _, fun out call => ?_⟩
          obtain ⟨digits, read, done⟩ := Exec.bind_ok.mp call
          cases Exec.pure_ok.mp done
          exact (shorter digits read).trans (Nat.le_succ _)
    · refine ⟨terminates_ok _, fun out call => ?_⟩
      cases call
      exact le_refl _

theorem printfLength_reads (fmt : List Byte) (length : PrintfLengthSpecifier) :
    Terminates (printfLength fmt length) ∧
      ∀ out, printfLength fmt length = .ok out → out.2.length ≤ fmt.length := by
  induction fmt generalizing length with
  | nil => exact fault_reads
  | cons c fmt ih =>
    simp only [printfLength]
    split
    · refine ⟨terminates_ok _, fun out call => ?_⟩
      cases call
      exact le_refl _
    · rename_i next parsed
      refine ⟨(ih next).1, fun out call => ?_⟩
      have shorter := (ih next).2 out call
      rw [List.length_cons]
      omega
    · refine ⟨terminates_ok _, fun out call => ?_⟩
      cases call
      exact le_refl _

theorem printfConversion_reads (fmt : List Byte) (args : List VaArg) :
    Terminates (printfConversion fmt args) ∧
      ∀ out, printfConversion fmt args = .ok out → out.2.1.length < fmt.length := by
  constructor
  · refine (printfFlags_reads fmt _).1.bind fun ⟨flags, fmt₁⟩ _ =>
      (printfWidth_reads fmt₁ args).1.bind fun ⟨width, fmt₂, args₂⟩ _ =>
        (printfPrecision_reads fmt₂ args₂).1.bind fun ⟨precision, fmt₃, args₃⟩ _ =>
          (printfLength_reads fmt₃ _).1.bind fun ⟨length, fmt₄⟩ _ => ?_
    cases fmt₄ with
    | nil => cases length <;> exact terminates_fault
    | cons spec rest =>
      cases length with
      | none => exact terminates_pure _
      | some length =>
        exact (printfSpecifier_terminates _ _ _ _ _ _).bind fun _ _ => terminates_pure _
  · intro out call
    obtain ⟨⟨flags, fmt₁⟩, read₁, call⟩ := Exec.bind_ok.mp call
    obtain ⟨⟨width, fmt₂, args₂⟩, read₂, call⟩ := Exec.bind_ok.mp call
    obtain ⟨⟨precision, fmt₃, args₃⟩, read₃, call⟩ := Exec.bind_ok.mp call
    obtain ⟨⟨length, fmt₄⟩, read₄, call⟩ := Exec.bind_ok.mp call
    have shorter₁ : fmt₁.length ≤ fmt.length := (printfFlags_reads _ _).2 _ read₁
    have shorter₂ : fmt₂.length ≤ fmt₁.length := (printfWidth_reads _ _).2 _ read₂
    have shorter₃ : fmt₃.length ≤ fmt₂.length := (printfPrecision_reads _ _).2 _ read₃
    have shorter₄ : fmt₄.length ≤ fmt₃.length := (printfLength_reads _ _).2 _ read₄
    cases fmt₄ with
    | nil => cases length <;> cases call
    | cons spec rest =>
      rw [List.length_cons] at shorter₄
      cases length with
      | none =>
        cases Exec.pure_ok.mp call
        simp only
        omega
      | some length =>
        obtain ⟨piece, -, done⟩ := Exec.bind_ok.mp call
        cases Exec.pure_ok.mp done
        simp only
        omega

theorem strncat_terminates {dest : Nat → Byte} {len : Nat} (string : StringAt dest len)
    (bound : len < 2 ^ 32) (src : List Byte) (k : Nat) : Terminates (strncat dest src k) := by
  have measured : Terminates (strlen dest) := by
    rw [strlen_eq string bound]
    exact terminates_ok _
  exact measured.bind fun _ _ => (cstring_terminates src).bind fun _ _ => terminates_pure _

theorem vsnprintfLoop_terminates {n fuel written len : Nat} {fmt : List Byte}
    {args : List VaArg} {dest : Nat → Byte} (string : StringAt dest len)
    (behind : len ≤ written) (room : written ≤ n - 1) (bound : n < 2 ^ 32)
    (objects : ∀ p ∈ printfPieces fuel fmt args, n + p.len ≤ 2 ^ 32) (enough : fmt.length < fuel) :
    Terminates (vsnprintfLoop n fuel fmt args written dest) := by
  induction fuel generalizing fmt args written len dest with
  | zero => omega
  | succ fuel ih =>
    cases fmt with
    | nil => exact terminates_fault
    | cons c fmt =>
      rw [List.length_cons] at enough
      by_cases terminator : c = 0
      · rw [vsnprintfLoop, if_pos terminator]
        exact terminates_ok _
      by_cases full : n - 1 ≤ written
      · rw [vsnprintfLoop_full terminator full]
        exact terminates_ok _
      by_cases literal : c ≠ chr '%'
      · rw [printfPieces_literal terminator literal] at objects
        rw [vsnprintfLoop_literal terminator full literal]
        refine (strncat_terminates string (by omega) _ _).bind fun dest₁ appended => ?_
        obtain ⟨string₁, -⟩ := strncat_spec string (by omega) appended
        exact ih string₁ (by omega) (by omega)
          (fun p member => objects p (List.mem_cons_of_mem _ member)) (by omega)
      obtain ⟨ends, shorter⟩ := printfConversion_reads fmt args
      cases converted : printfConversion fmt args with
      | error stop =>
        rw [vsnprintfLoop_stops terminator full literal converted]
        rw [converted] at ends
        exact fun ranOut => ends (congrArg Except.error (Except.error.inj ranOut))
      | ok result =>
      obtain ⟨out, fmt', args'⟩ := result
      have rest : fmt'.length < fmt.length := shorter _ converted
      cases out with
      | none =>
        rw [printfPieces_invalid terminator literal converted] at objects
        rw [vsnprintfLoop_invalid terminator full literal converted]
        exact ih string behind room objects (by omega)
      | some out =>
        rw [printfPieces_conversion terminator literal converted] at objects
        have size : n + out.len ≤ 2 ^ 32 := objects out.piece List.mem_cons_self
        by_cases exceeds : n - 1 < written + out.len
        · rw [vsnprintfLoop_exceeds terminator full literal converted (by omega) exceeds]
          exact (strncat_terminates string (by omega) _ _).bind fun _ _ => terminates_pure _
        · have fits := Nat.not_lt.mp exceeds
          rw [vsnprintfLoop_fits terminator full literal converted (by omega) fits]
          refine (strncat_terminates string (by omega) _ _).bind fun dest₁ appended => ?_
          obtain ⟨string₁, -⟩ := strncat_spec string (by omega) appended
          exact ih string₁ (by omega) (by omega)
            (fun p member => objects p (List.mem_cons_of_mem _ member)) (by omega)

/-- The call stores only into `dest[0 .. n-1]` and leaves a string in it. -/
def StaysInside (n : Nat) (dest dest' : Nat → Byte) : Prop :=
  (∀ m, n ≤ m → dest' m = dest m) ∧ ∃ len ≤ n - 1, StringAt dest' len

/-- The call ends, and it stays inside the buffer exactly when the piece that it cuts does. The
    buffer and what a conversion prints are objects of one 32-bit address space. -/
theorem vsnprintf_inside_iff (dest : Nat → Byte) (n : BitVec 32) (fmt : List Byte)
    (args : List VaArg) (positive : 1 ≤ n.toNat)
    (objects : ∀ p ∈ printfPieces (fmt.length + 1) fmt args, n.toNat + p.len ≤ 2 ^ 32) :
    Terminates (vsnprintf dest n fmt args) ∧
      ∀ ret dest', vsnprintf dest n fmt args = .ok (ret, dest') →
        (StaysInside n.toNat dest dest' ↔
          CutFits n.toNat 0 0 (printfPieces (fmt.length + 1) fmt args)) := by
  have empty : StringAt (Function.update dest 0 0) 0 :=
    ⟨Function.update_self _ _ _, fun i before => by omega⟩
  have bound := n.isLt
  constructor
  · exact (vsnprintfLoop_terminates empty (le_refl _) (Nat.zero_le _) bound objects
      (Nat.lt_succ_self _)).bind fun _ _ => terminates_pure _
  · intro ret dest' call
    obtain ⟨⟨written, after⟩, looped, done⟩ := Exec.bind_ok.mp call
    cases Exec.pure_ok.mp done
    obtain ⟨last, -, string, same, iff⟩ :=
      vsnprintfLoop_spec empty (le_refl _) (Nat.zero_le _) bound objects looped
    rw [← iff]
    constructor
    · rintro ⟨-, len, short, string'⟩
      have unique : len = last := by
        rcases Nat.lt_trichotomy len last with less | equal | more
        · exact absurd string'.1 (string.2 len less)
        · exact equal
        · exact absurd string.1 (string'.2 last more)
      omega
    · intro fits
      refine ⟨fun m outside => ?_, last, fits, string⟩
      rw [same m (by omega), Function.update_of_ne (by omega)]

theorem cutFits_of_counted {n : Nat} {pieces : List Piece} (fits : counted pieces ≤ n - 1) :
    CutFits n 0 0 pieces := by
  rintro before p ⟨rest, rfl⟩ _ exceeds
  simp only [counted, List.map_append, List.sum_append, List.map_cons, List.map_nil,
    List.sum_cons, List.sum_nil] at fits exceeds
  omega

/-- `"ab%u"` for 42 fits into five bytes. -/
theorem vsnprintf_inside_fits : ∃ dest',
    vsnprintf (fun _ => 0xFF) 5 [0x61, 0x62, 0x25, 0x75, 0] [.word 42] = .ok (4, dest') ∧
      StaysInside 5 (fun _ => 0xFF) dest' := by
  obtain ⟨dest', call⟩ : ∃ dest', vsnprintf (fun _ => 0xFF) 5 [0x61, 0x62, 0x25, 0x75, 0]
      [.word 42] = .ok (4, dest') := ⟨_, rfl⟩
  refine ⟨dest', call, ?_⟩
  have pieces : printfPieces (([0x61, 0x62, 0x25, 0x75, 0] : List Byte).length + 1)
      [0x61, 0x62, 0x25, 0x75, 0] [.word 42] = [⟨[0x61], 1⟩, ⟨[0x62], 1⟩, ⟨[0x34, 0x32], 2⟩] := rfl
  have inside := (vsnprintf_inside_iff (fun _ => 0xFF) 5 [0x61, 0x62, 0x25, 0x75, 0] [.word 42]
    (by decide) (by rw [pieces]; decide)).2 4 dest' call
  rw [pieces] at inside
  exact inside.mpr (cutFits_of_counted (by decide))

/-- `"ab%s"` for `"cdefgh"` into five bytes leaves `"abcdef"`, which takes seven. -/
theorem vsnprintf_overruns :
    ¬ ∀ (dest : Nat → Byte) (n : BitVec 32) (fmt : List Byte) (args : List VaArg) (ret : Int)
      (dest' : Nat → Byte), 1 ≤ n.toNat →
      (∀ p ∈ printfPieces (fmt.length + 1) fmt args, n.toNat + p.len ≤ 2 ^ 32) →
      vsnprintf dest n fmt args = .ok (ret, dest') → StaysInside n.toNat dest dest' := by
  intro claim
  obtain ⟨dest', call, byte⟩ : ∃ dest', vsnprintf (fun _ => 0xFF) 5 [0x61, 0x62, 0x25, 0x73, 0]
      [.string [0x63, 0x64, 0x65, 0x66, 0x67, 0x68, 0]] = .ok (8, dest') ∧ dest' 5 = 0x66 :=
    ⟨_, rfl, rfl⟩
  have pieces : printfPieces (([0x61, 0x62, 0x25, 0x73, 0] : List Byte).length + 1)
      [0x61, 0x62, 0x25, 0x73, 0] [.string [0x63, 0x64, 0x65, 0x66, 0x67, 0x68, 0]] =
        [⟨[0x61], 1⟩, ⟨[0x62], 1⟩, ⟨[0x63, 0x64, 0x65, 0x66, 0x67, 0x68], 6⟩] := rfl
  have inside := claim _ _ _ _ _ _ (by decide) (by rw [pieces]; decide) call
  have untouched : dest' 5 = 0xFF := inside.1 5 (by decide)
  rw [byte] at untouched
  exact absurd untouched (by decide)

end Dxgmx
