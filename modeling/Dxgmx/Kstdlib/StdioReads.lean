import Dxgmx.Kstdlib.StdioBound

open Library

namespace Dxgmx

section Parts

variable {fmt : List Byte}

/-- The flags end before the terminator, whatever stands behind it. -/
theorem printfFlags_terminated (clean : 0 ∉ fmt) (flags : PrintfFlags) :
    ∃ flags' fmt', 0 ∉ fmt' ∧ fmt'.length ≤ fmt.length ∧
      ∀ behind, printfFlags (fmt ++ 0 :: behind) flags = .ok (flags', fmt' ++ 0 :: behind) := by
  induction fmt generalizing flags with
  | nil => exact ⟨flags, [], clean, Nat.le_refl _, fun behind => rfl⟩
  | cons c fmt ih =>
    have tail : 0 ∉ fmt := fun member => clean (List.mem_cons_of_mem c member)
    cases parsed : printfParseFlags c flags with
    | mk status next =>
      cases status with
      | «continue» =>
        obtain ⟨flags', fmt', clean', shorter, ends⟩ := ih tail next
        refine ⟨flags', fmt', clean', Nat.le_succ_of_le shorter, fun behind => ?_⟩
        rw [List.cons_append, printfFlags, parsed]
        exact ends behind
      | invalid =>
        refine ⟨next, c :: fmt, clean, Nat.le_refl _, fun behind => ?_⟩
        rw [List.cons_append, printfFlags, parsed]
      | done =>
        refine ⟨next, c :: fmt, clean, Nat.le_refl _, fun behind => ?_⟩
        rw [List.cons_append, printfFlags, parsed]

theorem printfWidthDigits_terminated (clean : 0 ∉ fmt) (width : BitVec 16) :
    ∃ width' fmt', 0 ∉ fmt' ∧ fmt'.length ≤ fmt.length ∧
      ∀ behind, printfWidthDigits (fmt ++ 0 :: behind) width =
        .ok (width', fmt' ++ 0 :: behind) := by
  induction fmt generalizing width with
  | nil => exact ⟨width, [], clean, Nat.le_refl _, fun behind => rfl⟩
  | cons c fmt ih =>
    have tail : 0 ∉ fmt := fun member => clean (List.mem_cons_of_mem c member)
    by_cases digit : isdigit c
    · obtain ⟨width', fmt', clean', shorter, ends⟩ := ih tail (width * 10 + (c - chr '0').setWidth 16)
      refine ⟨width', fmt', clean', Nat.le_succ_of_le shorter, fun behind => ?_⟩
      rw [List.cons_append, printfWidthDigits, if_pos digit]
      exact ends behind
    · refine ⟨width, c :: fmt, clean, Nat.le_refl _, fun behind => ?_⟩
      rw [List.cons_append, printfWidthDigits, if_neg digit]

theorem printfPrecisionDigits_terminated (clean : 0 ∉ fmt) (precision : BitVec 64) :
    ∃ precision' fmt', 0 ∉ fmt' ∧ fmt'.length ≤ fmt.length ∧
      ∀ behind, printfPrecisionDigits (fmt ++ 0 :: behind) precision =
        .ok (precision', fmt' ++ 0 :: behind) := by
  induction fmt generalizing precision with
  | nil => exact ⟨precision, [], clean, Nat.le_refl _, fun behind => rfl⟩
  | cons c fmt ih =>
    have tail : 0 ∉ fmt := fun member => clean (List.mem_cons_of_mem c member)
    by_cases digit : isdigit c
    · obtain ⟨precision', fmt', clean', shorter, ends⟩ :=
        ih tail (precision * 10 + (c - chr '0').setWidth 64)
      refine ⟨precision', fmt', clean', Nat.le_succ_of_le shorter, fun behind => ?_⟩
      rw [List.cons_append, printfPrecisionDigits, if_pos digit]
      exact ends behind
    · refine ⟨precision, c :: fmt, clean, Nat.le_refl _, fun behind => ?_⟩
      rw [List.cons_append, printfPrecisionDigits, if_neg digit]

theorem printfLength_terminated (clean : 0 ∉ fmt) (length : PrintfLengthSpecifier) :
    ∃ length' fmt', 0 ∉ fmt' ∧ fmt'.length ≤ fmt.length ∧ (length' = none → fmt' ≠ []) ∧
      ∀ behind, printfLength (fmt ++ 0 :: behind) length = .ok (length', fmt' ++ 0 :: behind) := by
  induction fmt generalizing length with
  | nil => exact ⟨some length, [], clean, Nat.le_refl _, (absurd · (Option.some_ne_none length)),
      fun behind => rfl⟩
  | cons c fmt ih =>
    have tail : 0 ∉ fmt := fun member => clean (List.mem_cons_of_mem c member)
    cases parsed : printfParseLength c length with
    | mk status next =>
      cases status with
      | «continue» =>
        obtain ⟨length', fmt', clean', shorter, some_, ends⟩ := ih tail next
        refine ⟨length', fmt', clean', Nat.le_succ_of_le shorter, some_, fun behind => ?_⟩
        rw [List.cons_append, printfLength, parsed]
        exact ends behind
      | invalid =>
        refine ⟨none, c :: fmt, clean, Nat.le_refl _, fun _ => List.cons_ne_nil _ _, fun behind => ?_⟩
        rw [List.cons_append, printfLength, parsed]
      | done =>
        refine ⟨some next, c :: fmt, clean, Nat.le_refl _, (absurd · (Option.some_ne_none next)),
          fun behind => ?_⟩
        rw [List.cons_append, printfLength, parsed]

/-- A part of a conversion that may take arguments: it stops, or it ends before the terminator. -/
def EndsBefore {α : Type} (parse : List Byte → Exec (α × List Byte × List VaArg))
    (fmt : List Byte) : Prop :=
  (∃ stop, ∀ behind, parse (fmt ++ 0 :: behind) = .error stop) ∨
    ∃ a fmt' args', 0 ∉ fmt' ∧ fmt'.length ≤ fmt.length ∧
      ∀ behind, parse (fmt ++ 0 :: behind) = .ok (a, fmt' ++ 0 :: behind, args')

theorem printfWidth_terminated (clean : 0 ∉ fmt) (args : List VaArg) :
    EndsBefore (fun fmt => printfWidth fmt args) fmt := by
  have digits : ∀ c rest, (∀ behind, fmt ++ 0 :: behind = c :: (rest ++ behind)) → c ≠ chr '*' →
      EndsBefore (fun fmt => printfWidth fmt args) fmt := by
    intro c rest starts plain
    obtain ⟨width, fmt', clean', shorter, ends⟩ := printfWidthDigits_terminated clean 0
    refine .inr ⟨width, fmt', args, clean', shorter, fun behind => ?_⟩
    have parsed := ends behind
    rw [starts] at parsed ⊢
    unfold printfWidth
    dsimp only
    rw [if_neg plain, parsed]
    rfl
  cases fmt with
  | nil => exact digits 0 [] (fun _ => rfl) (by decide)
  | cons c fmt =>
    by_cases star : c = chr '*'
    · have tail : 0 ∉ fmt := fun member => clean (List.mem_cons_of_mem c member)
      cases read : vaWord args with
      | error stop =>
        refine .inl ⟨stop, fun behind => ?_⟩
        unfold printfWidth
        rw [List.cons_append]
        dsimp only
        rw [if_pos star, read]
        rfl
      | ok taken =>
        refine .inr ⟨taken.1.setWidth 16, fmt, taken.2, tail, Nat.le_succ _, fun behind => ?_⟩
        unfold printfWidth
        rw [List.cons_append]
        dsimp only
        rw [if_pos star, read]
        rfl
    · exact digits c (fmt ++ [0]) (fun behind => by simp) star

theorem printfPrecision_terminated (clean : 0 ∉ fmt) (args : List VaArg) :
    EndsBefore (fun fmt => printfPrecision fmt args) fmt := by
  have none_ : ∀ c rest, (∀ behind, fmt ++ 0 :: behind = c :: (rest ++ behind)) → c ≠ chr '.' →
      EndsBefore (fun fmt => printfPrecision fmt args) fmt := by
    intro c rest starts plain
    refine .inr ⟨-1, fmt, args, clean, Nat.le_refl _, fun behind => ?_⟩
    rw [starts]
    unfold printfPrecision
    dsimp only
    rw [if_neg plain]
  cases fmt with
  | nil => exact none_ 0 [] (fun _ => rfl) (by decide)
  | cons c fmt =>
    by_cases dot : c = chr '.'
    · have tail : 0 ∉ fmt := fun member => clean (List.mem_cons_of_mem c member)
      by_cases star : ∃ rest, fmt = chr '*' :: rest
      · obtain ⟨rest, same⟩ := star
        cases read : vaWord args with
        | error stop =>
          refine .inl ⟨stop, fun behind => ?_⟩
          unfold printfPrecision
          rw [same, List.cons_append, List.cons_append]
          dsimp only
          rw [if_pos dot, if_pos rfl, read]
          rfl
        | ok taken =>
          -- the format is left at the star
          refine .inr ⟨taken.1.setWidth 64, fmt, taken.2, tail, Nat.le_succ _, fun behind => ?_⟩
          unfold printfPrecision
          rw [same, List.cons_append, List.cons_append]
          dsimp only
          rw [if_pos dot, if_pos rfl, read]
          rfl
      · obtain ⟨precision, fmt', clean', shorter, ends⟩ := printfPrecisionDigits_terminated tail 0
        refine .inr ⟨precision, fmt', args, clean', Nat.le_succ_of_le shorter, fun behind => ?_⟩
        have parsed := ends behind
        unfold printfPrecision
        rw [List.cons_append]
        dsimp only
        rw [if_pos dot]
        cases fmt with
        | nil =>
          rw [List.nil_append] at parsed ⊢
          dsimp only
          rw [if_neg (by decide), parsed]
          rfl
        | cons d rest =>
          rw [List.cons_append] at parsed ⊢
          dsimp only
          rw [if_neg fun same => star ⟨rest, by rw [same]⟩, parsed]
          rfl
    · exact none_ c (fmt ++ [0]) (fun behind => by simp) dot

end Parts

section Conversion

variable {fmt fmt₁ fmt₂ fmt₃ rest : List Byte} {args args₂ args₃ : List VaArg} {flags : PrintfFlags}
variable {width : BitVec 16} {precision : BitVec 64} {spec : Byte}

theorem printfConversion_specifier {length : PrintfLengthSpecifier}
    (read₁ : printfFlags fmt ⟨false⟩ = .ok (flags, fmt₁))
    (read₂ : printfWidth fmt₁ args = .ok (width, fmt₂, args₂))
    (read₃ : printfPrecision fmt₂ args₂ = .ok (precision, fmt₃, args₃))
    (read₄ : printfLength fmt₃ .none = .ok (some length, spec :: rest)) :
    printfConversion fmt args =
      (printfSpecifier spec flags width precision length args₃).map
        fun result => (some result.1, rest, result.2) := by
  unfold printfConversion
  rw [read₁, Exec.ok_bind]
  dsimp only
  rw [read₂, Exec.ok_bind]
  dsimp only
  rw [read₃, Exec.ok_bind]
  dsimp only
  rw [read₄, Exec.ok_bind]
  dsimp only
  cases printfSpecifier spec flags width precision length args₃ <;> rfl

theorem printfConversion_invalid (read₁ : printfFlags fmt ⟨false⟩ = .ok (flags, fmt₁))
    (read₂ : printfWidth fmt₁ args = .ok (width, fmt₂, args₂))
    (read₃ : printfPrecision fmt₂ args₂ = .ok (precision, fmt₃, args₃))
    (read₄ : printfLength fmt₃ .none = .ok (none, spec :: rest)) :
    printfConversion fmt args = .ok (none, rest, args₃) := by
  unfold printfConversion
  rw [read₁, Exec.ok_bind]
  dsimp only
  rw [read₂, Exec.ok_bind]
  dsimp only
  rw [read₃, Exec.ok_bind]
  dsimp only
  rw [read₄]
  rfl

end Conversion

/-- How a conversion reads the format from behind its `%` on: it stops for want of an argument, it
    takes the terminator as its specifier, or it ends before the terminator. -/
inductive ConversionReads (fmt : List Byte) (args : List VaArg) : Prop
  | stops (stop : Stop) (same : ∀ behind, printfConversion (fmt ++ 0 :: behind) args = .error stop)
  | cut (args' : List VaArg)
      (same : ∀ behind, printfConversion (fmt ++ 0 :: behind) args = .ok (some ⟨[0], 0⟩, behind, args'))
  | ends (out : Option Outbuf) (fmt' : List Byte) (args' : List VaArg) (clean : 0 ∉ fmt')
      (shorter : fmt'.length < fmt.length)
      (same : ∀ behind,
        printfConversion (fmt ++ 0 :: behind) args = .ok (out, fmt' ++ 0 :: behind, args'))

theorem printfConversion_reads_terminated {fmt : List Byte} (clean : 0 ∉ fmt) (args : List VaArg) :
    ConversionReads fmt args := by
  obtain ⟨flags, fmt₁, clean₁, shorter₁, read₁⟩ := printfFlags_terminated clean ⟨false⟩
  rcases printfWidth_terminated clean₁ args with
    ⟨stop, read₂⟩ | ⟨width, fmt₂, args₂, clean₂, shorter₂, read₂⟩
  · refine .stops stop fun behind => ?_
    dsimp only at read₂
    unfold printfConversion
    rw [read₁, Exec.ok_bind]
    dsimp only
    rw [read₂]
    rfl
  rcases printfPrecision_terminated clean₂ args₂ with
    ⟨stop, read₃⟩ | ⟨precision, fmt₃, args₃, clean₃, shorter₃, read₃⟩
  · refine .stops stop fun behind => ?_
    dsimp only at read₂ read₃
    unfold printfConversion
    rw [read₁, Exec.ok_bind]
    dsimp only
    rw [read₂, Exec.ok_bind]
    dsimp only
    rw [read₃]
    rfl
  obtain ⟨length, fmt₄, clean₄, shorter₄, some_, read₄⟩ := printfLength_terminated clean₃ .none
  cases fmt₄ with
  | nil =>
    cases length with
    | none => exact absurd rfl (some_ rfl)
    | some length =>
      refine .cut args₃ fun behind => ?_
      rw [printfConversion_specifier (read₁ behind) (read₂ behind) (read₃ behind) (read₄ behind)]
      rfl
  | cons spec rest =>
    have tail : 0 ∉ rest := fun member => clean₄ (List.mem_cons_of_mem spec member)
    have shorter : rest.length < fmt.length := by
      rw [List.length_cons] at shorter₄
      omega
    cases length with
    | none =>
      exact .ends none rest args₃ tail shorter fun behind =>
        printfConversion_invalid (read₁ behind) (read₂ behind) (read₃ behind) (read₄ behind)
    | some length =>
      have parsed := fun behind =>
        printfConversion_specifier (read₁ behind) (read₂ behind) (read₃ behind) (read₄ behind)
      cases made : printfSpecifier spec flags width precision length args₃ with
      | error stop =>
        refine .stops stop fun behind => ?_
        rw [parsed, made]
        rfl
      | ok result =>
        refine .ends (some result.1) rest result.2 tail shorter fun behind => ?_
        rw [parsed, made]
        rfl

/-- The pieces in front of the conversion that the end of the format cuts off, if there is one. -/
def printfCut : (fuel : Nat) → List Byte → List VaArg → Option (List Piece)
  | 0, _, _ => none
  | _ + 1, [], _ => none
  | fuel + 1, c :: fmt, args =>
    if c = 0 then none
    else if c ≠ chr '%' then (printfCut fuel fmt args).map (⟨[c], 1⟩ :: ·)
    else
      match printfConversion fmt args with
      | .error _ => none
      | .ok (_, [], _) => some []
      | .ok (none, fmt, args) => printfCut fuel fmt args
      | .ok (some out, fmt, args) => (printfCut fuel fmt args).map (out.piece :: ·)

attribute [grind =] printfCut

section Cut

variable {fuel : Nat} {c : Byte} {fmt fmt' : List Byte} {args args' : List VaArg}

theorem printfCut_literal (terminator : ¬ c = 0) (literal : c ≠ chr '%') :
    printfCut (fuel + 1) (c :: fmt) args = (printfCut fuel fmt args).map (⟨[c], 1⟩ :: ·) := by
  rw [printfCut, if_neg terminator, if_pos literal]

theorem printfCut_stops {stop : Stop} (terminator : ¬ c = 0) (percent : ¬ c ≠ chr '%')
    (converted : printfConversion fmt args = .error stop) :
    printfCut (fuel + 1) (c :: fmt) args = none := by
  rw [printfCut, if_neg terminator, if_neg percent, converted]

theorem printfCut_cut {out : Option Outbuf} (terminator : ¬ c = 0) (percent : ¬ c ≠ chr '%')
    (converted : printfConversion fmt args = .ok (out, [], args')) :
    printfCut (fuel + 1) (c :: fmt) args = some [] := by
  rw [printfCut, if_neg terminator, if_neg percent, converted]

theorem printfCut_invalid (terminator : ¬ c = 0) (percent : ¬ c ≠ chr '%')
    (converted : printfConversion fmt args = .ok (none, fmt' ++ [0], args')) :
    printfCut (fuel + 1) (c :: fmt) args = printfCut fuel (fmt' ++ [0]) args' := by
  rw [printfCut, if_neg terminator, if_neg percent, converted]
  cases fmt' <;> rfl

theorem printfCut_conversion {out : Outbuf} (terminator : ¬ c = 0) (percent : ¬ c ≠ chr '%')
    (converted : printfConversion fmt args = .ok (some out, fmt' ++ [0], args')) :
    printfCut (fuel + 1) (c :: fmt) args =
      (printfCut fuel (fmt' ++ [0]) args').map (out.piece :: ·) := by
  rw [printfCut, if_neg terminator, if_neg percent, converted]
  cases fmt' <;> rfl

end Cut

/-- The call ends, and it is the same whatever stands behind the terminator of the format, also where
    nothing can be read there. -/
structure ReadsFormat (dest : Nat → Byte) (n : BitVec 32) (text : List Byte) (args : List VaArg) :
    Prop where
  ends : ∀ behind, Terminates (vsnprintf dest n (text ++ 0 :: behind) args)
  inside : ∀ behind, vsnprintf dest n (text ++ 0 :: behind) args = vsnprintf dest n (text ++ [0]) args

/-- The loop comes to a conversion that the end of the format cuts off. -/
def MeetsCut (n written : Nat) (cut : Option (List Piece)) : Prop :=
  ∃ before, cut = some before ∧ written + counted before < n - 1

theorem meetsCut_none (n written : Nat) : ¬ MeetsCut n written none := by
  rintro ⟨before, same, -⟩
  cases same

theorem meetsCut_cons {n written : Nat} {piece : Piece} {cut : Option (List Piece)} :
    MeetsCut n written (cut.map (piece :: ·)) ↔ MeetsCut n (written + piece.len) cut := by
  have sum : ∀ before, counted (piece :: before) = piece.len + counted before := fun before => by
    unfold counted
    rw [List.map_cons, List.sum_cons]
  constructor
  · rintro ⟨before, same, room⟩
    obtain ⟨rest, there, rfl⟩ := Option.map_eq_some_iff.mp same
    rw [sum] at room
    exact ⟨rest, there, by omega⟩
  · rintro ⟨rest, rfl, room⟩
    refine ⟨piece :: rest, rfl, ?_⟩
    rw [sum]
    omega

theorem strncat_behind {dest : Nat → Byte} {text : List Byte} (clean : 0 ∉ text)
    (behind : List Byte) (k : Nat) :
    strncat dest (text ++ 0 :: behind) k = strncat dest (text ++ [0]) k := by
  unfold strncat
  rw [cstring_terminated clean, cstring_terminated clean]

theorem strncat_ok {dest : Nat → Byte} {len : Nat} (string : StringAt dest len)
    (bound : len < 2 ^ 32) {src : List Byte} (terminated : 0 ∈ src) (k : Nat) :
    ∃ dest', strncat dest src k = .ok dest' := by
  unfold strncat cstring
  rw [strlen_eq string bound, Exec.ok_bind, if_pos terminated]
  exact ⟨_, rfl⟩

theorem printfString_terminated {precision : BitVec 64} {args args' : List VaArg} {out : Outbuf}
    (made : printfString precision args = .ok (out, args')) : 0 ∈ out.bytes := by
  obtain ⟨⟨bytes, args₁⟩, -, rest⟩ := Exec.bind_ok.mp made
  obtain ⟨text, read, rest⟩ := Exec.bind_ok.mp rest
  have terminated : 0 ∈ bytes := by
    unfold cstring at read
    by_contra open_
    rw [if_neg open_] at read
    cases read
  split at rest
  · cases rest
    exact terminated
  · cases rest
    exact terminated

theorem ofText_terminated {α : Type} {read : Exec α} {text : α → List Byte}
    {rest : α → List VaArg} {args' : List VaArg} {out : Outbuf}
    (made : (do let taken ← read; pure (Outbuf.ofText (text taken), rest taken)) =
      (.ok (out, args') : Exec (Outbuf × List VaArg))) : 0 ∈ out.bytes := by
  obtain ⟨taken, -, rest⟩ := Exec.bind_ok.mp made
  cases rest
  exact List.mem_append_right _ (List.mem_singleton_self 0)

/-- What a conversion prints can be read up to its terminator. -/
theorem printfSpecifier_terminated {spec : Byte} {flags : PrintfFlags} {width : BitVec 16}
    {precision : BitVec 64} {length : PrintfLengthSpecifier} {args args' : List VaArg} {out : Outbuf}
    (made : printfSpecifier spec flags width precision length args = .ok (out, args')) :
    0 ∈ out.bytes := by
  unfold printfSpecifier at made
  split at made
  · exact ofText_terminated made
  split at made
  · exact ofText_terminated made
  split at made
  · exact ofText_terminated made
  split at made
  · exact ofText_terminated made
  split at made
  · exact ofText_terminated made
  split at made
  · exact printfString_terminated made
  split at made
  · obtain ⟨taken, -, rest⟩ := Exec.bind_ok.mp made
    cases rest
    exact List.mem_cons_of_mem _ (List.mem_singleton_self 0)
  · cases made
    exact List.mem_singleton_self 0

theorem printfConversion_terminated {fmt fmt' : List Byte} {args args' : List VaArg} {out : Outbuf}
    (converted : printfConversion fmt args = .ok (some out, fmt', args')) : 0 ∈ out.bytes := by
  obtain ⟨⟨flags, fmt₁⟩, -, rest⟩ := Exec.bind_ok.mp converted
  obtain ⟨⟨width, fmt₂, args₂⟩, -, rest⟩ := Exec.bind_ok.mp rest
  obtain ⟨⟨precision, fmt₃, args₃⟩, -, rest⟩ := Exec.bind_ok.mp rest
  obtain ⟨⟨length, fmt₄⟩, -, rest⟩ := Exec.bind_ok.mp rest
  cases fmt₄ with
  | nil => cases length <;> cases rest
  | cons spec fmt₄ =>
    cases length with
    | none => cases rest
    | some length =>
      obtain ⟨made, read, rest⟩ := Exec.bind_ok.mp rest
      cases rest
      exact printfSpecifier_terminated read

section Loop

variable {n written : Nat} {dest : Nat → Byte}

/-- Without a conversion that is cut off, the loop does not depend on what stands behind the format. -/
theorem vsnprintfLoop_behind (k : Nat) {fmt : List Byte} {args : List VaArg}
    {fuel fuel' left : Nat} (short : fmt.length ≤ k) (clean : 0 ∉ fmt) (enough : fmt.length < fuel)
    (enough' : fmt.length < fuel') (enoughLeft : fmt.length < left) (room : written ≤ n - 1)
    (objects : ∀ p ∈ printfPieces left (fmt ++ [0]) args, n + p.len ≤ 2 ^ 32)
    (whole : ¬ MeetsCut n written (printfCut left (fmt ++ [0]) args)) (behind : List Byte) :
    vsnprintfLoop n fuel (fmt ++ 0 :: behind) args written dest =
      vsnprintfLoop n fuel' (fmt ++ [0]) args written dest := by
  induction k generalizing fmt args fuel fuel' left written dest with
  | zero =>
    obtain ⟨fuel, rfl⟩ : ∃ less, fuel = less + 1 := ⟨fuel - 1, by omega⟩
    obtain ⟨fuel', rfl⟩ : ∃ less, fuel' = less + 1 := ⟨fuel' - 1, by omega⟩
    rw [List.length_eq_zero_iff.mp (Nat.le_zero.mp short)]
    rfl
  | succ k ih =>
    obtain ⟨fuel, rfl⟩ : ∃ less, fuel = less + 1 := ⟨fuel - 1, by omega⟩
    obtain ⟨fuel', rfl⟩ : ∃ less, fuel' = less + 1 := ⟨fuel' - 1, by omega⟩
    obtain ⟨left, rfl⟩ : ∃ less, left = less + 1 := ⟨left - 1, by omega⟩
    cases fmt with
    | nil => rfl
    | cons c fmt =>
      have terminator : ¬ c = 0 := fun zero => clean (zero ▸ List.mem_cons_self)
      have tail : 0 ∉ fmt := fun member => clean (List.mem_cons_of_mem c member)
      rw [List.length_cons] at short enough enough' enoughLeft
      rw [List.cons_append] at objects whole ⊢
      rw [List.cons_append]
      by_cases full : n - 1 ≤ written
      · rw [vsnprintfLoop_full terminator full, vsnprintfLoop_full terminator full]
      by_cases literal : c ≠ chr '%'
      · rw [printfPieces_literal terminator literal] at objects
        rw [printfCut_literal terminator literal, meetsCut_cons] at whole
        rw [vsnprintfLoop_literal terminator full literal,
          vsnprintfLoop_literal terminator full literal]
        have appended := @strncat_behind dest (c :: fmt) clean behind 1
        rw [List.cons_append, List.cons_append] at appended
        rw [appended]
        congr 1
        funext dest
        exact ih (by omega) tail (by omega) (by omega) (by omega) (by omega)
          (fun p member => objects p (List.mem_cons_of_mem _ member)) whole
      rcases printfConversion_reads_terminated tail args with
        ⟨stop, same⟩ | ⟨args', same⟩ | ⟨out, fmt', args', clean', shorter, same⟩
      · rw [vsnprintfLoop_stops terminator full literal (same behind),
          vsnprintfLoop_stops terminator full literal (same [])]
      · rw [printfCut_cut terminator literal (same [])] at whole
        refine absurd ⟨[], rfl, ?_⟩ whole
        show written + 0 < n - 1
        omega
      · cases out with
        | none =>
          rw [printfPieces_invalid terminator literal (same [])] at objects
          rw [printfCut_invalid terminator literal (same [])] at whole
          rw [vsnprintfLoop_invalid terminator full literal (same behind),
            vsnprintfLoop_invalid terminator full literal (same [])]
          exact ih (by omega) clean' (by omega) (by omega) (by omega) room objects whole
        | some out =>
          rw [printfPieces_conversion terminator literal (same [])] at objects
          rw [printfCut_conversion terminator literal (same []), meetsCut_cons] at whole
          have size : n + out.len ≤ 2 ^ 32 := objects out.piece List.mem_cons_self
          have small : written + out.len < 2 ^ 32 := by omega
          by_cases exceeds : n - 1 < written + out.len
          · rw [vsnprintfLoop_exceeds terminator full literal (same behind) small exceeds,
              vsnprintfLoop_exceeds terminator full literal (same []) small exceeds]
          · have fits := Nat.not_lt.mp exceeds
            rw [vsnprintfLoop_fits terminator full literal (same behind) small fits,
              vsnprintfLoop_fits terminator full literal (same []) small fits]
            congr 1
            funext dest
            exact ih (by omega) clean' (by omega) (by omega) (by omega) fits
              (fun p member => objects p (List.mem_cons_of_mem _ member)) whole

/-- At a conversion that is cut off, the loop goes on behind the terminator. -/
theorem vsnprintfLoop_cut (k : Nat) {len : Nat} {fmt : List Byte} {args : List VaArg}
    {fuel fuel' left : Nat} (bound : n < 2 ^ 32) (string : StringAt dest len) (behind : len ≤ written)
    (short : fmt.length ≤ k) (clean : 0 ∉ fmt) (enough : fmt.length < fuel)
    (enough' : fmt.length < fuel')
    (objects : ∀ p ∈ printfPieces left (fmt ++ [0]) args, n + p.len ≤ 2 ^ 32)
    (cut : MeetsCut n written (printfCut left (fmt ++ [0]) args)) :
    vsnprintfLoop n fuel (fmt ++ [0]) args written dest = .error .fault ∧
      ∃ result, vsnprintfLoop n fuel' (fmt ++ [0, 0]) args written dest = .ok result := by
  induction k generalizing fmt args fuel fuel' left written dest len with
  | zero =>
    rw [List.length_eq_zero_iff.mp (Nat.le_zero.mp short)] at cut
    cases left <;> exact absurd cut (meetsCut_none n written)
  | succ k ih =>
    obtain ⟨fuel, rfl⟩ : ∃ less, fuel = less + 1 := ⟨fuel - 1, by omega⟩
    obtain ⟨fuel', rfl⟩ : ∃ less, fuel' = less + 1 := ⟨fuel' - 1, by omega⟩
    cases left with
    | zero => exact absurd cut (meetsCut_none n written)
    | succ left =>
    cases fmt with
    | nil => exact absurd cut (meetsCut_none n written)
    | cons c fmt =>
      have terminator : ¬ c = 0 := fun zero => clean (zero ▸ List.mem_cons_self)
      have tail : 0 ∉ fmt := fun member => clean (List.mem_cons_of_mem c member)
      have notFull : ¬ n - 1 ≤ written := by
        obtain ⟨before, -, room⟩ := cut
        omega
      rw [List.length_cons] at short enough enough'
      rw [List.cons_append] at objects cut ⊢
      rw [List.cons_append]
      by_cases literal : c ≠ chr '%'
      · rw [printfPieces_literal terminator literal] at objects
        rw [printfCut_literal terminator literal, meetsCut_cons] at cut
        rw [vsnprintfLoop_literal terminator notFull literal,
          vsnprintfLoop_literal terminator notFull literal]
        have same := @strncat_behind dest (c :: fmt) clean [0] 1
        have terminated : (0 : Byte) ∈ c :: fmt ++ [0] :=
          List.mem_append_right _ (List.mem_singleton_self 0)
        obtain ⟨dest₁, appended⟩ := strncat_ok string (by omega) terminated 1
        have string₁ := (strncat_spec string (by omega) appended).1
        rw [List.cons_append] at same appended
        rw [same, List.cons_append, appended, Exec.ok_bind]
        exact ih string₁ (by omega) (by omega) tail (by omega) (by omega)
          (fun p member => objects p (List.mem_cons_of_mem _ member)) cut
      rcases printfConversion_reads_terminated tail args with
        ⟨stop, same⟩ | ⟨args', same⟩ | ⟨out, fmt', args', clean', shorter, same⟩
      · rw [printfCut_stops terminator literal (same [])] at cut
        exact absurd cut (meetsCut_none n written)
      · have cutNil : printfConversion (fmt ++ [0]) args = .ok (some ⟨[0], 0⟩, [], args') := same []
        have cutTwo : printfConversion (fmt ++ [0, 0]) args = .ok (some ⟨[0], 0⟩, [0], args') := same [0]
        have small : written + 0 < 2 ^ 32 := by omega
        have fits : written + 0 ≤ n - 1 := by omega
        obtain ⟨dest₁, appended⟩ := strncat_ok string (by omega) (List.mem_singleton_self 0) 0
        obtain ⟨left', rfl⟩ : ∃ less, fuel' = less + 1 := ⟨fuel' - 1, by omega⟩
        obtain ⟨left'', rfl⟩ : ∃ less, fuel = less + 1 := ⟨fuel - 1, by omega⟩
        rw [vsnprintfLoop_fits terminator notFull literal cutNil small fits,
          vsnprintfLoop_fits terminator notFull literal cutTwo small fits, appended, Exec.ok_bind,
          Exec.ok_bind]
        exact ⟨rfl, _, rfl⟩
      · have ended : printfConversion (fmt ++ [0]) args = .ok (out, fmt' ++ [0], args') := same []
        have endedTwo : printfConversion (fmt ++ [0, 0]) args = .ok (out, fmt' ++ [0, 0], args') := same [0]
        cases out with
        | none =>
          rw [printfPieces_invalid terminator literal ended] at objects
          rw [printfCut_invalid terminator literal ended] at cut
          rw [vsnprintfLoop_invalid terminator notFull literal ended,
            vsnprintfLoop_invalid terminator notFull literal endedTwo]
          exact ih string behind (by omega) clean' (by omega) (by omega) objects cut
        | some out =>
          rw [printfPieces_conversion terminator literal ended] at objects
          rw [printfCut_conversion terminator literal ended, meetsCut_cons] at cut
          have size : n + out.len ≤ 2 ^ 32 := objects out.piece List.mem_cons_self
          have fits : written + out.len ≤ n - 1 := by
            obtain ⟨before, -, room⟩ := cut
            have same : out.piece.len = out.len := rfl
            omega
          have small : written + out.len < 2 ^ 32 := by omega
          obtain ⟨dest₁, appended⟩ :=
            strncat_ok string (by omega) (printfConversion_terminated ended) out.len
          have string₁ := (strncat_spec string (by omega) appended).1
          rw [vsnprintfLoop_fits terminator notFull literal ended small fits,
            vsnprintfLoop_fits terminator notFull literal endedTwo small fits, appended,
            Exec.ok_bind, Exec.ok_bind]
          exact ih string₁ (by omega) (by omega) clean' (by omega) (by omega)
            (fun p member => objects p (List.mem_cons_of_mem _ member)) cut

end Loop

/-- Once a format that ends inside a conversion is read that far, the rest of the call reads behind
    its terminator. -/
theorem vsnprintf_reads_iff (dest : Nat → Byte) (n : BitVec 32) (text : List Byte)
    (args : List VaArg) (clean : 0 ∉ text) (positive : 1 ≤ n.toNat)
    (objects : ∀ p ∈ printfPieces (text.length + 2) (text ++ [0]) args, n.toNat + p.len ≤ 2 ^ 32) :
    ReadsFormat dest n text args ↔
      ¬ MeetsCut n.toNat 0 (printfCut (text.length + 2) (text ++ [0]) args) := by
  have empty : StringAt (Function.update dest 0 0) 0 :=
    ⟨Function.update_self _ _ _, fun i before => by omega⟩
  have bound := n.isLt
  have one : (text ++ [0]).length = text.length + 1 := List.length_append
  have two : (text ++ [0, 0]).length = text.length + 2 := List.length_append
  have size : (text ++ [0]).length + 1 = text.length + 2 := by omega
  constructor
  · intro reads cut
    obtain ⟨faults, result, succeeds⟩ :=
      @vsnprintfLoop_cut n.toNat 0 (Function.update dest 0 0) text.length 0 text args
        ((text ++ [0]).length + 1) ((text ++ [0, 0]).length + 1) (text.length + 2) bound empty
        (le_refl _) (le_refl _) clean (by omega) (by omega) objects cut
    have same := reads.inside [0]
    unfold vsnprintf at same
    rw [faults, succeeds] at same
    cases same
  · intro whole
    have same : ∀ behind,
        vsnprintf dest n (text ++ 0 :: behind) args = vsnprintf dest n (text ++ [0]) args := by
      intro behind
      have longer : (text ++ 0 :: behind).length = text.length + (behind.length + 1) :=
        List.length_append
      have loop := @vsnprintfLoop_behind n.toNat 0 (Function.update dest 0 0) text.length text args
        ((text ++ 0 :: behind).length + 1) ((text ++ [0]).length + 1) (text.length + 2) (le_refl _)
        clean (by omega) (by omega) (by omega) (Nat.zero_le _) objects whole behind
      unfold vsnprintf
      rw [loop]
    have ends := (vsnprintf_inside_iff dest n (text ++ [0]) args positive (size ▸ objects)).1
    exact ⟨fun behind => same behind ▸ ends, same⟩

/-- `"%5"` into two bytes, where the literal in front already fills the buffer. -/
theorem vsnprintf_reads_full :
    ReadsFormat (fun _ => 0xFF) 2 [0x61, 0x25, 0x35] [] := by
  refine (vsnprintf_reads_iff (fun _ => 0xFF) 2 [0x61, 0x25, 0x35] [] (by decide) (by decide)
    (by decide)).mpr ?_
  rintro ⟨before, same, room⟩
  have cut : printfCut 5 [0x61, 0x25, 0x35, 0] [] = some [⟨[0x61], 1⟩] := rfl
  cases cut.symm.trans same
  revert room
  decide

/-- `"%"` takes its terminator as the specifier, and the loop goes on with the byte behind it. -/
theorem not_vsnprintf_reads :
    ¬ ∀ (dest : Nat → Byte) (n : BitVec 32) (text : List Byte) (args : List VaArg), 0 ∉ text →
      1 ≤ n.toNat →
      (∀ p ∈ printfPieces (text.length + 2) (text ++ [0]) args, n.toNat + p.len ≤ 2 ^ 32) →
      ReadsFormat dest n text args := by
  intro claim
  have reads := claim (fun _ => 0) 16 [0x25] [] (by decide) (by decide) (by decide)
  have same := reads.inside [0]
  have faults : vsnprintf (fun _ => 0) 16 [0x25, 0] [] = .error .fault := rfl
  have succeeds : (vsnprintf (fun _ => 0) 16 [0x25, 0, 0] []).toOption.isSome := rfl
  rw [List.singleton_append, List.singleton_append] at same
  rw [same, faults] at succeeds
  cases succeeds

end Dxgmx
