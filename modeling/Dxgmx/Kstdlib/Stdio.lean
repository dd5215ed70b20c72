import Dxgmx.Kstdlib.Stdlib

open Library

namespace Dxgmx

inductive PrintfLengthSpecifier
  | none | hh | h | l | ll | j | z | t | L
  deriving DecidableEq, Repr

/-- `PRITNF_FLAG_PAD_ZERO`. The other flags are parsed and then ignored. -/
structure PrintfFlags where
  padZero : Bool
  deriving DecidableEq, Repr

/-- An argument on the stack. The text of a real is a parameter: all that counts here is that it
    depends on the argument and on the number of digits. A string is given by the bytes that can be
    read from its address on. -/
inductive VaArg
  | word (value : BitVec 32)
  | dword (value : BitVec 64)
  | double (text : Nat → List Byte)
  | longDouble (text : Nat → List Byte)
  | string (bytes : List Byte)

def vaWord : List VaArg → Exec (BitVec 32 × List VaArg)
  | .word value :: args => .ok (value, args)
  | _ => .error .fault

def vaDword : List VaArg → Exec (BitVec 64 × List VaArg)
  | .dword value :: args => .ok (value, args)
  | _ => .error .fault

def vaDouble : List VaArg → Exec ((Nat → List Byte) × List VaArg)
  | .double text :: args => .ok (text, args)
  | _ => .error .fault

def vaLongDouble : List VaArg → Exec ((Nat → List Byte) × List VaArg)
  | .longDouble text :: args => .ok (text, args)
  | _ => .error .fault

def vaString : List VaArg → Exec (List Byte × List VaArg)
  | .string bytes :: args => .ok (bytes, args)
  | _ => .error .fault

def chr (c : Char) : Byte := BitVec.ofNat 8 c.toNat

def isdigit (c : Byte) : Bool := chr '0' ≤ c ∧ c ≤ chr '9'

inductive PrintfParseStatus
  | «continue»
  | invalid
  | done
  deriving DecidableEq, Repr

def printfParseFlags (c : Byte) (flags : PrintfFlags) : PrintfParseStatus × PrintfFlags :=
  if c = chr '0' then (.continue, { flags with padZero := true })
  else if c = chr '-' ∨ c = chr '+' ∨ c = chr ' ' ∨ c = chr '#' then (.continue, flags)
  else (.done, flags)

/-- `l` and `h` may come twice. Any other second length is invalid. -/
def printfParseLength (c : Byte) (length : PrintfLengthSpecifier) :
    PrintfParseStatus × PrintfLengthSpecifier :=
  if c = chr 'l' then
    if length = .l then (.continue, .ll)
    else if length ≠ .none then (.invalid, length) else (.continue, .l)
  else if c = chr 'h' then
    if length = .h then (.continue, .hh)
    else if length ≠ .none then (.invalid, length) else (.continue, .h)
  else if c = chr 'j' then if length ≠ .none then (.invalid, length) else (.continue, .j)
  else if c = chr 'z' then if length ≠ .none then (.invalid, length) else (.continue, .z)
  else if c = chr 't' then if length ≠ .none then (.invalid, length) else (.continue, .t)
  else if c = chr 'L' then if length ≠ .none then (.invalid, length) else (.continue, .L)
  else (.done, length)

/-- Each round shifts the buffer up by one from `i` on and puts the padding there, so the padding ends
    up before the text. -/
def printfPad (c : Byte) : (rounds : Nat) → List Byte → List Byte
  | 0, buf => buf
  | rounds + 1, buf => c :: printfPad c rounds buf

def printfApplyFlagsAndWidth (buf : List Byte) (bufmax : Nat) (flags : PrintfFlags) (width : Nat) :
    List Byte :=
  let width := if bufmax < width then bufmax else width
  if buf.length < width then
    printfPad (if flags.padZero then chr '0' else chr ' ') (width - buf.length) buf
  else buf

/-- The flag loop. It returns the flags and the rest of the format, the first other byte included. -/
def printfFlags : List Byte → PrintfFlags → Exec (PrintfFlags × List Byte)
  | [], _ => .error .fault
  | c :: fmt, flags =>
    match printfParseFlags c flags with
    | (.continue, flags) => printfFlags fmt flags
    | (_, flags) => .ok (flags, c :: fmt)

def printfWidthDigits : List Byte → BitVec 16 → Exec (BitVec 16 × List Byte)
  | [], _ => .error .fault
  | c :: fmt, width =>
    if isdigit c then printfWidthDigits fmt (width * 10 + (c - chr '0').setWidth 16)
    else .ok (width, c :: fmt)

def printfWidth (fmt : List Byte) (args : List VaArg) :
    Exec (BitVec 16 × List Byte × List VaArg) :=
  match fmt with
  | [] => .error .fault
  | c :: rest =>
    if c = chr '*' then do
      let (value, args) ← vaWord args
      pure (value.setWidth 16, rest, args)
    else do
      let (width, fmt) ← printfWidthDigits fmt 0
      pure (width, fmt, args)

def printfPrecisionDigits : List Byte → BitVec 64 → Exec (BitVec 64 × List Byte)
  | [], _ => .error .fault
  | c :: fmt, precision =>
    if isdigit c then printfPrecisionDigits fmt (precision * 10 + (c - chr '0').setWidth 64)
    else .ok (precision, c :: fmt)

/-- After a `*` the format is not moved past it. -/
def printfPrecision (fmt : List Byte) (args : List VaArg) :
    Exec (BitVec 64 × List Byte × List VaArg) :=
  match fmt with
  | [] => .error .fault
  | c :: rest =>
    if c = chr '.' then
      match rest with
      | [] => .error .fault
      | d :: _ =>
        if d = chr '*' then do
          let (value, args) ← vaWord args
          pure (value.setWidth 64, rest, args)
        else do
          let (precision, fmt) ← printfPrecisionDigits rest 0
          pure (precision, fmt, args)
    else .ok (-1, fmt, args)

/-- The length loop. `none` says that the length is invalid; the format is then still at it. -/
def printfLength : List Byte → PrintfLengthSpecifier →
    Exec (Option PrintfLengthSpecifier × List Byte)
  | [], _ => .error .fault
  | c :: fmt, length =>
    match printfParseLength c length with
    | (.invalid, _) => .ok (none, c :: fmt)
    | (.continue, length) => printfLength fmt length
    | (.done, length) => .ok (some length, c :: fmt)

/-- What a conversion wants to write: `outbuf`, which is readable up to its terminator, and
    `outbuf_len`. -/
structure Outbuf where
  bytes : List Byte
  len : Nat

def Outbuf.ofText (text : List Byte) : Outbuf := ⟨text ++ [0], text.length⟩

/-- `%d` and `%i`. -/
def printfSigned (length : PrintfLengthSpecifier) (args : List VaArg) :
    Exec (List Byte × List VaArg) :=
  match length with
  | .l => do
    let (value, args) ← vaWord args
    pure (ltoa value 10, args)
  | .ll => do
    let (value, args) ← vaDword args
    pure (lltoa value 10, args)
  | _ => do
    let (value, args) ← vaWord args
    pure (itoa value 10, args)

/-- `%x` and `%X`. -/
def printfHex (length : PrintfLengthSpecifier) (args : List VaArg) :
    Exec (List Byte × List VaArg) :=
  match length with
  | .l => do
    let (value, args) ← vaWord args
    pure (ultoa value 16, args)
  | .ll => do
    let (value, args) ← vaDword args
    pure (ulltoa value 16, args)
  | _ => do
    let (value, args) ← vaWord args
    pure (utoa value 16, args)

/-- `%u`. For `j`, `t` and `L` the buffer stays empty. -/
def printfUnsigned (length : PrintfLengthSpecifier) (args : List VaArg) :
    Exec (List Byte × List VaArg) :=
  match length with
  | .l => do
    let (value, args) ← vaWord args
    pure (ultoa value 10, args)
  | .ll => do
    let (value, args) ← vaDword args
    pure (ulltoa value 10, args)
  | .j | .t | .L => .ok ([], args)
  | _ => do
    let (value, args) ← vaWord args
    pure (utoa value 10, args)

def vaReal (length : PrintfLengthSpecifier) (args : List VaArg) :
    Exec ((Nat → List Byte) × List VaArg) :=
  if length = .L then vaLongDouble args else vaDouble args

/-- `%f` and `%F`. -/
def printfReal (length : PrintfLengthSpecifier) (precision : BitVec 64) (args : List VaArg) :
    Exec (List Byte × List VaArg) := do
  let (text, args) ← vaReal length args
  let digits := if precision ≠ -1 then (precision.setWidth 32).toNat else 6
  pure (text (min digits 21), args)

def printfString (precision : BitVec 64) (args : List VaArg) : Exec (Outbuf × List VaArg) := do
  let (bytes, args) ← vaString args
  let text ← cstring bytes
  if precision ≠ -1 ∧ (precision.setWidth 32).toNat ≤ text.length then
    pure (⟨bytes, (precision.setWidth 32).toNat⟩, args)
  else pure (⟨bytes, text.length⟩, args)

/-- The switch over the specifier. Any other one leaves `tmpbuf` and the arguments alone. -/
def printfSpecifier (spec : Byte) (flags : PrintfFlags) (width : BitVec 16) (precision : BitVec 64)
    (length : PrintfLengthSpecifier) (args : List VaArg) : Exec (Outbuf × List VaArg) :=
  if spec = chr 'i' ∨ spec = chr 'd' then do
    let (text, args) ← printfSigned length args
    pure (.ofText (printfApplyFlagsAndWidth text 21 flags width.toNat), args)
  else if spec = chr 'x' ∨ spec = chr 'X' then do
    let (text, args) ← printfHex length args
    pure (.ofText (printfApplyFlagsAndWidth text 21 flags width.toNat), args)
  else if spec = chr 'p' then do
    let (value, args) ← vaWord args
    pure (.ofText (printfApplyFlagsAndWidth (ultoa value 16) 21 ⟨true⟩ 8), args)
  else if spec = chr 'u' then do
    let (text, args) ← printfUnsigned length args
    pure (.ofText (printfApplyFlagsAndWidth text 21 flags width.toNat), args)
  else if spec = chr 'F' ∨ spec = chr 'f' then do
    let (text, args) ← printfReal length precision args
    pure (.ofText (printfApplyFlagsAndWidth text 42 flags width.toNat), args)
  else if spec = chr 's' then printfString precision args
  else if spec = chr 'c' then do
    let (value, args) ← vaWord args
    pure (⟨[value.setWidth 8, 0], 1⟩, args)
  else pure (⟨[0], 0⟩, args)

/-- A conversion from behind its `%` on. It returns the rest of the format from behind the byte that
    ended it. There is no `Outbuf` if the length was invalid. -/
def printfConversion (fmt : List Byte) (args : List VaArg) :
    Exec (Option Outbuf × List Byte × List VaArg) := do
  let (flags, fmt) ← printfFlags fmt ⟨false⟩
  let (width, fmt, args) ← printfWidth fmt args
  let (precision, fmt, args) ← printfPrecision fmt args
  let (length, fmt) ← printfLength fmt .none
  match length, fmt with
  | _, [] => .error .fault
  | none, _ :: rest => pure (none, rest, args)
  | some length, spec :: rest => do
    let (out, args) ← printfSpecifier spec flags width precision length args
    pure (some out, rest, args)

/-- The loop over the format. `fmt` are the bytes that can be read, which may go on behind the
    terminator. -/
def vsnprintfLoop (n : Nat) : (fuel : Nat) → List Byte → List VaArg → (written : Nat) →
    (Nat → Byte) → Exec (Nat × (Nat → Byte))
  | 0, _, _, _, _ => .error .fuel
  | _ + 1, [], _, _, _ => .error .fault
  | fuel + 1, c :: fmt, args, written, dest =>
    if c = 0 then .ok (written, dest)
    else if n - 1 ≤ written then .ok (written, dest)
    else if c ≠ chr '%' then do
      let dest ← strncat dest (c :: fmt) 1
      vsnprintfLoop n fuel fmt args (written + 1) dest
    else do
      let (out, fmt, args) ← printfConversion fmt args
      match out with
      | none => vsnprintfLoop n fuel fmt args written dest
      | some out =>
        let total := (written + out.len) % 2 ^ 32
        if n - 1 < total then
          let dest ← strncat dest out.bytes (n - 1)
          pure (total, dest)
        else
          let dest ← strncat dest out.bytes out.len
          vsnprintfLoop n fuel fmt args total dest

attribute [grind =] vsnprintfLoop

/-- Every round reads at least one byte of the format. The count is returned as an `int`. -/
def vsnprintf (dest : Nat → Byte) (n : BitVec 32) (fmt : List Byte) (args : List VaArg) :
    Exec (Int × (Nat → Byte)) := do
  let (written, dest) ←
    vsnprintfLoop n.toNat (fmt.length + 1) fmt args 0 (Function.update dest 0 0)
  pure ((BitVec.ofNat 32 written).toInt, dest)

section Rounds

variable {n fuel written : Nat} {c : Byte} {fmt fmt' : List Byte} {args args' : List VaArg}
variable {dest : Nat → Byte} {out : Outbuf}

theorem vsnprintfLoop_full (terminator : ¬ c = 0) (full : n - 1 ≤ written) :
    vsnprintfLoop n (fuel + 1) (c :: fmt) args written dest = .ok (written, dest) := by
  rw [vsnprintfLoop, if_neg terminator, if_pos full]

theorem vsnprintfLoop_literal (terminator : ¬ c = 0) (room : ¬ n - 1 ≤ written)
    (literal : c ≠ chr '%') :
    vsnprintfLoop n (fuel + 1) (c :: fmt) args written dest =
      strncat dest (c :: fmt) 1 >>= vsnprintfLoop n fuel fmt args (written + 1) := by
  rw [vsnprintfLoop, if_neg terminator, if_neg room, if_pos literal]

theorem vsnprintfLoop_stops (terminator : ¬ c = 0) (room : ¬ n - 1 ≤ written)
    (percent : ¬ c ≠ chr '%') {stop : Stop} (converted : printfConversion fmt args = .error stop) :
    vsnprintfLoop n (fuel + 1) (c :: fmt) args written dest = .error stop := by
  rw [vsnprintfLoop, if_neg terminator, if_neg room, if_neg percent, converted]
  rfl

theorem vsnprintfLoop_invalid (terminator : ¬ c = 0) (room : ¬ n - 1 ≤ written)
    (percent : ¬ c ≠ chr '%') (converted : printfConversion fmt args = .ok (none, fmt', args')) :
    vsnprintfLoop n (fuel + 1) (c :: fmt) args written dest =
      vsnprintfLoop n fuel fmt' args' written dest := by
  rw [vsnprintfLoop, if_neg terminator, if_neg room, if_neg percent, converted]
  rfl

/-- The piece that does not fit is the last one. -/
theorem vsnprintfLoop_exceeds (terminator : ¬ c = 0) (room : ¬ n - 1 ≤ written)
    (percent : ¬ c ≠ chr '%')
    (converted : printfConversion fmt args = .ok (some out, fmt', args'))
    (small : written + out.len < 2 ^ 32) (exceeds : n - 1 < written + out.len) :
    vsnprintfLoop n (fuel + 1) (c :: fmt) args written dest =
      strncat dest out.bytes (n - 1) >>= fun dest => pure (written + out.len, dest) := by
  rw [vsnprintfLoop, if_neg terminator, if_neg room, if_neg percent, converted, Exec.ok_bind]
  dsimp only
  rw [Nat.mod_eq_of_lt small, if_pos exceeds]

theorem vsnprintfLoop_fits (terminator : ¬ c = 0) (room : ¬ n - 1 ≤ written)
    (percent : ¬ c ≠ chr '%')
    (converted : printfConversion fmt args = .ok (some out, fmt', args'))
    (small : written + out.len < 2 ^ 32) (fits : written + out.len ≤ n - 1) :
    vsnprintfLoop n (fuel + 1) (c :: fmt) args written dest =
      strncat dest out.bytes out.len >>=
        vsnprintfLoop n fuel fmt' args' (written + out.len) := by
  rw [vsnprintfLoop, if_neg terminator, if_neg room, if_neg percent, converted, Exec.ok_bind]
  dsimp only
  rw [Nat.mod_eq_of_lt small, if_neg (Nat.not_lt.mpr fits)]

end Rounds

end Dxgmx
