import Mathlib.Data.BitVec
import Mathlib.Tactic.Common
import Dxgmx.Kstdlib.String

namespace Dxgmx

def bytesAlignUp64 (n alignment : BitVec 64) : BitVec 64 :=
  if n % alignment = 0 then n else n + (alignment - n % alignment)

def bytesAlignDown64 (n alignment : BitVec 64) : BitVec 64 := n - n % alignment

theorem bytesAlignUp64_toNat (n alignment : BitVec 64) (positive : 0 < alignment.toNat)
    (room : n.toNat + alignment.toNat ≤ 2 ^ 64) :
    (bytesAlignUp64 n alignment).toNat =
      (n.toNat + alignment.toNat - 1) / alignment.toNat * alignment.toNat := by
  have split := Nat.div_add_mod n.toNat alignment.toNat
  have small := Nat.mod_lt n.toNat positive
  unfold bytesAlignUp64
  by_cases aligned : n % alignment = 0
  · have rest : n.toNat % alignment.toNat = 0 := congrArg BitVec.toNat aligned
    have shape : n.toNat + alignment.toNat - 1 =
        alignment.toNat - 1 + alignment.toNat * (n.toNat / alignment.toNat) := by omega
    rw [if_pos aligned, shape, Nat.add_mul_div_left _ _ positive, Nat.div_eq_of_lt (by omega),
      Nat.zero_add, Nat.mul_comm]
    omega
  · have rest : n.toNat % alignment.toNat ≠ 0 := fun zero => aligned (BitVec.eq_of_toNat_eq zero)
    have shape : n.toNat + alignment.toNat - 1 = n.toNat % alignment.toNat - 1 +
        alignment.toNat * (n.toNat / alignment.toNat + 1) := by
      rw [Nat.mul_add]
      omega
    have modulus : (n % alignment).toNat = n.toNat % alignment.toNat := BitVec.toNat_umod
    have gap : (alignment - n % alignment).toNat =
        alignment.toNat - n.toNat % alignment.toNat := by
      rw [BitVec.toNat_sub_of_le (by rw [BitVec.le_def]; omega), modulus]
    rw [if_neg aligned, shape, Nat.add_mul_div_left _ _ positive, Nat.div_eq_of_lt (by omega),
      Nat.zero_add, BitVec.toNat_add, gap, Nat.add_mul, Nat.mul_comm _ alignment.toNat]
    rw [Nat.one_mul, Nat.mod_eq_of_lt (by omega)]
    omega

/-- A `u16` in memory, the lowest byte first. -/
def readU16 (buf : Nat → Byte) (off : Nat) : BitVec 16 :=
  BitVec.ofNat 16 ((buf off).toNat + (buf (off + 1)).toNat * 2 ^ 8)

/-- A `u32` in memory, the lowest byte first. -/
def readU32 (buf : Nat → Byte) (off : Nat) : Nat :=
  (buf off).toNat + (buf (off + 1)).toNat * 2 ^ 8 + (buf (off + 2)).toNat * 2 ^ 16 +
    (buf (off + 3)).toNat * 2 ^ 24

/-- Storing a `u32`. -/
def writeU32 (mem : Nat → Byte) (addr value : Nat) : Nat → Byte := fun a =>
  if addr ≤ a ∧ a < addr + 4 then BitVec.ofNat 8 (value / 2 ^ (8 * (a - addr))) else mem a

def writeU32s (mem : Nat → Byte) (addr : Nat) : List Nat → Nat → Byte
  | [] => mem
  | value :: rest => writeU32s (writeU32 mem addr value) (addr + 4) rest

theorem readU32_congr {mem mem' : Nat → Byte} {addr : Nat}
    (same : ∀ a, addr ≤ a → a < addr + 4 → mem a = mem' a) :
    readU32 mem addr = readU32 mem' addr := by
  unfold readU32
  rw [same addr (by omega) (by omega), same (addr + 1) (by omega) (by omega),
    same (addr + 2) (by omega) (by omega), same (addr + 3) (by omega) (by omega)]

theorem writeU32_outside (mem : Nat → Byte) {addr a : Nat} (value : Nat)
    (outside : a < addr ∨ addr + 4 ≤ a) : writeU32 mem addr value a = mem a :=
  if_neg (by omega)

theorem writeU32_byte (mem : Nat → Byte) (addr value : Nat) {i : Nat} (inside : i < 4) :
    writeU32 mem addr value (addr + i) = BitVec.ofNat 8 (value / 2 ^ (8 * i)) := by
  unfold writeU32
  rw [if_pos (by omega), Nat.add_sub_cancel_left]

theorem readU32_writeU32 (mem : Nat → Byte) (addr : Nat) {value : Nat} (small : value < 2 ^ 32) :
    readU32 (writeU32 mem addr value) addr = value := by
  have first := writeU32_byte mem addr value (show 0 < 4 by decide)
  rw [Nat.add_zero] at first
  unfold readU32
  rw [first, writeU32_byte mem addr value (show 1 < 4 by decide),
    writeU32_byte mem addr value (show 2 < 4 by decide),
    writeU32_byte mem addr value (show 3 < 4 by decide)]
  simp only [BitVec.toNat_ofNat]
  omega

theorem writeU32s_outside (mem : Nat → Byte) {addr a : Nat} (values : List Nat)
    (outside : a < addr ∨ addr + 4 * values.length ≤ a) : writeU32s mem addr values a = mem a := by
  induction values generalizing mem addr with
  | nil => rfl
  | cons value rest ih =>
    rw [List.length_cons] at outside
    rw [writeU32s, ih _ (by omega), writeU32_outside _ _ (by omega)]

theorem readU32_writeU32s (mem : Nat → Byte) (addr : Nat) (values : List Nat)
    (small : ∀ value ∈ values, value < 2 ^ 32) (i : Nat) (inside : i < values.length) :
    readU32 (writeU32s mem addr values) (addr + 4 * i) = values[i] := by
  induction values generalizing mem addr i with
  | nil => simp at inside
  | cons value rest ih =>
    rw [List.forall_mem_cons] at small
    rw [writeU32s]
    cases i with
    | zero =>
      have first : readU32 (writeU32s (writeU32 mem addr value) (addr + 4) rest) addr = value := by
        refine Eq.trans (readU32_congr fun a _ high => ?_) (readU32_writeU32 mem addr small.1)
        exact writeU32s_outside _ _ (.inl high)
      exact first
    | succ i =>
      have later := ih (writeU32 mem addr value) (addr + 4) small.2 i (by simpa using inside)
      rw [show addr + 4 + 4 * i = addr + 4 * (i + 1) by omega] at later
      exact later

end Dxgmx
