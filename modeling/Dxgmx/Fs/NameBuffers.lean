import Mathlib.Data.Nat.Digits.Lemmas
import Dxgmx.Library.Buffer
import Dxgmx.Fs.Devfs
import Dxgmx.Storage.Blkdevm

open Library

namespace Dxgmx

def strcpyTo (dest : Buffer Byte) (text : List Byte) : Exec (Buffer Byte) :=
  dest.storeAll 0 (text ++ [0])

def strcatTo (dest : Buffer Byte) (text : List Byte) : Exec (Buffer Byte) := do
  let place ← dest.find 0
  dest.storeAll place (text ++ [0])

/-- The size that `devfs_register` asks for. `!=` binds the least, and `char` is signed. -/
def devfsFullnameSize (name : List Byte) : Nat :=
  if BitVec.ofNat 32 name.length + 1 + (name.headD 0).signExtend 32 ≠ 47 then 1 else 0

def devfsFullname (name : List Byte) (fullname : Buffer Byte) : Exec (Buffer Byte) :=
  if name.head? ≠ some slash then do
    let fullname ← strcpyTo fullname [slash]
    strcatTo fullname name
  else strcatTo fullname name

/-- `kmalloc` answers a request for nothing with the null pointer. -/
def devfsRegisterFullname (mem : Bool) (name : List Byte) : Exec (Option (Buffer Byte)) :=
  if devfsFullnameSize name = 0 ∨ mem = false then .ok none
  else do
    let fullname ← devfsFullname name (List.replicate (devfsFullnameSize name) none)
    pure (some fullname)

/-- The loop that counts digits. 32 bits have no more than 32 digits. -/
def digCountLoop : (rounds tmpn : Nat) → Nat
  | 0, _ => 0
  | rounds + 1, tmpn => if tmpn = 0 then 0 else digCountLoop rounds (tmpn / 10) + 1

def partitionSuffixSize (n : BitVec 32) : Nat := digCountLoop 32 n.toNat + 2

def partitionFillSuffix (n : BitVec 32) (suffix : Buffer Byte) : Exec (Buffer Byte) := do
  let suffix ← suffix.store 0 0x70
  suffix.storeAll 1 (itoa n 10 ++ [0])

def partitionGenerateSuffixBuffer (mem : Bool) (n : BitVec 32) : Exec (Option (Buffer Byte)) :=
  if mem = false then .ok none
  else do
    let suffix ← partitionFillSuffix n (List.replicate (partitionSuffixSize n) (some 0))
    pure (some suffix)

section

variable {name : List Byte} {b middle : Buffer Byte}

theorem strcpyTo_slash (copied : strcpyTo b [slash] = .ok middle) :
    middle.find 0 = .ok 1 ∧ middle.length = b.length := by
  have cells := Buffer.storeAll_getElem? copied
  refine ⟨Buffer.find_ok (fun i inside => ⟨slash, by decide, ?_⟩) (cells 1), Buffer.storeAll_length copied⟩
  rw [Nat.lt_one_iff.mp inside]
  exact cells 0

theorem devfsFullname_ok_iff (relative : name.head? ≠ some slash) :
    (∃ b', devfsFullname name b = .ok b') ↔ name.length + 2 ≤ b.length := by
  unfold devfsFullname strcatTo
  rw [if_pos relative]
  have size : (name ++ [0]).length = name.length + 1 := by simp
  constructor
  · rintro ⟨b', call⟩
    obtain ⟨middle, copied, rest⟩ := Exec.bind_ok.mp call
    obtain ⟨place, found, stored⟩ := Exec.bind_ok.mp rest
    rcases strcpyTo_slash copied with ⟨start, same⟩
    cases found.symm.trans start
    rcases Buffer.storeAll_ok_iff.mp ⟨b', stored⟩ with none | room
    · simp at none
    · omega
  · intro room
    obtain ⟨middle, copied⟩ : ∃ middle, strcpyTo b [slash] = .ok middle :=
      Buffer.storeAll_ok_iff.mpr (.inr (by simp; omega))
    rcases strcpyTo_slash copied with ⟨start, same⟩
    obtain ⟨b', stored⟩ : ∃ b', middle.storeAll 1 (name ++ [0]) = .ok b' :=
      Buffer.storeAll_ok_iff.mpr (.inr (by omega))
    refine ⟨b', ?_⟩
    rw [copied, Exec.ok_bind, start]
    exact stored

theorem devfsFullname_holds (relative : name.head? ≠ some slash) {b' : Buffer Byte}
    (call : devfsFullname name b = .ok b') {i : Nat} (inside : i < name.length + 2) :
    b'[i]? = (slash :: name ++ [0])[i]?.map some := by
  unfold devfsFullname strcatTo at call
  rw [if_pos relative] at call
  obtain ⟨middle, copied, rest⟩ := Exec.bind_ok.mp call
  obtain ⟨place, found, stored⟩ := Exec.bind_ok.mp rest
  rcases strcpyTo_slash copied with ⟨start, -⟩
  cases found.symm.trans start
  rw [Buffer.storeAll_getElem? stored]
  cases i with
  | zero => exact Buffer.storeAll_getElem? copied 0
  | succ i =>
    rw [if_pos ⟨by omega, by simp; omega⟩]
    rfl

theorem digCountLoop_eq (rounds : Nat) {n : Nat} (bound : n < 10 ^ rounds) :
    digCountLoop rounds n = (Nat.digits 10 n).length := by
  induction rounds generalizing n with
  | zero =>
    rw [Nat.lt_one_iff.mp bound]
    rfl
  | succ rounds ih =>
    unfold digCountLoop
    split_ifs with zero
    · rw [zero]
      rfl
    · rw [Nat.digits_def' (by decide) (Nat.pos_of_ne_zero zero), List.length_cons, ih]
      rw [Nat.pow_succ] at bound
      omega

theorem lltoaDigits_length (rounds : Nat) {n : Nat} (bound : n < 10 ^ rounds) :
    (lltoaDigits 10 rounds n).length = (Nat.digits 10 n).length := by
  induction rounds generalizing n with
  | zero =>
    rw [Nat.lt_one_iff.mp bound]
    rfl
  | succ rounds ih =>
    unfold lltoaDigits
    by_cases zero : n = 0
    · rw [zero]
      rfl
    · rw [if_neg (by omega), Nat.digits_def' (by decide) (Nat.pos_of_ne_zero zero),
        List.length_append, List.length_singleton, List.length_cons]
      have quotient : (n : Int).tdiv 10 = (n / 10 : Nat) := rfl
      rw [quotient, ih]
      rw [Nat.pow_succ] at bound
      omega

theorem utoa_length {n : BitVec 32} (some_ : n ≠ 0) :
    (utoa n 10).length = (Nat.digits 10 n.toNat).length := by
  have small := n.isLt
  have wide : n.setWidth 64 ≠ 0 := by
    rw [ne_eq, BitVec.toNat_eq, BitVec.toNat_setWidth_of_le (by decide)]
    exact fun zero => some_ (BitVec.eq_of_toNat_eq zero)
  unfold utoa ultoa ulltoa
  rw [if_neg wide, BitVec.toNat_setWidth_of_le (by decide)]
  exact lltoaDigits_length 64 (by omega)

/-- From 2 GiB on the number is negative as an `int`. -/
theorem itoa_length {n : BitVec 32} (some_ : n ≠ 0) :
    (itoa n 10).length = if n.toNat < 2 ^ 31 then (Nat.digits 10 n.toNat).length
      else (Nat.digits 10 (2 ^ 32 - n.toNat)).length + 1 := by
  have small := n.isLt
  have value := BitVec.toInt_signExtend_of_le (show 32 ≤ 64 by decide) (x := n)
  have wide : n.signExtend 64 ≠ 0 := by
    intro zero
    rw [zero] at value
    exact some_ (BitVec.eq_of_toInt_eq value.symm)
  unfold itoa ltoa lltoa
  rw [if_neg wide, value]
  split_ifs with negative high high
  · have := BitVec.toInt_eq_toNat_of_lt (x := n) (by omega)
    omega
  · have minus : (llabs (n.signExtend 64)).toInt = (2 ^ 32 - n.toNat : Nat) := by
      have whole := BitVec.toInt_eq_toNat_cond n
      unfold llabs
      rw [value, if_pos negative, BitVec.toInt_neg, value, Int.bmod_eq_of_le (by omega) (by omega)]
      omega
    rw [List.length_cons, minus]
    congr 1
    exact lltoaDigits_length 64 (by omega)
  · rw [BitVec.toInt_eq_toNat_of_lt (by omega)]
    exact lltoaDigits_length 64 (by omega)
  · have := BitVec.toInt_eq_toNat_cond n
    omega

end

theorem devfsRegisterFullname_iff (mem : Bool) (name : List Byte) :
    (∃ result, devfsRegisterFullname mem name = .ok result) ↔
      mem = false ∨ devfsFullnameSize name = 0 := by
  unfold devfsRegisterFullname
  constructor
  · rintro ⟨result, call⟩
    by_contra given
    rw [if_neg (by tauto)] at call
    obtain ⟨b, filled, -⟩ := Exec.bind_ok.mp call
    have one : devfsFullnameSize name = 1 := by
      unfold devfsFullnameSize at *
      split_ifs at * <;> tauto
    rw [one] at filled
    by_cases relative : name.head? = some slash
    · -- the search for the end starts in a cell that was never stored in
      unfold devfsFullname at filled
      rw [if_neg (not_not.mpr relative)] at filled
      cases filled
    · have room := (devfsFullname_ok_iff relative).mp ⟨b, filled⟩
      rw [List.length_replicate] at room
      omega
  · intro none
    exact ⟨_, if_pos none.symm⟩

theorem partitionFillSuffix_iff (n : BitVec 32) (b : Buffer Byte) :
    (∃ b', partitionFillSuffix n b = .ok b') ↔ (itoa n 10).length + 2 ≤ b.length := by
  have size : (itoa n 10 ++ [0]).length = (itoa n 10).length + 1 := by simp
  unfold partitionFillSuffix
  constructor
  · rintro ⟨b', call⟩
    obtain ⟨middle, first, stored⟩ := Exec.bind_ok.mp call
    rcases Buffer.store_ok.mp first with ⟨-, rfl⟩
    rcases Buffer.storeAll_ok_iff.mp ⟨b', stored⟩ with none | room
    · simp at none
    · rw [List.length_set] at room
      omega
  · intro room
    obtain ⟨b', stored⟩ : ∃ b', Buffer.storeAll (b.set 0 (some 0x70)) 1 (itoa n 10 ++ [0]) = .ok b' :=
      Buffer.storeAll_ok_iff.mpr (.inr (by rw [List.length_set]; omega))
    exact ⟨b', Exec.bind_ok.mpr ⟨_, Buffer.store_ok.mpr ⟨by omega, rfl⟩, stored⟩⟩

theorem partitionFillSuffix_holds {n : BitVec 32} {b b' : Buffer Byte}
    (call : partitionFillSuffix n b = .ok b') {i : Nat} (inside : i < (itoa n 10).length + 2) :
    b'[i]? = (partitionSuffix n.toNat ++ [0])[i]?.map some := by
  obtain ⟨middle, first, stored⟩ := Exec.bind_ok.mp call
  rcases Buffer.store_ok.mp first with ⟨room, rfl⟩
  unfold partitionSuffix
  rw [BitVec.ofNat_toNat, BitVec.setWidth_eq, Buffer.storeAll_getElem? stored]
  cases i with
  | zero =>
    rw [if_neg (by omega), List.getElem?_set_self room]
    rfl
  | succ i =>
    rw [if_pos ⟨by omega, by simp; omega⟩]
    rfl

/-- What `itoa` writes of an index as long as it is no negative `int`, or a short one. -/
theorem itoa_length_le {n : BitVec 32} :
    (itoa n 10).length + 2 ≤ partitionSuffixSize n ↔
      n ≠ 0 ∧ (n.toNat < 2 ^ 31 ∨ 2 ^ 32 - 10 ^ 9 < n.toNat) := by
  have small := n.isLt
  unfold partitionSuffixSize
  rw [digCountLoop_eq 32 (by omega)]
  by_cases zero : n = 0
  · subst zero
    decide
  · rw [itoa_length zero]
    split_ifs with short
    · exact iff_of_true (Nat.le_refl _) ⟨zero, .inl short⟩
    · have ten : (Nat.digits 10 n.toNat).length = 10 := by
        apply Nat.le_antisymm
        · exact (Nat.digits_length_le_iff (by decide) _).mpr (by omega)
        · by_contra fewer
          have nine := (Nat.digits_length_le_iff (show 1 < 10 by decide) n.toNat).mp
            (Nat.le_of_lt_succ (Nat.lt_of_not_le fewer))
          omega
      have nine := Nat.digits_length_le_iff (k := 9) (show 1 < 10 by decide) (2 ^ 32 - n.toNat)
      have fits : (Nat.digits 10 (2 ^ 32 - n.toNat)).length + 1 + 2 ≤ 10 + 2 ↔
          2 ^ 32 - n.toNat < 10 ^ 9 := by
        rw [← nine]
        omega
      rw [ten, fits]
      constructor
      · exact fun close => ⟨zero, .inr (by omega)⟩
      · rintro ⟨-, close⟩
        omega

/-- The first part is about `devfs_register`. Of the others the first compares sizes, and the second
    is about what is written. -/
theorem nameBuffers_iff (mem : Bool) (name : List Byte) (n : BitVec 32) :
    ((∃ result, devfsRegisterFullname mem name = .ok result) ↔
      mem = false ∨ BitVec.ofNat 32 name.length + 1 + (name.headD 0).signExtend 32 = 47) ∧
    ((utoa n 10).length + 2 ≤ partitionSuffixSize n ↔ n ≠ 0) ∧
    ((∃ result, partitionGenerateSuffixBuffer mem n = .ok result) ↔
      mem = false ∨ (n ≠ 0 ∧ (n.toNat < 2 ^ 31 ∨ 2 ^ 32 - 10 ^ 9 < n.toNat))) := by
  have small := n.isLt
  refine ⟨?_, ?_, ?_⟩
  · rw [devfsRegisterFullname_iff]
    apply or_congr_right
    unfold devfsFullnameSize
    split_ifs with other
    · exact iff_of_false (by decide) other
    · exact iff_of_true rfl (not_not.mp other)
  · unfold partitionSuffixSize
    rw [digCountLoop_eq 32 (by omega)]
    by_cases zero : n = 0
    · subst zero
      decide
    · rw [utoa_length zero]
      exact iff_of_true (Nat.le_refl _) zero
  · rw [← itoa_length_le]
    unfold partitionGenerateSuffixBuffer
    cases mem with
    | false => simp
    | true =>
      have fills := partitionFillSuffix_iff n (List.replicate (partitionSuffixSize n) (some 0))
      rw [List.length_replicate] at fills
      rw [or_iff_right (by decide), ← fills, if_neg (by decide)]
      constructor
      · rintro ⟨result, call⟩
        obtain ⟨b, filled, -⟩ := Exec.bind_ok.mp call
        exact ⟨b, filled⟩
      · rintro ⟨b, filled⟩
        exact ⟨some b, Exec.bind_ok.mpr ⟨b, filled, rfl⟩⟩

/-- The name fills five bytes behind the slash, and one is asked for. -/
theorem nameBuffers_overrun :
    devfsRegisterFullname true [0x6e, 0x75, 0x6c, 0x6c] = .error .fault ∧
      ¬(utoa 0 10).length + 2 ≤ partitionSuffixSize 0 ∧
      partitionGenerateSuffixBuffer true 0 = .error .fault := by
  decide

end Dxgmx
