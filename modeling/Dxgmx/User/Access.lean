import Dxgmx.Kstdlib.String
import Dxgmx.Mem.Region

namespace Dxgmx

/-- The memory of the running process. `stored` is a ghost: the addresses stored to so far. -/
structure Memory where
  bytes : Ptr → Byte
  stored : List Ptr

def Memory.store (mem : Memory) (addr : Ptr) (byte : Byte) : Memory where
  bytes := fun a => if a = addr then byte else mem.bytes a
  stored := mem.stored ++ [addr]

/-- Which accesses the processor lets through, also those that go through after the page fault
    handler has mapped a page of the kernel heap. Any other access of `.useraccess` code ends in
    `user_access_fault_stub`. -/
structure UserAccess where
  /-- The load of four bytes from byte `i` of the source on. -/
  loads : Nat → Bool
  stores : Ptr → Bool

def userCopyToLoop (access : UserAccess) (dest : Ptr) (src : Nat → Byte) :
    (left ecx : Nat) → Memory → Int × Memory
  | 0, _, mem => (0, mem)
  | left + 1, ecx, mem =>
    if access.loads ecx = false then (-14, mem)
    else if access.stores (dest + BitVec.ofNat 32 ecx) = false then (-14, mem)
    else userCopyToLoop access dest src left (ecx + 1)
      (mem.store (dest + BitVec.ofNat 32 ecx) (src ecx))

def userCopyTo (access : UserAccess) (dest : Ptr) (src : Nat → Byte) (n : Nat) (mem : Memory) :
    Int × Memory :=
  userCopyToLoop access dest src n 0 mem

def procHighAddress : Nat := 0xc0000000

def InKernel (addr : Ptr) : Prop := procHighAddress ≤ addr.toNat

/-- Byte `i` of the copy is loaded and stored. -/
def UserAccess.Passes (access : UserAccess) (dest : Ptr) (i : Nat) : Prop :=
  access.loads i = true ∧ access.stores (dest + BitVec.ofNat 32 i) = true

theorem mem_store (mem : Memory) (addr other : Ptr) (byte : Byte) :
    other ∈ (mem.store addr byte).stored ↔ other ∈ mem.stored ∨ other = addr := by
  simp [Memory.store]

theorem userCopyToLoop_stored (access : UserAccess) (dest : Ptr) (src : Nat → Byte)
    (left ecx : Nat) (mem : Memory) (addr : Ptr) :
    addr ∈ (userCopyToLoop access dest src left ecx mem).2.stored ↔
      addr ∈ mem.stored ∨ ∃ i < left, addr = dest + BitVec.ofNat 32 (ecx + i) ∧
        ∀ j ≤ i, access.Passes dest (ecx + j) := by
  induction left generalizing ecx mem with
  | zero => simp [userCopyToLoop]
  | succ left ih =>
    by_cases passes : access.Passes dest ecx
    · rw [userCopyToLoop, if_neg (by simp [passes.1]), if_neg (by simp [passes.2]), ih, mem_store]
      constructor
      · rintro ((before | rfl) | ⟨i, inside, rfl, through⟩)
        · exact .inl before
        · refine .inr ⟨0, by omega, rfl, fun j first => ?_⟩
          rw [Nat.le_zero.mp first]
          exact passes
        · refine .inr ⟨i + 1, by omega, by rw [Nat.add_right_comm, Nat.add_assoc], fun j upTo => ?_⟩
          rcases j with _ | j
          · exact passes
          · have later := through j (by omega)
            rw [Nat.add_right_comm] at later
            exact later
      · rintro (before | ⟨i, inside, rfl, through⟩)
        · exact .inl (.inl before)
        · rcases i with _ | i
          · exact .inl (.inr rfl)
          · refine .inr ⟨i, by omega, by rw [Nat.add_right_comm, Nat.add_assoc], fun j upTo => ?_⟩
            rw [Nat.add_right_comm]
            exact through (j + 1) (by omega)
    · have stopped : (userCopyToLoop access dest src (left + 1) ecx mem).2 = mem := by
        rw [userCopyToLoop]
        split
        · rfl
        · split
          · rfl
          · rename_i loads stores
            exact absurd ⟨by simpa using loads, by simpa using stores⟩ passes
      rw [stopped]
      constructor
      · exact .inl
      · rintro (before | ⟨i, -, -, through⟩)
        · exact before
        · exact absurd (through 0 (Nat.zero_le i)) passes

theorem userCopyTo_stored (access : UserAccess) (dest : Ptr) (src : Nat → Byte) (n : Nat)
    (mem : Memory) (addr : Ptr) :
    addr ∈ (userCopyTo access dest src n mem).2.stored ↔
      addr ∈ mem.stored ∨ ∃ i < n, addr = dest + BitVec.ofNat 32 i ∧
        ∀ j ≤ i, access.Passes dest j := by
  unfold userCopyTo
  rw [userCopyToLoop_stored]
  simp only [Nat.zero_add]

theorem userCopyToLoop_frame (access : UserAccess) (dest : Ptr) (src : Nat → Byte)
    (left ecx : Nat) (mem : Memory) {addr : Ptr}
    (untouched : addr ∉ (userCopyToLoop access dest src left ecx mem).2.stored) :
    (userCopyToLoop access dest src left ecx mem).2.bytes addr = mem.bytes addr := by
  induction left generalizing ecx mem with
  | zero => rfl
  | succ left ih =>
    rw [userCopyToLoop] at untouched ⊢
    split
    · rfl
    · split
      · rfl
      · rename_i loads stores
        rw [if_neg loads, if_neg stores] at untouched
        rw [ih _ _ untouched]
        have elsewhere : addr ≠ dest + BitVec.ofNat 32 ecx := by
          rintro rfl
          apply untouched
          rw [userCopyToLoop_stored, mem_store]
          exact .inl (.inr rfl)
        exact if_neg elsewhere

end Dxgmx
