import Mathlib.Data.BitVec
import Mathlib.Logic.Function.Basic
import Dxgmx.Kstdlib.String
import Dxgmx.Mem.Region

namespace Dxgmx

/-- The pages that `.useraccess` code can read and write. Any other access of it ends in
    `user_access_fault_stub`. -/
structure PageRights where
  readable : BitVec 20 → Bool
  writable : BitVec 20 → Bool

def pageOf (addr : Ptr) : BitVec 20 := addr.extractLsb' 12 20

def PageRights.mayRead (space : PageRights) (addr : Ptr) : Bool := space.readable (pageOf addr)

def PageRights.mayWrite (space : PageRights) (addr : Ptr) : Bool := space.writable (pageOf addr)

/-- A `mov` to a register of 32 bits loads four bytes. -/
def PageRights.mayReadLong (space : PageRights) (addr : Ptr) : Bool :=
  space.mayRead addr && space.mayRead (addr + 1) && space.mayRead (addr + 2) &&
    space.mayRead (addr + 3)

def longAt (mem : Ptr → Byte) (addr : Ptr) : BitVec 32 :=
  mem (addr + 3) ++ mem (addr + 2) ++ mem (addr + 1) ++ mem addr

def efault : BitVec 32 := -14

theorem left_decreases {n ecx : BitVec 32} (differs : ecx ≠ n) :
    (n - (ecx + 1)).toNat < (n - ecx).toNat := by
  bv_omega

/-- The loop of `user_copy_to` and `user_copy_from`, which hold the two pointers in each other's
    register. -/
def userCopyLoop (space : PageRights) (n ecx dest src : BitVec 32) (mem : Ptr → Byte) :
    BitVec 32 × (Ptr → Byte) :=
  if n ≤ ecx then (0, mem)
  else if space.mayReadLong src = false then (efault, mem)
  else if space.mayWrite dest = false then (efault, mem)
  else
    userCopyLoop space n (ecx + 1) (dest + 1) (src + 1)
      (Function.update mem dest ((longAt mem src).setWidth 8))
termination_by (n - ecx).toNat
decreasing_by exact left_decreases (by bv_omega)

def userCopyFrom32 (space : PageRights) (src dest n : BitVec 32) (mem : Ptr → Byte) :
    BitVec 32 × (Ptr → Byte) :=
  userCopyLoop space n 0 dest src mem

/-- The counter is compared with `maxn` as a signed number, after the byte is copied. -/
def userCopyStrFromLoop (space : PageRights) (maxn ecx src dest : BitVec 32) (mem : Ptr → Byte) :
    BitVec 32 × (Ptr → Byte) :=
  if space.mayReadLong src = false then (efault, mem)
  else
    let al : Byte := (longAt mem src).setWidth 8
    if space.mayWrite dest = false then (efault, mem)
    else if al = 0 then (0, Function.update mem dest al)
    else if (ecx + 1).slt maxn then
      userCopyStrFromLoop space maxn (ecx + 1) (src + 1) (dest + 1) (Function.update mem dest al)
    else (0, Function.update (Function.update mem dest al) dest 0)
termination_by (maxn - (ecx + 1)).toNat
decreasing_by
  rename_i continues
  apply left_decreases
  intro same
  rw [same, BitVec.slt_iff_toInt_lt] at continues
  exact lt_irrefl _ continues

def userCopyStrFrom32 (space : PageRights) (src dest maxn : BitVec 32) (mem : Ptr → Byte) :
    BitVec 32 × (Ptr → Byte) :=
  if maxn = 0 then (0, mem) else userCopyStrFromLoop space maxn 0 src dest mem

def userStrnlenLoop (space : PageRights) (n ecx str : BitVec 32) (mem : Ptr → Byte) : BitVec 32 :=
  if n ≤ ecx then ecx
  else if space.mayReadLong str = false then efault
  else if (longAt mem str).setWidth 8 = (0 : Byte) then ecx
  else userStrnlenLoop space n (ecx + 1) (str + 1) mem
termination_by (n - ecx).toNat
decreasing_by exact left_decreases (by bv_omega)

def userStrnlen32 (space : PageRights) (str n : BitVec 32) (mem : Ptr → Byte) : BitVec 32 :=
  userStrnlenLoop space n 0 str mem

theorem setWidth_append_low {high low : Nat} (x : BitVec high) (y : BitVec low) :
    (x ++ y).setWidth low = y := by
  rw [BitVec.setWidth_append, dif_pos (Nat.le_refl low), BitVec.setWidth_eq]

@[simp] theorem longAt_low (mem : Ptr → Byte) (addr : Ptr) :
    (longAt mem addr).setWidth 8 = mem addr :=
  setWidth_append_low (mem (addr + 3) ++ mem (addr + 2) ++ mem (addr + 1)) (mem addr)

end Dxgmx
