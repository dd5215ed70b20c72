import Mathlib.Algebra.Group.Nat.Defs
import Mathlib.Tactic.Common

namespace Dxgmx

abbrev Ptr := BitVec 32

instance lawfulBEq_ptr : LawfulBEq Ptr := inferInstance

def pageSize : Nat := 4096

structure MemoryRegion where
  start : BitVec 64
  size : BitVec 64
  perms : BitVec 8
  deriving DecidableEq, Repr

def MemoryRegion.finish (r : MemoryRegion) : Nat := r.start.toNat + r.size.toNat

structure Heap where
  vaddr : Ptr
  pagespan : BitVec 32
  fits : vaddr.toNat + pagespan.toNat * pageSize ≤ 2 ^ 32

end Dxgmx
