import Dxgmx.User.Access

namespace Dxgmx

/-- What reading a file of a ramfs uses of its vnode and of its `RamFsFileData`: the size, and the
    memory from `data` on. -/
structure RamfsFile where
  size : BitVec 32
  data : Nat → Byte

/-- The result of `user_copy_to` is dropped. -/
def ramfsRead {μ : Type} (file : RamfsFile) (userCopyTo : (Nat → Byte) → Nat → μ → Int × μ)
    (n off : BitVec 32) (mem : μ) : Int × μ :=
  if n = 0 ∨ file.size ≤ off then (0, mem)
  else
    let n := min n.toNat (file.size - off).toNat
    let (_, mem) := userCopyTo (fun m => file.data (off.toNat + m)) n mem
    ((BitVec.ofNat 32 n).toInt, mem)

end Dxgmx
