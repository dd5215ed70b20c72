import Dxgmx.Fs.FileOffsets
import Dxgmx.User.UserCopies

open Library

namespace Dxgmx

structure FrameBuffer where
  baseVa : Ptr
  width : BitVec 32
  height : BitVec 32
  bytespp : BitVec 32
  takeover : Bool
  deriving DecidableEq

/-- The bytes of all pixels. -/
def FrameBuffer.bytes (fb : FrameBuffer) : Nat :=
  fb.width.toNat * fb.height.toNat * fb.bytespp.toNat

/-- The address is one of the bytes from `base_va` on. -/
def FrameBuffer.Holds (fb : FrameBuffer) (addr : Ptr) : Prop := (addr - fb.baseVa).toNat < fb.bytes

/-- Each byte of a write at an offset has its place. -/
def FrameBuffer.Fits (fb : FrameBuffer) (off n : BitVec 32) : Prop :=
  ∀ i < n.toNat, off.toNat + i < fb.bytes

/-- The memory. `stored` is a ghost: the addresses that the driver stored to. -/
structure FbWorld where
  mem : Ptr → Byte
  stored : List Ptr

/-- The addresses that `user_copy_from` stores to. -/
def storedTo (space : PageRights) (dest src : Ptr) (n : BitVec 32) : List Ptr :=
  (List.range (copiedBytes space n.toNat dest src)).map fun i => dest + BitVec.ofNat 32 i

def fbVnodeWrite (fb : FrameBuffer) (space : PageRights) (buf : Ptr) (n off : BitVec 32)
    (world : FbWorld) : Int × FbWorld :=
  let fbsize := fb.width * fb.height * fb.bytespp
  if fbsize < off + n then (-28, world)
  else
    let dest := fb.baseVa + off
    let (st, mem) := userCopyFrom32 space buf dest n world.mem
    (st.toInt, ⟨mem, world.stored ++ storedTo space dest buf n⟩)

section Write

variable {μ : Type}

/-- `vfs_write` once the descriptor is found, with the driver's `write`. -/
def vfsWriteSysfd (fs : FileSystems μ)
    (opsWrite : VirtualNodeRef → Ptr → BitVec 32 → BitVec 32 → μ → Int × μ)
    (sysfd : FileDescriptor) (buf : Ptr) (n : BitVec 32) (vfs : Vfs μ) : Exec (Int × Vfs μ) :=
  if fs.mode sysfd.vnode vfs.world &&& 0x4000 ≠ 0 then .ok (-21, vfs)
  else if sysfd.flags &&& 0x2 = 0 then .ok (-9, vfs)
  -- TODO_FATAL
  else if sysfd.flags &&& 0x80 ≠ 0 then .error .panic
  else if n = 0 then .ok (0, vfs)
  else
    let (wr, world) := opsWrite sysfd.vnode buf n sysfd.off vfs.world
    if wr < 0 then .ok (wr, { vfs with world := world })
    else
      let sysfd := { sysfd with off := sysfd.off + BitVec.ofInt 32 wr }
      .ok (wr, { vfs with fdt := vfsFdtStore sysfd vfs.fdt, world := world })

def vfsWrite (fs : FileSystems μ)
    (opsWrite : VirtualNodeRef → Ptr → BitVec 32 → BitVec 32 → μ → Int × μ) (fd : Fd) (buf : Ptr)
    (n : BitVec 32) (proc : Process) (vfs : Vfs μ) : Exec (Int × Vfs μ) :=
  if fd.toInt < 0 then .ok (-22, vfs)
  else
    match vfsFdtGetSysfd fd proc.pid vfs.fdt with
    | none => .ok (-9, vfs.record (.accessed proc.pid fd false (-9)))
    | some sysfd => do
      let (st, vfs) ← vfsWriteSysfd fs opsWrite sysfd buf n vfs
      .ok (st, vfs.record (.accessed proc.pid fd true st))

end Write

/-- A call on the descriptor, with what the process may access then, or a change that others make
    to the memory. -/
inductive FbCall
  | lseek (off whence : BitVec 32)
  | write (space : PageRights) (buf : Ptr) (n : BitVec 32)
  | others (mem : Ptr → Byte)

def FbCall.run (fs : FileSystems FbWorld) (fb : FrameBuffer) (fd : Fd) (proc : Process)
    (vfs : Vfs FbWorld) : FbCall → Exec (Int × Vfs FbWorld)
  | .lseek off whence => .ok (vfsLseek fs fd off whence proc vfs)
  | .write space buf n => vfsWrite fs (fun _ => fbVnodeWrite fb space) fd buf n proc vfs
  | .others mem => .ok (0, { vfs with world := { vfs.world with mem := mem } })

def FbStep (fs : FileSystems FbWorld) (fb : FrameBuffer) (fd : Fd) (proc : Process)
    (vfs : Vfs FbWorld) (call : FbCall) (vfs' : Vfs FbWorld) : Prop :=
  ∃ st, call.run fs fb fd proc vfs = .ok (st, vfs')

/-- What a write that returned `st` should have done. -/
structure WriteRight (fb : FrameBuffer) (sysfd : FileDescriptor) (buf : Ptr) (n : BitVec 32)
    (before : Vfs FbWorld) (st : Int) (stores : List Ptr) (after : Vfs FbWorld) : Prop where
  stored : after.world.stored = before.world.stored ++ stores
  inside : ∀ addr ∈ stores, fb.Holds addr
  untouched : ∀ addr ∉ stores, after.world.mem addr = before.world.mem addr
  accepted : 0 ≤ st → st = n.toNat ∧
    after.world.mem = copied before.world.mem (fb.baseVa + sysfd.off) buf n.toNat ∧
    vfsFdtGetSysfd sysfd.fd sysfd.pid after.fdt = some { sysfd with off := sysfd.off + n }
  rejected : ¬ fb.Fits sysfd.off n → st < 0 ∧ stores = [] ∧ after.fdt = before.fdt

def CallRight (fs : FileSystems FbWorld) (fb : FrameBuffer) (fd : Fd) (proc : Process)
    (vfs : Vfs FbWorld) : FbCall → Prop
  | .write space buf n => ∀ sysfd, vfsFdtGetSysfd fd proc.pid vfs.fdt = some sysfd →
    ∃ st stores vfs', FbCall.run fs fb fd proc vfs (.write space buf n) = .ok (st, vfs') ∧
      WriteRight fb sysfd buf n vfs st stores vfs'
  | .lseek off whence => ∃ st vfs', FbCall.run fs fb fd proc vfs (.lseek off whence) =
      .ok (st, vfs') ∧ vfs'.world = vfs.world
  | .others _ => True

/-- The driver takes the write for one that fits. -/
def Admits (fb : FrameBuffer) (off n : BitVec 32) : Prop :=
  off + n ≤ fb.width * fb.height * fb.bytespp

def Copies (space : PageRights) (dest src : Ptr) (count : Nat) : Prop :=
  AllFrom space.mayReadLong src count ∧ AllFrom space.mayWrite dest count

/-- Refused before the driver is asked. -/
def Unwritable (fs : FileSystems FbWorld) (sysfd : FileDescriptor) (world : FbWorld) : Prop :=
  fs.mode sysfd.vnode world &&& 0x4000 ≠ 0 ∨ sysfd.flags &&& 0x2 = 0

/-- The driver refuses the write, or the copy faults: at its first byte if it does not fit. -/
def WriteMeets (fs : FileSystems FbWorld) (fb : FrameBuffer) (space : PageRights)
    (sysfd : FileDescriptor) (buf : Ptr) (n : BitVec 32) (world : FbWorld) : Prop :=
  Unwritable fs sysfd world ∨ (sysfd.flags &&& 0x80 = 0 ∧
    (n = 0 ∨ ¬ Admits fb sysfd.off n ∨
      (¬ Copies space (fb.baseVa + sysfd.off) buf n.toNat ∧
        (fb.Fits sysfd.off n ∨ ¬ Copies space (fb.baseVa + sysfd.off) buf 1))))

def CallMeets (fs : FileSystems FbWorld) (fb : FrameBuffer) (fd : Fd) (proc : Process)
    (vfs : Vfs FbWorld) : FbCall → Prop
  | .write space buf n => ∀ sysfd, vfsFdtGetSysfd fd proc.pid vfs.fdt = some sysfd →
    WriteMeets fs fb space sysfd buf n vfs.world
  | .lseek _ _ => True
  | .others _ => True

/-- The process has the descriptor. -/
structure FbOpen (fd : Fd) (pid : Pid) (vfs : Vfs FbWorld) : Prop where
  valid : 0 ≤ fd.toInt
  wellFormed : FdtWellFormed vfs.fdt
  found : ∃ sysfd, vfsFdtGetSysfd fd pid vfs.fdt = some sysfd

section Driver

variable {fb : FrameBuffer} {space : PageRights} {buf : Ptr} {n off : BitVec 32} {world : FbWorld}

theorem FrameBuffer.holds_at (fb : FrameBuffer) {off : BitVec 32} {i : Nat} (place : off.toNat + i < fb.bytes) :
    fb.Holds (fb.baseVa + off + BitVec.ofNat 32 i) := by
  have same : fb.baseVa + off + BitVec.ofNat 32 i - fb.baseVa = off + BitVec.ofNat 32 i := by
    bv_omega
  unfold FrameBuffer.Holds
  rw [same, BitVec.toNat_add, BitVec.toNat_ofNat]
  have small := Nat.mod_le (off.toNat + i % 2 ^ 32) (2 ^ 32)
  have smaller := Nat.mod_le i (2 ^ 32)
  omega

theorem fits_zero (fb : FrameBuffer) (off : BitVec 32) : fb.Fits off 0 :=
  fun _ inside => absurd inside (Nat.not_lt_zero _)

theorem mem_storedTo {dest src addr : Ptr} :
    addr ∈ storedTo space dest src n ↔
      ∃ i < copiedBytes space n.toNat dest src, addr = dest + BitVec.ofNat 32 i := by
  simp only [storedTo, List.mem_map, List.mem_range, eq_comm]

theorem storedTo_nil {dest src : Ptr} :
    storedTo space dest src n = [] ↔ copiedBytes space n.toNat dest src = 0 := by
  simp [storedTo]

theorem fbVnodeWrite_refuses (refuses : ¬ Admits fb off n) :
    fbVnodeWrite fb space buf n off world = (-28, world) := by
  unfold fbVnodeWrite
  exact if_pos (BitVec.not_le.mp refuses)

theorem fbVnodeWrite_copies (admits : Admits fb off n) :
    fbVnodeWrite fb space buf n off world =
      (if copiedBytes space n.toNat (fb.baseVa + off) buf = n.toNat then 0 else -14,
        ⟨copiedUpwards (copiedBytes space n.toNat (fb.baseVa + off) buf) world.mem (fb.baseVa + off)
          buf, world.stored ++ storedTo space (fb.baseVa + off) buf n⟩) := by
  have counts : (0 : BitVec 32).toNat + n.toNat = n.toNat := by simp
  unfold fbVnodeWrite
  dsimp only
  rw [if_neg (BitVec.not_lt.mpr admits), userCopyFrom32, userCopyLoop_stores counts]
  split
  · rfl
  · rfl

end Driver

section Rights

variable {fs : FileSystems FbWorld} {fb : FrameBuffer} {space : PageRights} {buf : Ptr}
  {n : BitVec 32} {sysfd : FileDescriptor} {vfs : Vfs FbWorld}

theorem WriteRight.unchanged (fb : FrameBuffer) (sysfd : FileDescriptor) (buf : Ptr) (n : BitVec 32)
    (vfs : Vfs FbWorld) {st : Int} (negative : st < 0) :
    WriteRight fb sysfd buf n vfs st [] vfs where
  stored := (List.append_nil _).symm
  inside := nofun
  untouched _ _ := rfl
  accepted nonneg := absurd negative (by omega)
  rejected _ := ⟨negative, rfl, rfl⟩

theorem WriteRight.nothing (fb : FrameBuffer) (buf : Ptr)
    (found : vfsFdtGetSysfd sysfd.fd sysfd.pid vfs.fdt = some sysfd) :
    WriteRight fb sysfd buf 0 vfs 0 [] vfs where
  stored := (List.append_nil _).symm
  inside := nofun
  untouched _ _ := rfl
  accepted _ := by
    have same : sysfd.off + 0 = sysfd.off := BitVec.add_zero sysfd.off
    rw [same]
    exact ⟨rfl, (copied_zero _ _ _).symm, found⟩
  rejected outside := absurd (fits_zero fb sysfd.off) outside

/-- A copy that faults is right if its bytes have their place, or if it stores none. -/
theorem faulted_right (some : 0 < n.toNat) {world : FbWorld}
    (result : world = ⟨copiedUpwards (copiedBytes space n.toNat (fb.baseVa + sysfd.off) buf)
        vfs.world.mem (fb.baseVa + sysfd.off) buf,
      vfs.world.stored ++ storedTo space (fb.baseVa + sysfd.off) buf n⟩) :
    (∃ stores, WriteRight fb sysfd buf n vfs (-14) stores { vfs with world := world }) ↔
      (fb.Fits sysfd.off n ∨ ¬ Copies space (fb.baseVa + sysfd.off) buf 1) := by
  have one : Copies space (fb.baseVa + sysfd.off) buf 1 ↔
      space.mayReadLong buf = true ∧ space.mayWrite (fb.baseVa + sysfd.off) = true := by
    unfold Copies
    rw [allFrom_succ, allFrom_succ]
    exact ⟨fun both => ⟨both.1.1, both.2.1⟩,
      fun both => ⟨⟨both.1, allFrom_zero _ _⟩, both.2, allFrom_zero _ _⟩⟩
  have first := copiedBytes_none space (fb.baseVa + sysfd.off) buf some
  rw [← one] at first
  have untouched : ∀ addr ∉ storedTo space (fb.baseVa + sysfd.off) buf n,
      world.mem addr = vfs.world.mem addr := by
    intro addr outside
    rw [result]
    apply copiedUpwards_outside
    intro i inside same
    exact outside (mem_storedTo.mpr ⟨i, inside, same⟩)
  constructor
  · rintro ⟨stores, right⟩
    by_cases fits : fb.Fits sysfd.off n
    · exact .inl fits
    · right
      have none := (right.rejected fits).2.1
      have stored := right.stored
      subst result
      rw [none] at stored
      exact first.mp (storedTo_nil.mp (List.append_cancel_left stored))
  · intro meets
    refine ⟨storedTo space (fb.baseVa + sysfd.off) buf n, ?_, ?_, untouched, nofun, ?_⟩
    · rw [result]
    · intro addr member
      obtain ⟨i, inside, rfl⟩ := mem_storedTo.mp member
      rcases meets with fits | blocked
      · exact fb.holds_at (fits i (Nat.lt_of_lt_of_le inside (copiedBytes_le space _ _ _)))
      · rw [first.mpr blocked] at inside
        exact absurd inside (Nat.not_lt_zero i)
    · intro outside
      have blocked := meets.resolve_left outside
      exact ⟨by decide, storedTo_nil.mpr (first.mpr blocked), rfl⟩

/-- A write does right exactly if it is refused or empty, or if its copy faults in time. -/
theorem vfsWriteSysfd_right (found : vfsFdtGetSysfd sysfd.fd sysfd.pid vfs.fdt = some sysfd) :
    (∃ st stores vfs', vfsWriteSysfd fs (fun _ => fbVnodeWrite fb space) sysfd buf n vfs =
        .ok (st, vfs') ∧ WriteRight fb sysfd buf n vfs st stores vfs') ↔
      WriteMeets fs fb space sysfd buf n vfs.world := by
  unfold WriteMeets Unwritable vfsWriteSysfd
  by_cases directory : fs.mode sysfd.vnode vfs.world &&& 0x4000 ≠ 0
  · rw [if_pos directory]
    exact ⟨fun _ => .inl (.inl directory),
      fun _ => ⟨_, [], vfs, rfl, .unchanged fb sysfd buf n vfs (by decide)⟩⟩
  by_cases unwritable : sysfd.flags &&& 0x2 = 0
  · rw [if_neg directory, if_pos unwritable]
    exact ⟨fun _ => .inl (.inr unwritable),
      fun _ => ⟨_, [], vfs, rfl, .unchanged fb sysfd buf n vfs (by decide)⟩⟩
  rw [if_neg directory, if_neg unwritable, or_iff_right (not_or.mpr ⟨directory, unwritable⟩)]
  by_cases append : sysfd.flags &&& 0x80 = 0
  · rw [if_neg (not_not.mpr append)]
    by_cases nothing : n = 0
    · subst nothing
      rw [if_pos rfl]
      exact ⟨fun _ => ⟨append, .inl rfl⟩, fun _ => ⟨0, [], vfs, rfl, .nothing fb buf found⟩⟩
    rw [if_neg nothing]
    by_cases admits : Admits fb sysfd.off n
    · have some : 0 < n.toNat := by bv_omega
      have whole := copiedBytes_all space n.toNat (fb.baseVa + sysfd.off) buf
      dsimp only
      rw [fbVnodeWrite_copies admits]
      dsimp only
      by_cases complete : Copies space (fb.baseVa + sysfd.off) buf n.toNat
      · rw [if_pos (whole.mpr complete)]
        constructor
        · rintro ⟨st, stores, vfs', result, right⟩
          rw [if_neg (by decide)] at result
          cases result
          have returned := (right.accepted (le_refl 0)).1
          omega
        · rintro ⟨-, none | refused | faults⟩
          · exact absurd none nothing
          · exact absurd admits refused
          · exact absurd complete faults.1
      · rw [if_neg (fun all => complete (whole.mp all)), if_pos (by decide)]
        have faulted := @faulted_right fb space buf n sysfd vfs some _ rfl
        constructor
        · rintro ⟨st, stores, vfs', result, right⟩
          cases result
          exact ⟨append, .inr (.inr ⟨complete, faulted.mp ⟨stores, right⟩⟩)⟩
        · rintro ⟨-, none | refused | ⟨-, meets⟩⟩
          · exact absurd none nothing
          · exact absurd admits refused
          · obtain ⟨stores, right⟩ := faulted.mpr meets
            exact ⟨-14, stores, _, rfl, right⟩
    · dsimp only
      rw [fbVnodeWrite_refuses admits]
      exact ⟨fun _ => ⟨append, .inr (.inl admits)⟩,
        fun _ => ⟨-28, [], vfs, rfl, .unchanged fb sysfd buf n vfs (by decide)⟩⟩
  · rw [if_pos append]
    exact ⟨nofun, fun meets => absurd meets.1 append⟩

end Rights

section Calls

variable {fs : FileSystems FbWorld} {fb : FrameBuffer} {fd : Fd} {proc : Process}
  {vfs : Vfs FbWorld}

/-- A seek leaves the table alone or stores an offset. -/
theorem vfsLseekSysfd_outcome (fs : FileSystems FbWorld) (sysfd : FileDescriptor)
    (off whence : BitVec 32) (vfs : Vfs FbWorld) :
    (vfsLseekSysfd fs sysfd off whence vfs).2 = vfs ∨
      ∃ res, (vfsLseekSysfd fs sysfd off whence vfs).2 =
        { vfs with fdt := vfsFdtStore { sysfd with off := res } vfs.fdt } := by
  unfold vfsLseekSysfd
  dsimp only
  split_ifs
  all_goals first
    | exact .inl rfl
    | exact .inr ⟨_, rfl⟩

theorem vfsWriteSysfd_outcome {μ : Type} {fs : FileSystems μ}
    {opsWrite : VirtualNodeRef → Ptr → BitVec 32 → BitVec 32 → μ → Int × μ} {sysfd : FileDescriptor}
    {buf : Ptr} {n : BitVec 32} {vfs vfs' : Vfs μ} {st : Int}
    (result : vfsWriteSysfd fs opsWrite sysfd buf n vfs = .ok (st, vfs')) :
    vfs'.fdt = vfs.fdt ∨ ∃ res, vfs'.fdt = vfsFdtStore { sysfd with off := res } vfs.fdt := by
  unfold vfsWriteSysfd at result
  dsimp only at result
  split_ifs at result
  all_goals cases result
  all_goals first
    | exact .inl rfl
    | exact .inr ⟨_, rfl⟩

theorem FbOpen.stored {pid : Pid} {vfs' : Vfs FbWorld} {sysfd : FileDescriptor}
    (is_open : FbOpen fd pid vfs) (found : vfsFdtGetSysfd fd pid vfs.fdt = some sysfd)
    (outcome : vfs'.fdt = vfs.fdt ∨
      ∃ res, vfs'.fdt = vfsFdtStore { sysfd with off := res } vfs.fdt) : FbOpen fd pid vfs' := by
  obtain ⟨valid, wellFormed, -⟩ := is_open
  rcases outcome with same | ⟨res, stored⟩
  · refine ⟨valid, ?_, sysfd, ?_⟩
    · rw [same]
      exact wellFormed
    · rw [same]
      exact found
  · obtain ⟨rfl, rfl⟩ := wellFormed.named fd pid sysfd found
    refine ⟨valid, ?_, { sysfd with off := res }, ?_⟩
    · rw [stored]
      exact wellFormed.store _
    · rw [stored, vfsFdtStore_get wellFormed, if_pos ⟨rfl, rfl⟩]
      exact ⟨rfl, sysfd, found⟩

theorem vfsLseek_open (fs : FileSystems FbWorld) {sysfd : FileDescriptor} (valid : 0 ≤ fd.toInt)
    (found : vfsFdtGetSysfd fd proc.pid vfs.fdt = some sysfd) (off whence : BitVec 32) :
    ∃ st event, vfsLseek fs fd off whence proc vfs =
      (st, (vfsLseekSysfd fs sysfd off whence vfs).2.record event) := by
  unfold vfsLseek
  rw [if_neg (by omega), found]
  exact ⟨_, _, rfl⟩

theorem vfsWrite_open {sysfd : FileDescriptor} {buf : Ptr} {n : BitVec 32}
    {opsWrite : VirtualNodeRef → Ptr → BitVec 32 → BitVec 32 → FbWorld → Int × FbWorld} {st : Int}
    {vfs' : Vfs FbWorld} (valid : 0 ≤ fd.toInt)
    (found : vfsFdtGetSysfd fd proc.pid vfs.fdt = some sysfd) :
    vfsWrite fs opsWrite fd buf n proc vfs = .ok (st, vfs') ↔
      ∃ written, vfsWriteSysfd fs opsWrite sysfd buf n vfs = .ok (st, written) ∧
        vfs' = written.record (.accessed proc.pid fd true st) := by
  unfold vfsWrite
  rw [if_neg (by omega), found]
  dsimp only
  rw [Exec.bind_ok]
  constructor
  · rintro ⟨⟨wr, written⟩, result, recorded⟩
    cases recorded
    exact ⟨written, result, rfl⟩
  · rintro ⟨written, result, rfl⟩
    exact ⟨(st, written), result, rfl⟩

theorem FbOpen.step {call : FbCall} {vfs' : Vfs FbWorld} (is_open : FbOpen fd proc.pid vfs)
    (step : FbStep fs fb fd proc vfs call vfs') : FbOpen fd proc.pid vfs' := by
  obtain ⟨st, result⟩ := step
  obtain ⟨sysfd, found⟩ := is_open.found
  have valid := is_open.valid
  cases call with
  | lseek off whence =>
    obtain ⟨st, event, sought⟩ := vfsLseek_open fs valid found off whence
    simp only [FbCall.run] at result
    rw [sought] at result
    cases result
    refine is_open.stored found ?_
    rcases vfsLseekSysfd_outcome fs sysfd off whence vfs with same | ⟨res, stored⟩
    · have kept := congrArg Vfs.fdt same
      exact .inl kept
    · have moved := congrArg Vfs.fdt stored
      exact .inr ⟨res, moved⟩
  | write space buf n =>
    obtain ⟨written, result, recorded⟩ := (vfsWrite_open valid found).mp result
    have outcome := vfsWriteSysfd_outcome result
    rw [recorded]
    exact is_open.stored found outcome
  | others mem =>
    cases result
    exact is_open.stored found (.inl rfl)

/-- A call of an open descriptor does right exactly under its condition. -/
theorem fbCallRight_iff (is_open : FbOpen fd proc.pid vfs) (call : FbCall) :
    CallRight fs fb fd proc vfs call ↔ CallMeets fs fb fd proc vfs call := by
  have valid := is_open.valid
  obtain ⟨sysfd, found⟩ := is_open.found
  cases call with
  | lseek off whence =>
    obtain ⟨st, event, sought⟩ := vfsLseek_open fs valid found off whence
    refine iff_of_true ⟨st, _, congrArg Except.ok sought, ?_⟩ trivial
    rcases vfsLseekSysfd_outcome fs sysfd off whence vfs with same | ⟨res, stored⟩
    · have kept := congrArg Vfs.world same
      exact kept
    · have kept := congrArg Vfs.world stored
      exact kept
  | others mem => exact Iff.rfl
  | write space buf n =>
    obtain ⟨sameFd, samePid⟩ := is_open.wellFormed.named fd proc.pid sysfd found
    have here := found
    rw [← sameFd, ← samePid] at here
    have sysfdRight := @vfsWriteSysfd_right fs fb space buf n sysfd vfs here
    have once : ∀ P : FileDescriptor → Prop,
        (∀ other, vfsFdtGetSysfd fd proc.pid vfs.fdt = some other → P other) ↔ P sysfd := by
      intro P
      rw [found]
      simp
    unfold CallRight CallMeets
    dsimp only
    rw [once, once, ← sysfdRight]
    constructor
    · rintro ⟨st, stores, vfs', result, right⟩
      obtain ⟨written, wrote, rfl⟩ := (vfsWrite_open valid found).mp result
      exact ⟨st, stores, written, wrote, right.stored, right.inside, right.untouched,
        right.accepted, right.rejected⟩
    · rintro ⟨st, stores, written, result, right⟩
      exact ⟨st, stores, _, (vfsWrite_open valid found).mpr ⟨written, result, rfl⟩, right.stored,
        right.inside, right.untouched, right.accepted, right.rejected⟩

/-- A call that does right stores inside the framebuffer only. -/
theorem CallRight.stored {call : FbCall} {vfs' : Vfs FbWorld} (is_open : FbOpen fd proc.pid vfs)
    (right : CallRight fs fb fd proc vfs call) (step : FbStep fs fb fd proc vfs call vfs') :
    ∀ addr ∈ vfs'.world.stored, addr ∈ vfs.world.stored ∨ fb.Holds addr := by
  obtain ⟨st, result⟩ := step
  intro addr member
  cases call with
  | lseek off whence =>
    obtain ⟨st', other, same, kept⟩ := right
    rw [result] at same
    cases same
    rw [kept] at member
    exact .inl member
  | write space buf n =>
    obtain ⟨sysfd, found⟩ := is_open.found
    obtain ⟨st', stores, other, same, right⟩ := right sysfd found
    rw [result] at same
    cases same
    rw [right.stored] at member
    exact (List.mem_append.mp member).imp_right (right.inside addr)
  | others mem =>
    cases result
    exact .inl member

end Calls

/-- In a run whose calls all meet the condition every call does right and nothing outside of the
    framebuffer is stored to. These are the only runs of which it is true, and after any run a call
    does right exactly if it meets the condition. -/
theorem fb_writes_right_iff (fs : FileSystems FbWorld) (fb : FrameBuffer) (fd : Fd) (proc : Process)
    (calls : List FbCall) (s s' : Vfs FbWorld) (start : FbOpen fd proc.pid s) :
    (Run (fun s call s' => FbStep fs fb fd proc s call s' ∧ CallMeets fs fb fd proc s call) s calls
        s' → ∀ addr ∈ s'.world.stored, addr ∈ s.world.stored ∨ fb.Holds addr) ∧
      (Run (fun s call s' => FbStep fs fb fd proc s call s' ∧ CallMeets fs fb fd proc s call) s
          calls s' ↔
        Run (fun s call s' => FbStep fs fb fd proc s call s' ∧ CallRight fs fb fd proc s call) s
          calls s') ∧
      (Run (FbStep fs fb fd proc) s calls s' →
        ∀ call, CallRight fs fb fd proc s' call ↔ CallMeets fs fb fd proc s' call) := by
  have meetsOpen : ∀ s call s', FbStep fs fb fd proc s call s' ∧ CallMeets fs fb fd proc s call →
      FbOpen fd proc.pid s → FbOpen fd proc.pid s' := fun _ _ _ step before => before.step step.1
  have rightOpen : ∀ s call s', FbStep fs fb fd proc s call s' ∧ CallRight fs fb fd proc s call →
      FbOpen fd proc.pid s → FbOpen fd proc.pid s' := fun _ _ _ step before => before.step step.1
  refine ⟨fun run => ?inside, ⟨fun run => ?right, fun run => ?meets⟩, fun run call => ?reached⟩
  case inside =>
    have both := run.invariant (fun t => FbOpen fd proc.pid t ∧
      ∀ addr ∈ t.world.stored, addr ∈ s.world.stored ∨ fb.Holds addr) ?_ ⟨start, fun _ => .inl⟩
    · exact both.2
    · intro t call t' step before
      have right := (fbCallRight_iff before.1 call).mpr step.2
      refine ⟨before.1.step step.1, fun addr member => ?_⟩
      rcases right.stored before.1 step.1 addr member with earlier | inside
      · exact before.2 addr earlier
      · exact .inr inside
  case right =>
    refine (run.strengthen (FbOpen fd proc.pid) meetsOpen start).mono ?_
    intro t call t' step
    exact ⟨step.1.1, (fbCallRight_iff step.2.1 call).mpr step.1.2⟩
  case meets =>
    refine (run.strengthen (FbOpen fd proc.pid) rightOpen start).mono ?_
    intro t call t' step
    exact ⟨step.1.1, (fbCallRight_iff step.2.1 call).mp step.1.2⟩
  case reached =>
    have still := run.invariant (FbOpen fd proc.pid) (fun _ _ _ step before => before.step step)
      start
    exact fbCallRight_iff still call

section Examples

def fbFiles : FileSystems FbWorld where
  userCopyStrFrom _ _ := .ok [0x2f]
  lookupVnode _ world := (.ok 7, world)
  mkfile _ _ world := (.error (-38), world)
  mode _ _ := 0x8000
  size _ _ := 0
  opsOpen _ _ world := (0, world)
  opsRead _ _ _ _ world := (-1, world)
  vnodeIncreaseRefcount _ world := world
  vnodeDecreaseRefcount _ world := .ok world

/-- Two rows of two pixels of 32 bits. -/
def smallFb : FrameBuffer := ⟨0xd0000000, 2, 2, 4, true⟩

def wholeMemory : PageRights := ⟨fun _ => true, fun _ => true⟩

/-- The device is open for reading and writing. -/
def fbVfs : Vfs FbWorld :=
  ⟨vfsFdtStore ⟨0, 1, 0x3, 0, 7⟩ oneDescriptor, ⟨fun _ => 0, []⟩, []⟩

theorem fbVfs_found : vfsFdtGetSysfd 0 1 fbVfs.fdt = some ⟨0, 1, 0x3, 0, 7⟩ := by decide

theorem fbVfs_open : FbOpen 0 offsetProcess.pid fbVfs where
  valid := by decide
  wellFormed := oneDescriptor_tracked.wellFormed.store ⟨0, 1, 0x3, 0, 7⟩
  found := ⟨_, fbVfs_found⟩

/-- A write of four bytes at offset 14 of 16 is refused. -/
theorem fb_writes_right_past_end :
    ∃ s', Run (fun s call s' => FbStep fbFiles smallFb 0 offsetProcess s call s' ∧
      CallRight fbFiles smallFb 0 offsetProcess s call) fbVfs
        [.lseek 14 1, .write wholeMemory 0x1000 4] s' ∧ s'.world.stored = [] := by
  let sought := (vfsLseek fbFiles 0 14 1 offsetProcess fbVfs).2
  have found : vfsFdtGetSysfd 0 1 sought.fdt = some ⟨0, 1, 0x3, 14, 7⟩ := by decide
  have first : FbStep fbFiles smallFb 0 offsetProcess fbVfs (.lseek 14 1) sought := ⟨_, rfl⟩
  have refused : ¬ Admits smallFb 14 4 := by
    unfold Admits
    decide
  have second : FbStep fbFiles smallFb 0 offsetProcess sought (.write wholeMemory 0x1000 4)
      (sought.record (.accessed 1 0 true (-28))) := by
    refine ⟨-28, (vfsWrite_open (by decide) found).mpr ⟨sought, ?_, rfl⟩⟩
    unfold vfsWriteSysfd
    rw [if_neg (by decide), if_neg (by decide), if_neg (by decide), if_neg (by decide)]
    dsimp only
    rw [fbVnodeWrite_refuses refused]
    rfl
  have meets : CallMeets fbFiles smallFb 0 offsetProcess sought (.write wholeMemory 0x1000 4) := by
    intro sysfd there
    cases found.symm.trans there
    exact .inr ⟨by decide, .inr (.inl refused)⟩
  exact ⟨_, (fb_writes_right_iff fbFiles smallFb 0 offsetProcess _ fbVfs _ fbVfs_open).2.1.mp
    (((Run.refl _).snoc ⟨first, trivial⟩).snoc ⟨second, meets⟩), rfl⟩

/-- A write of four bytes that the driver takes returns 0, and the offset stays where it was. -/
theorem taken_write_returns_zero :
    FbOpen 0 offsetProcess.pid fbVfs ∧
      (∃ vfs', FbCall.run fbFiles smallFb 0 offsetProcess fbVfs (.write wholeMemory 0x1000 4) =
          .ok (0, vfs') ∧ vfs'.world.stored.length = 4 ∧
        vfsFdtGetSysfd 0 1 vfs'.fdt = some ⟨0, 1, 0x3, 0, 7⟩) ∧
      ¬ CallRight fbFiles smallFb 0 offsetProcess fbVfs (.write wholeMemory 0x1000 4) := by
  have admits : Admits smallFb 0 4 := by
    unfold Admits
    decide
  refine ⟨fbVfs_open, ?returns, fun right => ?wrong⟩
  case returns =>
    have four : copiedBytes wholeMemory 4 0xd0000000 0x1000 = 4 := rfl
    have wrote : ∃ written, vfsWriteSysfd fbFiles (fun _ => fbVnodeWrite smallFb wholeMemory)
        ⟨0, 1, 0x3, 0, 7⟩ 0x1000 4 fbVfs = .ok (0, written) ∧ written.world.stored.length = 4 ∧
          written.fdt = vfsFdtStore ⟨0, 1, 0x3, 0, 7⟩ fbVfs.fdt := by
      unfold vfsWriteSysfd
      rw [if_neg (by decide), if_neg (by decide), if_neg (by decide), if_neg (by decide)]
      dsimp only
      rw [fbVnodeWrite_copies admits]
      exact ⟨_, rfl, rfl, rfl⟩
    obtain ⟨written, result, stores, stored⟩ := wrote
    have valid : 0 ≤ (0 : Fd).toInt := by decide
    have call := (@vfsWrite_open fbFiles 0 offsetProcess fbVfs _ _ _ _ _ _ valid fbVfs_found).mpr
      ⟨written, result, rfl⟩
    refine ⟨_, call, stores, ?_⟩
    have again : vfsFdtGetSysfd 0 1 (vfsFdtStore ⟨0, 1, 0x3, 0, 7⟩ fbVfs.fdt) =
        some ⟨0, 1, 0x3, 0, 7⟩ := by decide
    rw [← stored] at again
    exact again
  case wrong =>
    have meets := (fbCallRight_iff fbVfs_open _).mp right _ fbVfs_found
    rcases meets with unwritable | ⟨-, none | refused | ⟨faults, -⟩⟩
    · revert unwritable
      unfold Unwritable
      decide
    · exact absurd none (by decide)
    · exact refused admits
    · exact faults ⟨fun _ _ => rfl, fun _ _ => rfl⟩

end Examples

end Dxgmx
