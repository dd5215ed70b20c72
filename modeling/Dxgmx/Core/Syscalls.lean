import Dxgmx.Core.InterruptEntry
import Dxgmx.Tools.ConfigMenus

open Library

namespace Dxgmx

/-- A system call as its definition file describes it. -/
structure SyscallDef where
  idx : BitVec 32
  ret : List Byte
  name : List Byte
  args : List (List Byte)
  deriving DecidableEq

/-- The entries that the generated header puts into the section of the system calls. -/
inductive SyscallEntry
  | call (syscall : SyscallDef)
  | null (n : Nat)
  deriving DecidableEq

def lastIdx (defs : List SyscallDef) : Nat := (defs.map fun syscall => syscall.idx.toNat).foldl max 0

def definedIdxes (defs : List SyscallDef) : List Bool :=
  defs.foldl (fun idxes syscall => idxes.set syscall.idx.toNat true)
    (List.replicate (lastIdx defs + 1) false)

/-- The entries of `print_output_content`. It reads behind an empty vector. -/
def syscallEntries (defs : List SyscallDef) : Option (List SyscallEntry) :=
  if defs = [] then none
  else
    some ((definedIdxes defs).mapIdx fun i isDefined =>
      if isDefined then
        match defs.find? fun syscall => syscall.idx.toNat = i with
        | some syscall => .call syscall
        | none => .null i
      else .null i)

/-- The functions of the kernel by their names. One that does not return has no result. -/
abbrev SyscallFuncs := List Byte → List (BitVec 32) → ByteMemory → Option (BitVec 32 × ByteMemory)

def sysUndefined : BitVec 32 := -38

/-- `SYSCALL_VOID_1`, `SYSCALL_RETV_3`, `SYSCALL_RETV_6` and `SYSCALL_NULL`. -/
def SyscallEntry.func (funcs : SyscallFuncs) (list : List (BitVec 32)) (mem : ByteMemory) :
    SyscallEntry → Option (BitVec 32 × ByteMemory)
  | .call syscall =>
    (funcs syscall.name (list.take syscall.args.length) mem).map fun (value, mem) =>
      (if syscall.ret = ascii "void" then 0 else value, mem)
  | .null _ => some (sysUndefined, mem)

/-- `g_syscall_entry_count`, from the size of the section. -/
def syscallEntryCount (table : List SyscallEntry) : BitVec 32 :=
  BitVec.ofNat 32 (4 * table.length) / 4

def syscallsDoHandle (funcs : SyscallFuncs) (table : List SyscallEntry) (n : BitVec 32)
    (list : List (BitVec 32)) (mem : ByteMemory) : Option (BitVec 32 × ByteMemory) :=
  if syscallEntryCount table ≤ n then some (sysUndefined, mem)
  else
    match table[n.toNat]? with
    | some entry => entry.func funcs list mem
    | none => none

/-- Where the system call returns, so does its handler. -/
def x86syscallIsr (funcs : SyscallFuncs) (table : List SyscallEntry) (cpu : Cpu) : Option Cpu :=
  let pointer := loadWord cpu.mem (cpu.esp + 4)
  let frame := interruptFrameAt cpu.mem pointer
  (syscallsDoHandle funcs table frame.xax
    [frame.xbx, frame.xcx, frame.xdx, frame.xsi, frame.xdi, frame.xbp] cpu.mem).map
      fun (value, mem) => Instr.exec { cpu with mem := storeWord mem (above pointer 6) value } .ret

/-- What a system call is to do: the first definition of its number with the first of its
    arguments. -/
def syscallMeaning (funcs : SyscallFuncs) (defs : List SyscallDef) (n : BitVec 32)
    (list : List (BitVec 32)) (mem : ByteMemory) : Option (BitVec 32 × ByteMemory) :=
  match defs.find? fun syscall => syscall.idx = n with
  | some syscall => SyscallEntry.func funcs list mem (.call syscall)
  | none => some (sysUndefined, mem)

variable {defs : List SyscallDef} {table : List SyscallEntry} {funcs : SyscallFuncs}

theorem definedIdxes_length : (definedIdxes defs).length = lastIdx defs + 1 := by
  have length : ∀ (defs : List SyscallDef) (idxes : List Bool),
      (defs.foldl (fun idxes syscall => idxes.set syscall.idx.toNat true) idxes).length =
        idxes.length := by
    intro defs
    induction defs with
    | nil => simp
    | cons syscall defs ih => simp [ih]
  simp [definedIdxes, length]

theorem le_lastIdx {syscall : SyscallDef} (member : syscall ∈ defs) :
    syscall.idx.toNat ≤ lastIdx defs := by
  have grows : ∀ (idxes : List Nat) (start : Nat), start ≤ idxes.foldl max start ∧
      ∀ i ∈ idxes, i ≤ idxes.foldl max start := by
    intro idxes
    induction idxes with
    | nil => simp
    | cons idx idxes ih =>
      intro start
      rcases ih (max start idx) with ⟨first, rest⟩
      simp only [List.foldl_cons, List.mem_cons]
      grind
  exact (grows _ 0).2 _ (List.mem_map_of_mem member)

theorem definedIdxes_get {i : Nat} (inside : i ≤ lastIdx defs) :
    (definedIdxes defs)[i]? = some (defs.any fun syscall => syscall.idx.toNat = i) := by
  have each : ∀ (defs : List SyscallDef) (idxes : List Bool), i < idxes.length →
      (defs.foldl (fun idxes syscall => idxes.set syscall.idx.toNat true) idxes)[i]? =
        some (defs.any (fun syscall => syscall.idx.toNat = i) || idxes[i]?.getD false) := by
    intro defs
    induction defs with
    | nil =>
      intro idxes small
      simp [small]
    | cons syscall defs ih =>
      intro idxes small
      rw [List.foldl_cons, ih _ (by simpa using small)]
      by_cases here : syscall.idx.toNat = i <;> simp [here, small]
  have fresh : (List.replicate (lastIdx defs + 1) false)[i]?.getD false = false := by
    rw [List.getElem?_replicate]
    split <;> rfl
  rw [definedIdxes, each _ _ (by simp; omega), fresh, Bool.or_false]

theorem find_idx (defs : List SyscallDef) (n : BitVec 32) :
    (defs.find? fun syscall => syscall.idx.toNat = n.toNat) =
      defs.find? fun syscall => syscall.idx = n := by
  congr 1
  funext syscall
  simp [BitVec.toNat_inj]

theorem syscallEntries_length (generated : syscallEntries defs = some table) :
    table.length = lastIdx defs + 1 := by
  simp only [syscallEntries, Option.ite_none_left_eq_some, Option.some.injEq] at generated
  rw [← generated.2, List.length_mapIdx, definedIdxes_length]

/-- The entry of a number is made from the first definition of it, if there is one. -/
theorem syscallEntries_get (generated : syscallEntries defs = some table) {n : BitVec 32}
    (inside : n.toNat ≤ lastIdx defs) : table[n.toNat]? =
      match defs.find? fun syscall => syscall.idx = n with
      | some syscall => some (.call syscall)
      | none => some (.null n.toNat) := by
  simp only [syscallEntries, Option.ite_none_left_eq_some, Option.some.injEq] at generated
  rw [← generated.2, List.getElem?_mapIdx, definedIdxes_get inside, find_idx]
  cases found : defs.find? fun syscall => syscall.idx = n with
  | none =>
    have absent : (defs.any fun syscall => syscall.idx.toNat = n.toNat) = false := by
      simpa [BitVec.toNat_inj] using found
    simp [absent]
  | some syscall =>
    have present : (defs.any fun syscall => syscall.idx.toNat = n.toNat) = true := by
      have same := List.find?_some found
      have member := List.mem_of_find?_eq_some found
      rw [List.any_eq_true]
      exact ⟨syscall, member, by simpa [BitVec.toNat_inj] using same⟩
    simp [present]

theorem syscallEntryCount_toNat (fits : 4 * table.length < 2 ^ 32) :
    (syscallEntryCount table).toNat = table.length := by
  have four : (4 : BitVec 32).toNat = 4 := rfl
  simp only [syscallEntryCount, BitVec.toNat_udiv, BitVec.toNat_ofNat, Nat.mod_eq_of_lt fits, four]
  omega

theorem syscallsDoHandle_means (generated : syscallEntries defs = some table)
    (fits : 4 * table.length < 2 ^ 32) (n : BitVec 32) (list : List (BitVec 32))
    (mem : ByteMemory) :
    syscallsDoHandle funcs table n list mem = syscallMeaning funcs defs n list mem := by
  have length := syscallEntries_length generated
  have count : syscallEntryCount table ≤ n ↔ lastIdx defs < n.toNat := by
    rw [BitVec.le_def, syscallEntryCount_toNat fits, length]
    omega
  unfold syscallsDoHandle syscallMeaning
  by_cases inside : n.toNat ≤ lastIdx defs
  · rw [if_neg (by rw [count]; omega), syscallEntries_get generated inside]
    cases defs.find? fun syscall => syscall.idx = n <;> rfl
  · have absent : (defs.find? fun syscall => syscall.idx = n) = none := by
      rw [List.find?_eq_none]
      intro syscall member same
      have known := le_lastIdx member
      rw [of_decide_eq_true same] at known
      exact inside known
    rw [if_pos (by rw [count]; omega), absent]

/-- The registers that carry the arguments of a system call. -/
def syscallRegs : List Reg := [.ebx, .ecx, .edx, .esi, .edi, .ebp]

/-- The machine that calls the handler of the system call interrupt. -/
def syscallEntered (gate : InterruptGate) (before : Cpu) : Cpu :=
  runCode (before.deliver gate none) (intEntry 0x80).enter

section Call

variable {gate : InterruptGate} {before : Cpu} {calls : IntCalls}

theorem syscallEntered_stack (gate : InterruptGate) (before : Cpu) :
    StackAt (syscallEntered gate before).mem (syscallEntered gate before).esp
      (above (syscallEntered gate before).esp 1 ::
        intRegs.reverse.map before.regs ++ 0 :: before.interruptWords none) :=
  entered_stack (n := 0x80) rfl gate before

/-- The call of the handler leaves the frame as it is. -/
theorem syscallCalled_stack (gate : InterruptGate) (before : Cpu) (ret : BitVec 32) :
    StackAt ((syscallEntered gate before).push ret).mem (above (syscallEntered gate before).esp 1)
      (intRegs.reverse.map before.regs ++ 0 :: before.interruptWords none) ∧
    loadWord ((syscallEntered gate before).push ret).mem
      (((syscallEntered gate before).push ret).esp + 4) =
        above (syscallEntered gate before).esp 1 := by
  have short := interruptWords_none_length before
  have stack := (syscallEntered_stack gate before).push ret (by simp [intRegs]; omega)
  have top : ((syscallEntered gate before).push ret).esp = (syscallEntered gate before).esp - 4 := by
    simp [Cpu.push, Cpu.set, Cpu.esp]
  have up : (syscallEntered gate before).esp - 4 + 4 + 4 = above (syscallEntered gate before).esp 1 := by
    simp [above]
  rcases stack with ⟨-, pointer, frame⟩
  rw [up] at frame
  rw [top]
  exact ⟨frame, pointer⟩

theorem ret_behind_call (cpu : Cpu) (ret : BitVec 32) (mem : ByteMemory) :
    let back := Instr.exec { cpu.push ret with mem := mem } .ret
    back.esp = cpu.esp ∧ back.cs = cpu.cs ∧ back.ss = cpu.ss ∧ back.mem = mem := by
  refine ⟨?_, rfl, rfl, rfl⟩
  simp [Instr.exec, Cpu.pop, Cpu.push, Cpu.set, Cpu.esp]

/-- The handler finds the number and the arguments in the frame, and its result goes there. -/
theorem x86syscallIsr_runs (ret : BitVec 32) {value : BitVec 32} {mem : ByteMemory}
    (generated : syscallEntries defs = some table) (fits : 4 * table.length < 2 ^ 32)
    (returns : syscallMeaning funcs defs (before.regs .eax) (syscallRegs.map before.regs)
      ((syscallEntered gate before).push ret).mem = some (value, mem)) :
    x86syscallIsr funcs table ((syscallEntered gate before).push ret) =
      some (Instr.exec { (syscallEntered gate before).push ret with
        mem := storeWord mem (above (above (syscallEntered gate before).esp 1) 6) value } .ret) := by
  rcases syscallCalled_stack gate before ret with ⟨stack, pointer⟩
  simp only [x86syscallIsr, pointer, interruptFrameAt_stack stack]
  rw [syscallsDoHandle_means generated fits]
  exact congrArg (Option.map _) returns

/-- A system call does what its definition says, with the arguments that the program had in its
    registers. Its result is all that the program sees changed. -/
theorem syscall_returns {ret value : BitVec 32} {mem : ByteMemory}
    (generated : syscallEntries defs = some table) (fits : 4 * table.length < 2 ^ 32)
    (kernel : requestedLevel gate.cs = 0)
    (returns : syscallMeaning funcs defs (before.regs .eax) (syscallRegs.map before.regs)
      ((syscallEntered gate before).push ret).mem = some (value, mem))
    (keeps : ∀ a, Within (above (syscallEntered gate before).esp 1) 52 a →
      mem a = ((syscallEntered gate before).push ret).mem a)
    (spurious : Cpu → Cpu) :
    let final := intN ⟨fun cpu => (x86syscallIsr funcs table cpu).getD cpu, spurious, ret⟩ 0x80
      (before.deliver gate none)
    final = { before with
      regs := Function.update before.regs .eax value
      mem := final.mem } := by
  have short := interruptWords_none_length before
  have stack := (syscallCalled_stack gate before ret).1
  have left : StackAt mem (above (syscallEntered gate before).esp 1)
      (intRegs.reverse.map before.regs ++ 0 :: before.interruptWords none) := by
    apply stack.frame
    · simp [intRegs]
      omega
    · intro a inside
      apply keeps
      apply within_mono inside
      simp [intRegs]
      omega
  have stored := left.store (i := 6) (by simp [intRegs]) (by simp [intRegs]; omega) value
  have handled := x86syscallIsr_runs ret generated fits returns
  let calls : IntCalls := ⟨fun cpu => (x86syscallIsr funcs table cpu).getD cpu, spurious, ret⟩
  have back : (intEntry 0x80).handle calls (syscallEntered gate before) =
      Instr.exec { (syscallEntered gate before).push ret with
        mem := storeWord mem (above (above (syscallEntered gate before).esp 1) 6) value } .ret := by
    show (x86syscallIsr funcs table ((syscallEntered gate before).push ret)).getD _ = _
    rw [handled]
    rfl
  rcases ret_behind_call (syscallEntered gate before) ret
    (storeWord mem (above (above (syscallEntered gate before).esp 1) 6) value) with ⟨esp, cs, ss, kept⟩
  rw [← back] at esp cs ss kept
  have frame : StackAt ((intEntry 0x80).handle calls (syscallEntered gate before)).mem
      (above (syscallEntered gate before).esp 1)
      (intRegs.reverse.map (Function.update before.regs .eax value) ++
        0 :: before.interruptWords none) := by
    rw [kept]
    exact stored
  have aligned : (intEntry 0x80).fakeCode ++ (none : Option (BitVec 32)).toList = [0] := rfl
  have resumed := intN_resumes aligned before kernel ⟨esp, cs, ss, frame⟩
  have top : Function.update (Function.update before.regs .eax value) .esp before.esp =
      Function.update before.regs .eax value := by
    apply Function.update_eq_self_iff.mpr
    simp [Cpu.esp]
  rw [top] at resumed
  exact resumed

def openDef : SyscallDef := ⟨1, ascii "int", ascii "sys_open", [[], [], []]⟩

/-- A program that opens the file whose name is at 0x5000. -/
def openingCpu : Cpu where
  regs := Function.update (Function.update (fun _ => 0) .eax 1) .ebx 0x5000
  eflags := 2
  eip := 0x4000
  cs := 0x1B
  ss := 0x23
  mem := fun _ => 0

/-- A function whose result is its first argument. -/
def firstArg : SyscallFuncs := fun _ list mem => some (list.headD 0, mem)

theorem syscall_returns_opened :
    let final := intN ⟨fun cpu => (x86syscallIsr firstArg [.null 0, .call openDef] cpu).getD cpu,
      id, 0⟩ 0x80 (openingCpu.deliver ⟨0x8000, 0x10, 8, 0, true⟩ none)
    final = { openingCpu with
      regs := Function.update openingCpu.regs .eax 0x5000
      mem := final.mem } :=
  have generated : syscallEntries [openDef] = some [.null 0, .call openDef] := rfl
  syscall_returns generated (by decide) (by decide) rfl (fun _ _ => rfl) id

end Call

end Dxgmx
