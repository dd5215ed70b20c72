import Mathlib.Data.BitVec
import Mathlib.Logic.Function.Basic
import Dxgmx.Kstdlib.String
import Dxgmx.Mem.Region

namespace Dxgmx

structure IDTEntry where
  base0To15 : BitVec 16
  selector : BitVec 16
  unused : BitVec 8
  type : BitVec 5
  privilege : BitVec 2
  present : BitVec 1
  base16To31 : BitVec 16
  deriving DecidableEq, Repr

/-- The packed entry in memory, by offset. -/
def IDTEntry.bytes (entry : IDTEntry) : Nat → Byte
  | 0 => entry.base0To15.extractLsb' 0 8
  | 1 => entry.base0To15.extractLsb' 8 8
  | 2 => entry.selector.extractLsb' 0 8
  | 3 => entry.selector.extractLsb' 8 8
  | 4 => entry.unused
  | 5 => entry.present ++ entry.privilege ++ entry.type
  | 6 => entry.base16To31.extractLsb' 0 8
  | 7 => entry.base16To31.extractLsb' 8 8
  | _ => 0

/-- A gate as the processor reads it. -/
structure Gate where
  offset : Ptr
  selector : BitVec 16
  type : BitVec 5
  privilege : BitVec 2
  present : Bool
  deriving DecidableEq, Repr

def readGate (bytes : Nat → Byte) : Gate where
  offset := bytes 7 ++ bytes 6 ++ bytes 1 ++ bytes 0
  selector := bytes 3 ++ bytes 2
  type := (bytes 5).extractLsb' 0 5
  privilege := (bytes 5).extractLsb' 5 2
  present := (bytes 5).getLsbD 7

def gdtKernelCs : BitVec 16 := 0x8

def idtInt32Gate : BitVec 8 := 0b01110

def idtTrap32Gate : BitVec 8 := 0b01111

def idtPrivl0 : BitVec 8 := 0#8 <<< 5

def idtPrivl3 : BitVec 8 := 3#8 <<< 5

def idtIntPresent : BitVec 8 := 1#8 <<< 7

def isaIrq : BitVec 8 := idtInt32Gate ||| idtPrivl0 ||| idtIntPresent

def idtEncodeFlags (selector : BitVec 16) (flags : BitVec 8) (entry : IDTEntry) : IDTEntry :=
  { entry with
    selector
    type := (flags &&& 0b11111).setWidth 5
    privilege := ((flags &&& (0b11#8 <<< 5)) >>> 5).setWidth 2
    present := if flags &&& (1#8 <<< 7) ≠ 0 then 1 else 0 }

def idtEncodeAbsent (base : Ptr) (entry : IDTEntry) : IDTEntry :=
  { entry with
    base0To15 := (base &&& 0xFFFF).setWidth 16
    base16To31 := ((base &&& 0xFFFF0000) >>> 16).setWidth 16
    unused := 0
    present := 0 }

def idtEncodeEntry (base : Ptr) (selector : BitVec 16) (flags : BitVec 8) (entry : IDTEntry) :
    IDTEntry :=
  idtEncodeFlags selector flags (idtEncodeAbsent base entry)

/-- `g_isrs` and `g_idt`. -/
structure Idt where
  isrs : Fin 256 → Ptr
  idt : Fin 256 → IDTEntry

/-- The exceptions that have a handler of their own from the start. -/
inductive CommonException
  | divErr
  | debug
  | breakpoint
  | overflow
  | boundExceeded
  | invalidOpcode
  | fpuNotAvail
  | doublefault
  | invalidTss
  | absentSegment
  | ssfault
  | gpf
  | pagefault
  | x87FpException
  | alignmentCheck
  | machineCheck
  | simdFpException
  | virtException
  | controlProtectionException
  | hypervisorException
  | vmmCommException
  | securityException
  deriving DecidableEq, Repr

/-- The addresses of the functions `int0` to `int255` and of the handlers. -/
structure IdtEnv where
  int : Fin 256 → Ptr
  stubTrap : Ptr
  stubIrq : Ptr
  isr : CommonException → Ptr

/-- What both registrations do once the flags are known. -/
def idtInstall (n : Fin 256) (cb : Ptr) (flags : BitVec 8) (s : Idt) : Int × Idt :=
  (0, {
    isrs := Function.update s.isrs n cb
    idt := Function.update s.idt n (idtEncodeFlags gdtKernelCs flags (s.idt n)) })

def idtRegisterTrapIsr (n : Fin 256) (ring : BitVec 8) (cb : Ptr) (s : Idt) : Int × Idt :=
  let flags := idtTrap32Gate ||| idtIntPresent
  if ring = 0 then idtInstall n cb (flags ||| idtPrivl0) s
  else if ring = 3 then idtInstall n cb (flags ||| idtPrivl3) s
  else (-1, s)

def idtRegisterIrqIsr (n : Fin 256) (cb : Ptr) (s : Idt) : Int × Idt :=
  idtInstall n cb (idtInt32Gate ||| idtIntPresent ||| idtPrivl0) s

inductive IdtCall
  | trap (n : Fin 256) (ring : BitVec 8) (cb : Ptr)
  | irq (n : Fin 256) (cb : Ptr)
  deriving DecidableEq, Repr

def IdtCall.run (s : Idt) : IdtCall → Idt
  | .trap n ring cb => (idtRegisterTrapIsr n ring cb s).2
  | .irq n cb => (idtRegisterIrqIsr n cb s).2

def CommonException.vector : CommonException → Fin 256
  | divErr => 0x0
  | debug => 0x1
  | breakpoint => 0x3
  | overflow => 0x4
  | boundExceeded => 0x5
  | invalidOpcode => 0x6
  | fpuNotAvail => 0x7
  | doublefault => 0x8
  | invalidTss => 0xA
  | absentSegment => 0xB
  | ssfault => 0xC
  | gpf => 0xD
  | pagefault => 0xE
  | x87FpException => 0x10
  | alignmentCheck => 0x11
  | machineCheck => 0x12
  | simdFpException => 0x13
  | virtException => 0x14
  | controlProtectionException => 0x15
  | hypervisorException => 0x1C
  | vmmCommException => 0x1D
  | securityException => 0x1E

/-- The calls of `exceptions_set_up_common_handlers`. -/
def exceptionsSetUpCommonHandlers (env : IdtEnv) : List IdtCall :=
  [.divErr, .debug, .breakpoint, .overflow, .boundExceeded, .invalidOpcode, .fpuNotAvail,
    .doublefault, .invalidTss, .absentSegment, .ssfault, .gpf, .pagefault, .x87FpException,
    .alignmentCheck, .machineCheck, .simdFpException, .virtException,
    .controlProtectionException, .hypervisorException, .vmmCommException,
    .securityException].map fun e => .trap e.vector 0 (env.isr e)

/-- The tables before the handlers of the exceptions are registered. -/
def idtTables (env : IdtEnv) : Idt where
  isrs := fun n => if n.val < 32 then env.stubTrap else if n.val < 48 then env.stubIrq else 0
  idt := fun n =>
    let entry : IDTEntry := ⟨0, 0, 0, 0, 0, 0, 0⟩
    if 32 ≤ n.val ∧ n.val < 48 then idtEncodeEntry (env.int n) gdtKernelCs isaIrq entry
    else idtEncodeAbsent (env.int n) entry

def idtInit (env : IdtEnv) : Idt :=
  (exceptionsSetUpCommonHandlers env).foldl IdtCall.run (idtTables env)

theorem append_toNat {m n : Nat} (x : BitVec m) (y : BitVec n) :
    (x ++ y).toNat = x.toNat * 2 ^ n + y.toNat := by
  rw [BitVec.toNat_append, ← Nat.shiftLeft_add_eq_or_of_lt y.isLt, Nat.shiftLeft_eq]

theorem halves_append (x : BitVec 16) : x.extractLsb' 8 8 ++ x.extractLsb' 0 8 = x := by
  have bound := x.isLt
  apply BitVec.eq_of_toNat_eq
  simp only [append_toNat, BitVec.extractLsb'_toNat, Nat.shiftRight_eq_div_pow]
  omega

theorem accessByte_parts (present : BitVec 1) (privilege : BitVec 2) (type : BitVec 5) :
    (present ++ privilege ++ type).extractLsb' 0 5 = type ∧
      (present ++ privilege ++ type).extractLsb' 5 2 = privilege ∧
      (present ++ privilege ++ type).getLsbD 7 = decide (present = 1) := by
  revert present privilege type
  decide

theorem low_half (base : Ptr) : ((base &&& 0xFFFF).setWidth 16).toNat = base.toNat % 2 ^ 16 := by
  have mask := Nat.and_two_pow_sub_one_eq_mod base.toNat 16
  rw [BitVec.toNat_setWidth, BitVec.toNat_and, show (0xFFFF : Ptr).toNat = 2 ^ 16 - 1 from rfl, mask,
    Nat.mod_mod]

theorem high_half (base : Ptr) :
    (((base &&& 0xFFFF0000) >>> 16).setWidth 16).toNat = base.toNat / 2 ^ 16 := by
  have bound := base.isLt
  have mask := Nat.and_two_pow_sub_one_eq_mod (base.toNat / 2 ^ 16) 16
  rw [BitVec.toNat_setWidth, BitVec.toNat_ushiftRight, BitVec.toNat_and, Nat.shiftRight_and_distrib,
    show (0xFFFF0000 : Ptr).toNat >>> 16 = 2 ^ 16 - 1 from rfl, Nat.shiftRight_eq_div_pow, mask]
  omega

theorem base_halves (base : Ptr) : ((base &&& 0xFFFF0000) >>> 16).setWidth 16 ++
    (base &&& 0xFFFF).setWidth 16 = base := by
  apply BitVec.eq_of_toNat_eq
  rw [append_toNat, low_half, high_half]
  omega

def IDTEntry.base (entry : IDTEntry) : Ptr := entry.base16To31 ++ entry.base0To15

theorem base_bytes (entry : IDTEntry) :
    entry.bytes 7 ++ entry.bytes 6 ++ entry.bytes 1 ++ entry.bytes 0 = entry.base := by
  have high := entry.base16To31.isLt
  have low := entry.base0To15.isLt
  apply BitVec.eq_of_toNat_eq
  unfold IDTEntry.base IDTEntry.bytes
  simp only [append_toNat, BitVec.extractLsb'_toNat, Nat.shiftRight_eq_div_pow]
  omega

theorem readGate_bytes (entry : IDTEntry) : readGate entry.bytes =
    ⟨entry.base, entry.selector, entry.type, entry.privilege, decide (entry.present = 1)⟩ := by
  rcases accessByte_parts entry.present entry.privilege entry.type with ⟨type, privilege, present⟩
  have selector : entry.bytes 3 ++ entry.bytes 2 = entry.selector := halves_append entry.selector
  unfold readGate
  rw [base_bytes, selector]
  show Gate.mk _ _ (BitVec.extractLsb' 0 5 (entry.present ++ entry.privilege ++ entry.type))
    (BitVec.extractLsb' 5 2 (entry.present ++ entry.privilege ++ entry.type))
    ((entry.present ++ entry.privilege ++ entry.type).getLsbD 7) = _
  rw [type, privilege, present]

def Idt.gate (s : Idt) (n : Fin 256) : Gate := readGate (s.idt n).bytes

def IdtCall.installs (n : Fin 256) : IdtCall → Bool
  | .trap m ring _ => decide (m = n ∧ (ring = 0 ∨ ring = 3))
  | .irq m _ => decide (m = n)

def IdtCall.cb : IdtCall → Ptr
  | .trap _ _ cb => cb
  | .irq _ cb => cb

/-- The gate that a call asks for. -/
def IdtCall.gate (entry : Ptr) : IdtCall → Gate
  | .trap _ ring _ => ⟨entry, gdtKernelCs, 0b01111, if ring = 3 then 3 else 0, true⟩
  | .irq _ _ => ⟨entry, gdtKernelCs, 0b01110, 0, true⟩

theorem idtInstall_gate (s : Idt) (m n : Fin 256) (cb : Ptr) (flags : BitVec 8) :
    (idtInstall m cb flags s).2.gate n =
      if m = n then readGate (idtEncodeFlags gdtKernelCs flags (s.idt n)).bytes else s.gate n := by
  unfold idtInstall Idt.gate
  dsimp only
  by_cases same : m = n
  · rw [if_pos same, same, Function.update_self]
  · rw [if_neg same, Function.update_of_ne (Ne.symm same)]

theorem idtInstall_isrs (s : Idt) (m n : Fin 256) (cb : Ptr) (flags : BitVec 8) :
    (idtInstall m cb flags s).2.isrs n = if m = n then cb else s.isrs n := by
  unfold idtInstall
  dsimp only
  by_cases same : m = n
  · rw [if_pos same, same, Function.update_self]
  · rw [if_neg same, Function.update_of_ne (Ne.symm same)]

theorem idtInstall_base (s : Idt) (m n : Fin 256) (cb : Ptr) (flags : BitVec 8) :
    ((idtInstall m cb flags s).2.idt n).base = (s.idt n).base := by
  unfold idtInstall
  dsimp only
  by_cases same : m = n
  · rw [same, Function.update_self]
    rfl
  · rw [Function.update_of_ne (Ne.symm same)]

/-- A call sets the gate and the handler of its vector, if its ring is 0 or 3. -/
theorem IdtCall.run_spec (s : Idt) (call : IdtCall) (n : Fin 256) :
    ((call.run s).idt n).base = (s.idt n).base ∧
      (call.run s).gate n = (if call.installs n then call.gate (s.idt n).base else s.gate n) ∧
      (call.run s).isrs n = if call.installs n then call.cb else s.isrs n := by
  cases call with
  | trap m ring cb =>
    unfold IdtCall.run idtRegisterTrapIsr
    dsimp only
    by_cases ring0 : ring = 0
    · have here : installs n (.trap m ring cb) = decide (m = n) := by simp [installs, ring0]
      rw [if_pos ring0, here, ring0]
      simp only [idtInstall_base, idtInstall_gate, idtInstall_isrs, readGate_bytes, decide_eq_true_eq]
      exact ⟨trivial, rfl, rfl⟩
    · rw [if_neg ring0]
      by_cases ring3 : ring = 3
      · have here : installs n (.trap m ring cb) = decide (m = n) := by simp [installs, ring3]
        rw [if_pos ring3, here, ring3]
        simp only [idtInstall_base, idtInstall_gate, idtInstall_isrs, readGate_bytes,
          decide_eq_true_eq]
        exact ⟨trivial, rfl, rfl⟩
      · have here : installs n (.trap m ring cb) = false := by
          unfold installs
          exact decide_eq_false fun both => both.2.elim ring0 ring3
        rw [if_neg ring3, here]
        exact ⟨rfl, rfl, rfl⟩
  | irq m cb =>
    unfold IdtCall.run idtRegisterIrqIsr
    simp only [idtInstall_base, idtInstall_gate, idtInstall_isrs, readGate_bytes, installs,
      decide_eq_true_eq]
    exact ⟨trivial, rfl, rfl⟩

/-- The last call that took effect for a vector. -/
def lastInstalled (n : Fin 256) (calls : List IdtCall) : Option IdtCall :=
  (calls.filter (·.installs n)).getLast?

theorem lastInstalled_snoc (n : Fin 256) (calls : List IdtCall) (call : IdtCall) :
    lastInstalled n (calls ++ [call]) =
      if call.installs n then some call else lastInstalled n calls := by
  unfold lastInstalled
  rw [List.filter_append]
  by_cases here : call.installs n = true
  · simp [here]
  · simp [here]

theorem idt_run (s : Idt) (calls : List IdtCall) (n : Fin 256) :
    ((calls.foldl IdtCall.run s).idt n).base = (s.idt n).base ∧
      (calls.foldl IdtCall.run s).gate n = ((lastInstalled n calls).map
        (·.gate (s.idt n).base)).getD (s.gate n) ∧
      (calls.foldl IdtCall.run s).isrs n =
        ((lastInstalled n calls).map (·.cb)).getD (s.isrs n) := by
  induction calls using List.reverseRecOn with
  | nil => exact ⟨rfl, rfl, rfl⟩
  | append_singleton calls call ih =>
    rcases ih with ⟨base, gate, isr⟩
    rcases call.run_spec (calls.foldl IdtCall.run s) n with ⟨base', gate', isr'⟩
    rw [List.foldl_append, List.foldl_cons, List.foldl_nil, lastInstalled_snoc]
    refine ⟨base'.trans base, ?_, ?_⟩
    · rw [gate', gate, base]
      split <;> rfl
    · rw [isr', isr]
      split <;> rfl

theorem idtTables_base (env : IdtEnv) (n : Fin 256) : ((idtTables env).idt n).base = env.int n := by
  unfold idtTables
  dsimp only
  split
  · exact base_halves (env.int n)
  · exact base_halves (env.int n)

theorem idtTables_gate (env : IdtEnv) (n : Fin 256) :
    (32 ≤ n.val ∧ n.val < 48 →
      (idtTables env).gate n = ⟨env.int n, gdtKernelCs, 0b01110, 0, true⟩) ∧
    (¬(32 ≤ n.val ∧ n.val < 48) →
      (idtTables env).gate n = ⟨env.int n, 0, 0, 0, false⟩) := by
  have base := idtTables_base env n
  constructor
  · intro isa
    have entry : (idtTables env).idt n =
        idtEncodeEntry (env.int n) gdtKernelCs isaIrq ⟨0, 0, 0, 0, 0, 0, 0⟩ := if_pos isa
    unfold Idt.gate
    rw [readGate_bytes, base, entry]
    rfl
  · intro other
    have entry : (idtTables env).idt n = idtEncodeAbsent (env.int n) ⟨0, 0, 0, 0, 0, 0, 0⟩ :=
      if_neg other
    unfold Idt.gate
    rw [readGate_bytes, base, entry]
    rfl

/-- The handler that is in place where nothing was registered. -/
def IdtEnv.firstIsr (env : IdtEnv) (n : Fin 256) : Ptr :=
  if n.val < 32 then env.stubTrap else if n.val < 48 then env.stubIrq else 0

/-- After any registrations, the gate of a vector leads to its own entry, with the rights and to the
    handler of the last one; without one it is an interrupt gate to the stub if it is an ISA
    interrupt, else absent. -/
theorem idt_dispatch (env : IdtEnv) (calls : List IdtCall) (n : Fin 256) :
    match lastInstalled n (exceptionsSetUpCommonHandlers env ++ calls) with
    | some call => (calls.foldl IdtCall.run (idtInit env)).gate n = call.gate (env.int n) ∧
        (calls.foldl IdtCall.run (idtInit env)).isrs n = call.cb
    | none => (calls.foldl IdtCall.run (idtInit env)).gate n =
          (if 32 ≤ n.val ∧ n.val < 48 then ⟨env.int n, gdtKernelCs, 0b01110, 0, true⟩
          else ⟨env.int n, 0, 0, 0, false⟩) ∧
        (calls.foldl IdtCall.run (idtInit env)).isrs n = env.firstIsr n := by
  have run := idt_run (idtTables env) (exceptionsSetUpCommonHandlers env ++ calls) n
  rw [List.foldl_append, idtTables_base] at run
  change _ ∧ (calls.foldl IdtCall.run (idtInit env)).gate n = _ ∧
    (calls.foldl IdtCall.run (idtInit env)).isrs n = _ at run
  rcases run with ⟨-, gate, isr⟩
  cases last : lastInstalled n (exceptionsSetUpCommonHandlers env ++ calls) with
  | some call =>
    rw [last] at gate isr
    exact ⟨gate, isr⟩
  | none =>
    rw [last] at gate isr
    refine ⟨gate.trans ?_, isr⟩
    rcases idtTables_gate env n with ⟨isa, other⟩
    split
    · rename_i inside
      exact isa inside
    · rename_i outside
      exact other outside

/-- An `int` instruction is let through at this privilege level, and else faults. -/
def Gate.admits (gate : Gate) (cpl : BitVec 2) : Bool :=
  gate.present && decide (cpl.toNat ≤ gate.privilege.toNat)

theorem exceptions_supervisor (env : IdtEnv) {call : IdtCall}
    (member : call ∈ exceptionsSetUpCommonHandlers env) : ∃ n cb, call = .trap n 0 cb := by
  unfold exceptionsSetUpCommonHandlers at member
  rcases List.mem_map.mp member with ⟨e, -, rfl⟩
  exact ⟨_, _, rfl⟩

theorem idtTables_supervisor (env : IdtEnv) (n : Fin 256) :
    ((idtTables env).gate n).admits 3 = false := by
  rcases idtTables_gate env n with ⟨isa, other⟩
  by_cases inside : 32 ≤ n.val ∧ n.val < 48
  · rw [isa inside]
    rfl
  · rw [other inside]
    rfl

theorem idtInit_supervisor (env : IdtEnv) (n : Fin 256) :
    ((idtInit env).gate n).admits 3 = false := by
  have gate := (idt_run (idtTables env) (exceptionsSetUpCommonHandlers env) n).2.1
  change (idtInit env).gate n = _ at gate
  rw [gate]
  cases last : lastInstalled n (exceptionsSetUpCommonHandlers env) with
  | none => exact idtTables_supervisor env n
  | some call =>
    have member := List.mem_of_mem_filter (List.mem_of_getLast? last)
    rcases exceptions_supervisor env member with ⟨m, cb, rfl⟩
    rfl

theorem IdtCall.admits_user (entry : Ptr) (call : IdtCall) {n : Fin 256}
    (installs : call.installs n = true) :
    (call.gate entry).admits 3 = true ↔ ∃ cb, call = .trap n 3 cb := by
  cases call with
  | trap m ring cb =>
    rcases of_decide_eq_true installs with ⟨rfl, ring0 | ring3⟩
    · rw [ring0]
      simp [IdtCall.gate, Gate.admits]
    · rw [ring3]
      simp [IdtCall.gate, Gate.admits]
  | irq m cb => simp [IdtCall.gate, Gate.admits]

/-- A process can raise exactly the interrupts that were last registered for ring 3. -/
theorem user_interrupts_iff (env : IdtEnv) (calls : List IdtCall) (n : Fin 256) :
    ((calls.foldl IdtCall.run (idtInit env)).gate n).admits 3 = true ↔
      ∃ cb, lastInstalled n calls = some (.trap n 3 cb) := by
  rw [(idt_run (idtInit env) calls n).2.1]
  cases last : lastInstalled n calls with
  | some call =>
    have member := List.mem_of_getLast? last
    have installs : call.installs n = true := (List.mem_filter.mp member).2
    simpa using call.admits_user _ installs
  | none => simpa using idtInit_supervisor env n

end Dxgmx
