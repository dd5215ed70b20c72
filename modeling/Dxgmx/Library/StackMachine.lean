import Mathlib.Data.BitVec
import Mathlib.Logic.Function.Basic
import Mathlib.Tactic.Common

namespace Library

abbrev ByteMemory := BitVec 32 → BitVec 8

/-- The word at an address, its low byte first. -/
def loadWord (mem : ByteMemory) (addr : BitVec 32) : BitVec 32 :=
  mem (addr + 3) ++ mem (addr + 2) ++ mem (addr + 1) ++ mem addr

def storeWord (mem : ByteMemory) (addr word : BitVec 32) : ByteMemory := fun a =>
  if (a - addr).toNat < 4 then word.extractLsb' (8 * (a - addr).toNat) 8 else mem a

/-- The `bytes` addresses from `base` on, which may wrap around. -/
def Within (base : BitVec 32) (bytes : Nat) (addr : BitVec 32) : Prop := (addr - base).toNat < bytes

/-- The addresses so many words below and above `sp`. -/
def below (sp : BitVec 32) (words : Nat) : BitVec 32 := sp - BitVec.ofNat 32 (4 * words)

def above (sp : BitVec 32) (words : Nat) : BitVec 32 := sp + BitVec.ofNat 32 (4 * words)

variable {mem other : ByteMemory} {addr sp a b : BitVec 32} {words pushed : List (BitVec 32)}

theorem within_mono {bytes more : Nat} (inside : Within addr bytes a) (le : bytes ≤ more) :
    Within addr more a := Nat.lt_of_lt_of_le inside le

theorem within_add {bytes : Nat} (inside : Within (sp + 4) bytes a) (fits : bytes + 4 ≤ 2 ^ 32) :
    Within sp (bytes + 4) a := by
  unfold Within at *
  bv_omega

theorem within_below {n : Nat} (inside : Within (sp - 4) 4 a) (fits : 4 * (n + 1) ≤ 2 ^ 32) :
    Within (below (sp - 4) n) (4 * (n + 1)) a := by
  unfold Within below at *
  bv_omega

theorem below_succ (sp : BitVec 32) (n : Nat) : below sp (n + 1) = below (sp - 4) n := by
  unfold below
  have split : BitVec.ofNat 32 (4 * (n + 1)) = BitVec.ofNat 32 (4 * n) + 4 := by
    rw [Nat.mul_succ, BitVec.ofNat_add]
    rfl
  rw [split]
  bv_omega

theorem below_zero (sp : BitVec 32) : below sp 0 = sp := by simp [below]

theorem above_zero (sp : BitVec 32) : above sp 0 = sp := by simp [above]

theorem above_succ (sp : BitVec 32) (n : Nat) : above sp (n + 1) = above (sp + 4) n := by
  unfold above
  have split : BitVec.ofNat 32 (4 * (n + 1)) = BitVec.ofNat 32 (4 * n) + 4 := by
    rw [Nat.mul_succ, BitVec.ofNat_add]
    rfl
  rw [split]
  bv_omega

@[simp] theorem above_below (sp : BitVec 32) (n : Nat) : above (below sp n) n = sp := by
  simp [above, below]

theorem loadWord_congr (same : ∀ a, Within addr 4 a → mem a = other a) :
    loadWord mem addr = loadWord other addr := by
  have byte : ∀ i : BitVec 32, i.toNat < 4 → mem (addr + i) = other (addr + i) := by
    intro i small
    apply same
    unfold Within
    bv_omega
  have first := byte 0 (by decide)
  have second := byte 1 (by decide)
  have third := byte 2 (by decide)
  have fourth := byte 3 (by decide)
  simp only [BitVec.ofNat_eq_ofNat, BitVec.add_zero] at first second third fourth
  simp only [loadWord, BitVec.ofNat_eq_ofNat, first, second, third, fourth]

theorem word_of_bytes (word : BitVec 32) :
    word.extractLsb' 24 8 ++ word.extractLsb' 16 8 ++ word.extractLsb' 8 8 ++ word.extractLsb' 0 8 =
      word := by
  ext i bound
  simp only [BitVec.getElem_append, BitVec.getElem_extractLsb']
  grind

@[simp] theorem loadWord_storeWord (mem : ByteMemory) (addr word : BitVec 32) :
    loadWord (storeWord mem addr word) addr = word := by
  have byte : ∀ i : BitVec 32, i.toNat < 4 →
      storeWord mem addr word (addr + i) = word.extractLsb' (8 * i.toNat) 8 := by
    intro i small
    have back : addr + i - addr = i := by bv_omega
    simp [storeWord, back, small]
  have first := byte 0 (by decide)
  have second := byte 1 (by decide)
  have third := byte 2 (by decide)
  have fourth := byte 3 (by decide)
  simp only [BitVec.ofNat_eq_ofNat, BitVec.add_zero] at first second third fourth
  simp only [loadWord, BitVec.ofNat_eq_ofNat, first, second, third, fourth]
  exact word_of_bytes word

theorem storeWord_outside {word : BitVec 32} (outside : ¬Within addr 4 a) :
    storeWord mem addr word a = mem a := if_neg outside

/-- The words on a stack that grows down, the last one pushed first. -/
def StackAt (mem : ByteMemory) (sp : BitVec 32) : List (BitVec 32) → Prop
  | [] => True
  | word :: words => loadWord mem sp = word ∧ StackAt mem (sp + 4) words

@[simp] theorem stackAt_nil : StackAt mem sp [] := trivial

@[simp] theorem stackAt_cons {word : BitVec 32} :
    StackAt mem sp (word :: words) ↔ loadWord mem sp = word ∧ StackAt mem (sp + 4) words := .rfl

theorem StackAt.frame (stack : StackAt mem sp words) (fits : 4 * words.length ≤ 2 ^ 32)
    (same : ∀ a, Within sp (4 * words.length) a → other a = mem a) : StackAt other sp words := by
  induction words generalizing sp with
  | nil => trivial
  | cons word words ih =>
    rcases stack with ⟨first, rest⟩
    rw [List.length_cons] at same fits
    constructor
    · rw [← first]
      apply loadWord_congr
      exact fun a inside => same a (within_mono inside (by omega))
    · apply ih rest (by omega)
      exact fun a inside => same a (within_add inside (by omega))

theorem StackAt.push (stack : StackAt mem sp words) (word : BitVec 32)
    (fits : 4 * (words.length + 1) ≤ 2 ^ 32) :
    StackAt (storeWord mem (sp - 4) word) (sp - 4) (word :: words) := by
  have back : sp - 4 + 4 = sp := by bv_omega
  constructor
  · simp
  · rw [back]
    apply stack.frame (by omega)
    intro a inside
    apply storeWord_outside
    unfold Within at *
    bv_omega

theorem StackAt.right {more : List (BitVec 32)} (stack : StackAt mem sp (words ++ more)) :
    StackAt mem (above sp words.length) more := by
  induction words generalizing sp with
  | nil => simpa [above_zero] using stack
  | cons word words ih => simpa [above_succ] using ih stack.2

theorem StackAt.word (stack : StackAt mem sp words) {i : Nat} {word : BitVec 32}
    (here : words[i]? = some word) : loadWord mem (above sp i) = word := by
  induction words generalizing sp i with
  | nil => simp at here
  | cons first words ih =>
    cases i with
    | zero =>
      rw [above_zero, ← Option.some.inj here]
      exact stack.1
    | succ i =>
      rw [above_succ]
      exact ih stack.2 here

theorem StackAt.left {more : List (BitVec 32)} (stack : StackAt mem sp (words ++ more)) :
    StackAt mem sp words := by
  induction words generalizing sp with
  | nil => trivial
  | cons word words ih => exact ⟨stack.1, ih stack.2⟩

theorem within_next {n : Nat} (inside : Within (sp + 4) (4 * n) a) (fits : 4 * (n + 1) ≤ 2 ^ 32) :
    ¬Within sp 4 a := by
  unfold Within at *
  bv_omega

theorem within_first {i n : Nat} (inside : Within sp 4 a) (more : i < n)
    (fits : 4 * (n + 1) ≤ 2 ^ 32) : ¬Within (above (sp + 4) i) 4 a := by
  unfold Within above at *
  bv_omega

/-- A store to one of the words changes this word only. -/
theorem StackAt.store (stack : StackAt mem sp words) {i : Nat} (inside : i < words.length)
    (fits : 4 * words.length ≤ 2 ^ 32) (word : BitVec 32) :
    StackAt (storeWord mem (above sp i) word) sp (words.set i word) := by
  induction words generalizing sp i with
  | nil => simp at inside
  | cons first words ih =>
    rw [List.length_cons] at inside fits
    cases i with
    | zero =>
      rw [above_zero]
      refine ⟨loadWord_storeWord _ _ _, stack.2.frame (by omega) fun a here => ?_⟩
      exact storeWord_outside (within_next here fits)
    | succ i =>
      rw [above_succ]
      refine ⟨?_, ih stack.2 (by omega) (by omega)⟩
      rw [← stack.1]
      exact loadWord_congr fun a here => storeWord_outside (within_first here (by omega) fits)

/-- Pushing the words of a list one after the other. -/
def pushAll (mem : ByteMemory) (sp : BitVec 32) : List (BitVec 32) → ByteMemory
  | [] => mem
  | word :: words => pushAll (storeWord mem (sp - 4) word) (sp - 4) words

theorem pushAll_append (mem : ByteMemory) (sp : BitVec 32) (words more : List (BitVec 32)) :
    pushAll mem sp (words ++ more) = pushAll (pushAll mem sp words) (below sp words.length) more := by
  induction words generalizing mem sp with
  | nil => simp [pushAll, below_zero]
  | cons word words ih => simp [pushAll, ih, below_succ]

theorem below_below (sp : BitVec 32) (n m : Nat) : below (below sp n) m = below sp (n + m) := by
  unfold below
  rw [Nat.mul_add, BitVec.ofNat_add]
  bv_omega

/-- Pushed words lie on the stack in the opposite order, over what was there. -/
theorem StackAt.pushAll (stack : StackAt mem sp words) (pushed : List (BitVec 32))
    (fits : 4 * (pushed.length + words.length) ≤ 2 ^ 32) :
    StackAt (pushAll mem sp pushed) (below sp pushed.length) (pushed.reverse ++ words) := by
  induction pushed generalizing mem sp words with
  | nil => simpa [Library.pushAll, below_zero] using stack
  | cons word pushed ih =>
    rw [List.length_cons] at fits
    have one := stack.push word (by omega)
    have all := ih one (by rw [List.length_cons]; omega)
    simpa [Library.pushAll, below_succ] using all

/-- Nothing but the room of the words changes. -/
theorem pushAll_outside (fits : 4 * pushed.length ≤ 2 ^ 32)
    (outside : ¬Within (below sp pushed.length) (4 * pushed.length) a) :
    pushAll mem sp pushed a = mem a := by
  induction pushed generalizing mem sp with
  | nil => rfl
  | cons word pushed ih =>
    rw [List.length_cons] at fits outside
    rw [below_succ] at outside
    rw [pushAll, ih (by omega)]
    · apply storeWord_outside
      exact fun inside => outside (within_below inside fits)
    · exact fun inside => outside (within_mono inside (by omega))

inductive Reg
  | eax | ecx | edx | ebx | esp | ebp | esi | edi
  deriving DecidableEq, Repr

structure Cpu where
  regs : Reg → BitVec 32
  eflags : BitVec 32
  eip : BitVec 32
  cs : BitVec 16
  ss : BitVec 16
  mem : ByteMemory

namespace Cpu

def esp (cpu : Cpu) : BitVec 32 := cpu.regs .esp

def set (cpu : Cpu) (r : Reg) (word : BitVec 32) : Cpu :=
  { cpu with regs := Function.update cpu.regs r word }

def push (cpu : Cpu) (word : BitVec 32) : Cpu :=
  { cpu.set .esp (cpu.esp - 4) with mem := storeWord cpu.mem (cpu.esp - 4) word }

/-- The word on top of the stack, and the machine without it. -/
def pop (cpu : Cpu) : BitVec 32 × Cpu := (loadWord cpu.mem cpu.esp, cpu.set .esp (cpu.esp + 4))

def pushes (cpu : Cpu) (words : List (BitVec 32)) : Cpu :=
  { cpu.set .esp (below cpu.esp words.length) with mem := pushAll cpu.mem cpu.esp words }

/-- What `pop` leaves after loading `values` into the registers of a list. -/
def restored (cpu : Cpu) (rs : List Reg) (values : Reg → BitVec 32) : Cpu :=
  { cpu with regs := fun r =>
      if r = .esp then above cpu.esp rs.length else if r ∈ rs then values r else cpu.regs r }

end Cpu

/-- The flags that `popf` writes at privilege level 0, and the resume flag, which it clears. -/
def writableFlags : BitVec 32 := 0x247FD5
def resumeFlag : BitVec 32 := 0x10000
/-- The flags that `pushf` stores as 0. -/
def unpushedFlags : BitVec 32 := 0x30000
def directionFlag : BitVec 32 := 0x400
def arithmeticFlags : BitVec 32 := 0x8D5

/-- The carry, parity, adjust, zero, sign and overflow flags of a result. -/
def resultFlags (result : BitVec 32) (carry adjust overflow : Bool) : BitVec 32 :=
  (if carry then 0x1 else 0) |||
    (if (List.range 8).countP (result.getLsbD ·) % 2 = 0 then 0x4 else 0) |||
    (if adjust then 0x10 else 0) ||| (if result = 0 then 0x40 else 0) |||
    (if result.msb then 0x80 else 0) ||| (if overflow then 0x800 else 0)

/-- The part of the instruction set that moves words between registers and the stack. -/
inductive Instr
  | push (r : Reg)
  | pushImm (word : BitVec 32)
  | pushf
  | pop (r : Reg)
  | popf
  /-- `mov disp(base), dst` -/
  | load (disp : BitVec 32) (base dst : Reg)
  /-- `mov src, disp(base)` -/
  | store (src : Reg) (disp : BitVec 32) (base : Reg)
  /-- `add $imm, r` -/
  | add (imm : BitVec 32) (r : Reg)
  | cld
  | ret
  deriving Repr

def Instr.exec (cpu : Cpu) : Instr → Cpu
  | .push r => cpu.push (cpu.regs r)
  | .pushImm word => cpu.push word
  | .pushf => cpu.push (cpu.eflags &&& ~~~unpushedFlags)
  | .pop r => cpu.pop.2.set r cpu.pop.1
  | .popf =>
    { cpu.pop.2 with
      eflags := (cpu.eflags &&& ~~~(writableFlags ||| resumeFlag)) ||| (cpu.pop.1 &&& writableFlags) }
  | .load disp base dst => cpu.set dst (loadWord cpu.mem (cpu.regs base + disp))
  | .store src disp base =>
    { cpu with mem := storeWord cpu.mem (cpu.regs base + disp) (cpu.regs src) }
  | .add imm r =>
    { cpu.set r (cpu.regs r + imm) with
      eflags := (cpu.eflags &&& ~~~arithmeticFlags) |||
        resultFlags (cpu.regs r + imm) (2 ^ 32 ≤ (cpu.regs r).toNat + imm.toNat)
          (16 ≤ (cpu.regs r).toNat % 16 + imm.toNat % 16) (BitVec.saddOverflow (cpu.regs r) imm) }
  | .cld => { cpu with eflags := cpu.eflags &&& ~~~directionFlag }
  | .ret => { cpu.pop.2 with eip := cpu.pop.1 }

def runCode (cpu : Cpu) (code : List Instr) : Cpu := code.foldl Instr.exec cpu

variable {cpu : Cpu}

@[simp] theorem runCode_nil : runCode cpu [] = cpu := rfl

@[simp] theorem runCode_cons (instr : Instr) (code : List Instr) :
    runCode cpu (instr :: code) = runCode (instr.exec cpu) code := rfl

theorem runCode_append (code more : List Instr) :
    runCode cpu (code ++ more) = runCode (runCode cpu code) more := List.foldl_append

@[simp] theorem pushes_nil : cpu.pushes [] = cpu := by
  simp [Cpu.pushes, Cpu.set, pushAll, below_zero, Cpu.esp]

@[simp] theorem pushes_esp (cpu : Cpu) (words : List (BitVec 32)) :
    (cpu.pushes words).esp = below cpu.esp words.length := by
  simp [Cpu.pushes, Cpu.set, Cpu.esp]

@[simp] theorem pushes_mem (words : List (BitVec 32)) :
    (cpu.pushes words).mem = pushAll cpu.mem cpu.esp words := rfl

theorem pushes_regs {r : Reg} (plain : r ≠ .esp) (words : List (BitVec 32)) :
    (cpu.pushes words).regs r = cpu.regs r := Function.update_of_ne plain _ _

theorem pushes_append (words more : List (BitVec 32)) :
    cpu.pushes (words ++ more) = (cpu.pushes words).pushes more := by
  simp [Cpu.pushes, Cpu.set, Cpu.esp, pushAll_append, below_below]

theorem pushes_one (word : BitVec 32) : cpu.push word = cpu.pushes [word] := by
  simp [Cpu.push, Cpu.pushes, Cpu.set, pushAll, below]

/-- Registers other than the stack pointer are pushed as they stand at the start. -/
theorem run_pushes {rs : List Reg} (plain : Reg.esp ∉ rs) :
    runCode cpu (rs.map .push) = cpu.pushes (rs.map cpu.regs) := by
  induction rs generalizing cpu with
  | nil => simp
  | cons r rs ih =>
    rcases not_or.mp (plain ∘ List.mem_cons.mpr) with ⟨-, rest⟩
    have same : rs.map (cpu.pushes [cpu.regs r]).regs = rs.map cpu.regs := by
      apply List.map_congr_left
      intro other member
      exact pushes_regs (fun is => rest (is ▸ member)) _
    have step : Instr.exec cpu (.push r) = cpu.pushes [cpu.regs r] := pushes_one _
    rw [List.map_cons, runCode_cons, step, ih rest, same, ← pushes_append]
    rfl

@[simp] theorem restored_esp (rs : List Reg) (values : Reg → BitVec 32) :
    (cpu.restored rs values).esp = above cpu.esp rs.length := by
  simp [Cpu.restored, Cpu.esp]

theorem restored_reg (cpu : Cpu) {rs : List Reg} {r : Reg} (values : Reg → BitVec 32) (plain : r ≠ .esp)
    (member : r ∈ rs) : (cpu.restored rs values).regs r = values r := by
  simp [Cpu.restored, plain, member]

theorem restored_nil (values : Reg → BitVec 32) : cpu.restored [] values = cpu := by
  have same : ∀ r, (cpu.restored [] values).regs r = cpu.regs r := by
    intro r
    by_cases top : r = .esp
    · simp [Cpu.restored, top, above_zero, Cpu.esp]
    · simp [Cpu.restored, top]
  simp only [Cpu.restored] at same ⊢
  rw [funext same]

/-- Registers popped from a stack that holds `values` for them get these values. -/
theorem run_pops {rs : List Reg} {values : Reg → BitVec 32} (plain : Reg.esp ∉ rs)
    (stack : StackAt cpu.mem cpu.esp (rs.map values)) :
    runCode cpu (rs.map .pop) = cpu.restored rs values := by
  induction rs generalizing cpu with
  | nil => simp [restored_nil]
  | cons r rs ih =>
    rcases not_or.mp (plain ∘ List.mem_cons.mpr) with ⟨top, rest⟩
    rcases stack with ⟨first, others⟩
    have step : Instr.exec cpu (.pop r) = (cpu.set .esp (cpu.esp + 4)).set r (values r) := by
      rw [← first]
      rfl
    have sp : ((cpu.set .esp (cpu.esp + 4)).set r (values r)).esp = cpu.esp + 4 := by
      simp [Cpu.set, Cpu.esp, Function.update_of_ne top]
    rw [List.map_cons, runCode_cons, step, ih rest (by rw [sp]; exact others)]
    simp only [Cpu.restored, Cpu.set, Cpu.mk.injEq, and_true] at sp ⊢
    funext other
    rw [sp]
    by_cases isTop : other = .esp
    · simp [isTop, above_succ]
    · by_cases same : other = r
      · simp [same, Ne.symm top]
      · by_cases member : other ∈ rs <;> simp [isTop, same, member]

/-- The privilege level that a selector asks for. -/
def requestedLevel (selector : BitVec 16) : BitVec 2 := selector.extractLsb' 0 2

def Cpu.level (cpu : Cpu) : BitVec 2 := requestedLevel cpu.cs

/-- Where an interrupt is taken to, at privilege level 0. -/
structure InterruptGate where
  esp0 : BitVec 32
  ss0 : BitVec 16
  cs : BitVec 16
  eip : BitVec 32
  trap : Bool

/-- The trap, nested task, resume and virtual 8086 flags, and the interrupt flag unless the gate is
    a trap gate. -/
def clearedFlags (trap : Bool) : BitVec 32 := if trap then 0x34100 else 0x34300

/-- The stack an interrupt is taken on, and what is pushed there of the interrupted one. -/
def Cpu.switched (gate : InterruptGate) (cpu : Cpu) : Cpu :=
  if cpu.level = 0 then cpu else { cpu.set .esp gate.esp0 with ss := gate.ss0 }

def Cpu.outerStack (cpu : Cpu) : List (BitVec 32) :=
  if cpu.level = 0 then [] else [cpu.esp, cpu.ss.setWidth 32]

/-- The words that an interrupt leaves on the stack, the last one pushed first. -/
def Cpu.interruptWords (code : Option (BitVec 32)) (cpu : Cpu) : List (BitVec 32) :=
  code.toList ++ [cpu.eip, cpu.cs.setWidth 32, cpu.eflags] ++ cpu.outerStack

def Cpu.deliver (gate : InterruptGate) (code : Option (BitVec 32)) (cpu : Cpu) : Cpu :=
  { (cpu.switched gate).pushes (cpu.interruptWords code).reverse with
    cs := gate.cs
    eip := gate.eip
    eflags := cpu.eflags &&& ~~~clearedFlags gate.trap }

def Cpu.iret (cpu : Cpu) : Cpu :=
  let selector := (loadWord cpu.mem (above cpu.esp 1)).setWidth 16
  let returned := { cpu.set .esp (above cpu.esp 3) with
    eip := loadWord cpu.mem cpu.esp
    cs := selector
    eflags := loadWord cpu.mem (above cpu.esp 2) }
  if cpu.level < requestedLevel selector then
    { returned.set .esp (loadWord cpu.mem (above cpu.esp 3)) with
      ss := (loadWord cpu.mem (above cpu.esp 4)).setWidth 16 }
  else returned

theorem interruptWords_length (code : Option (BitVec 32)) (cpu : Cpu) :
    (cpu.interruptWords code).length ≤ 6 := by
  have one : code.toList.length ≤ 1 := by cases code <;> simp
  have two : cpu.outerStack.length ≤ 2 := by
    unfold Cpu.outerStack
    split <;> simp
  simp only [Cpu.interruptWords, List.length_append, List.length_cons, List.length_nil]
  omega

theorem deliver_stack (gate : InterruptGate) (code : Option (BitVec 32)) (cpu : Cpu) :
    StackAt (cpu.deliver gate code).mem (cpu.deliver gate code).esp (cpu.interruptWords code) := by
  have short := interruptWords_length code cpu
  have empty : StackAt (cpu.switched gate).mem (cpu.switched gate).esp [] := trivial
  have pushed := empty.pushAll (cpu.interruptWords code).reverse (by simp; omega)
  rw [List.reverse_reverse, List.append_nil] at pushed
  have sp : (cpu.deliver gate code).esp =
      below (cpu.switched gate).esp (cpu.interruptWords code).reverse.length := pushes_esp _ _
  rw [sp]
  exact pushed

/-- `iret` takes a machine back to where an interrupt was taken from. -/
theorem iret_delivered (cpu : Cpu) {before : Cpu} (kernel : cpu.level = 0)
    (stack : StackAt cpu.mem cpu.esp (before.interruptWords none)) :
    cpu.iret.eip = before.eip ∧ cpu.iret.cs = before.cs ∧ cpu.iret.eflags = before.eflags ∧
      cpu.iret.mem = cpu.mem ∧
      cpu.iret.esp = (if before.level = 0 then above cpu.esp 3 else before.esp) ∧
      cpu.iret.ss = (if before.level = 0 then cpu.ss else before.ss) ∧
      ∀ r, r ≠ .esp → cpu.iret.regs r = cpu.regs r := by
  have eip := stack.word (i := 0) rfl
  have cs := stack.word (i := 1) rfl
  have eflags := stack.word (i := 2) rfl
  have selector : (before.cs.setWidth 32).setWidth 16 = before.cs := by
    rw [BitVec.setWidth_setWidth_of_le _ (by decide), BitVec.setWidth_eq]
  rw [above_zero] at eip
  by_cases inner : before.level = 0
  · have stays : ¬cpu.level < requestedLevel before.cs := by
      rw [kernel, show requestedLevel before.cs = 0 from inner]
      decide
    simp only [Cpu.iret, eip, cs, eflags, selector, stays, inner, if_true, if_false]
    refine ⟨trivial, trivial, trivial, rfl, ?_, rfl, ?_⟩
    · simp [Cpu.set, Cpu.esp]
    · intro r plain
      simp [Cpu.set, plain]
  · have outward : cpu.level < requestedLevel before.cs := by
      rw [kernel]
      exact Nat.pos_of_ne_zero fun zero => inner (BitVec.eq_of_toNat_eq zero)
    have outer : before.outerStack = [before.esp, before.ss.setWidth 32] := if_neg inner
    rw [Cpu.interruptWords, outer] at stack
    have esp := stack.word (i := 3) rfl
    have ss := stack.word (i := 4) rfl
    have segment : (before.ss.setWidth 32).setWidth 16 = before.ss := by
      rw [BitVec.setWidth_setWidth_of_le _ (by decide), BitVec.setWidth_eq]
    simp only [Cpu.iret, eip, cs, eflags, esp, ss, selector, segment, outward, inner, if_true,
      if_false]
    refine ⟨rfl, rfl, rfl, rfl, ?_, trivial, ?_⟩
    · simp [Cpu.set, Cpu.esp]
    · intro r plain
      simp [Cpu.set, plain]

end Library
