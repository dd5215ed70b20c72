import Dxgmx.Library.StackMachine

open Library

namespace Dxgmx

/-- The registers of `PUSH_REGISTERS_INT`. -/
def intRegs : List Reg := [.eax, .ecx, .edx, .ebx, .ebp, .esi, .edi]

def pushRegistersInt : List Instr := intRegs.map .push

def popRegistersInt : List Instr := intRegs.reverse.map .pop

def makeFrameInt : Instr := .push .esp

def jumpOverSizeTInt : Instr := .add 4 .esp

/-- `INT_ENTRY`, `INT_ENTRY_CODE` and `INT_ENTRY_MAYBE_SPURIOUS`. -/
inductive IntEntry
  | plain
  | code
  | maybeSpurious
  deriving DecidableEq, Repr

def intEntry (n : Nat) : IntEntry :=
  if n ∈ [8, 10, 11, 12, 13, 14, 17, 30] then .code
  else if n ∈ [39, 47] then .maybeSpurious
  else .plain

/-- The operands of `PUSH_FAKE_CODE_INT`. -/
def IntEntry.fakeCode : IntEntry → List (BitVec 32)
  | .plain => [0]
  | .code => []
  | .maybeSpurious => [0]

/-- An entry up to its first call. -/
def IntEntry.enter (kind : IntEntry) : List Instr :=
  kind.fakeCode.map .pushImm ++ pushRegistersInt ++ [makeFrameInt, .cld]

/-- What an entry calls, and the address behind the call. -/
structure IntCalls where
  isr : Cpu → Cpu
  idtIsIrqSpurious : Cpu → Cpu
  ret : BitVec 32

def IntEntry.handle (calls : IntCalls) (cpu : Cpu) : IntEntry → Cpu
  | .plain => calls.isr (cpu.push calls.ret)
  | .code => calls.isr (cpu.push calls.ret)
  | .maybeSpurious =>
    let asked := calls.idtIsIrqSpurious (cpu.push calls.ret)
    if asked.regs .eax = 1 then asked else calls.isr (asked.push calls.ret)

def intCommonExit (cpu : Cpu) : Cpu :=
  (runCode cpu (jumpOverSizeTInt :: popRegistersInt ++ [jumpOverSizeTInt])).iret

/-- The interrupt entry of a vector, from the state in which the processor starts it. -/
def intN (calls : IntCalls) (n : Nat) (cpu : Cpu) : Cpu :=
  intCommonExit ((intEntry n).handle calls (runCode cpu (intEntry n).enter))

structure InterruptFrame where
  xdi : BitVec 32
  xsi : BitVec 32
  xbp : BitVec 32
  xbx : BitVec 32
  xdx : BitVec 32
  xcx : BitVec 32
  xax : BitVec 32
  code : BitVec 32
  xip : BitVec 32
  xcs : BitVec 32
  xflags : BitVec 32
  deriving DecidableEq

/-- The fields behind an `InterruptFrame*`. -/
def interruptFrameAt (mem : ByteMemory) (frame : BitVec 32) : InterruptFrame where
  xdi := loadWord mem frame
  xsi := loadWord mem (above frame 1)
  xbp := loadWord mem (above frame 2)
  xbx := loadWord mem (above frame 3)
  xdx := loadWord mem (above frame 4)
  xcx := loadWord mem (above frame 5)
  xax := loadWord mem (above frame 6)
  code := loadWord mem (above frame 7)
  xip := loadWord mem (above frame 8)
  xcs := loadWord mem (above frame 9)
  xflags := loadWord mem (above frame 10)

/-- The frame that describes a machine interrupted with an error code. -/
def interruptFrameOf (cpu : Cpu) (code : BitVec 32) : InterruptFrame where
  xdi := cpu.regs .edi
  xsi := cpu.regs .esi
  xbp := cpu.regs .ebp
  xbx := cpu.regs .ebx
  xdx := cpu.regs .edx
  xcx := cpu.regs .ecx
  xax := cpu.regs .eax
  code := code
  xip := cpu.eip
  xcs := cpu.cs.setWidth 32
  xflags := cpu.eflags

variable {cpu before : Cpu} {gate : InterruptGate} {code : Option (BitVec 32)} {calls : IntCalls}

theorem run_enter (kind : IntEntry) (cpu : Cpu) : runCode cpu kind.enter =
    Instr.exec (cpu.pushes (kind.fakeCode ++ intRegs.map cpu.regs ++
      [below cpu.esp (kind.fakeCode.length + 7)])) .cld := by
  have fake : runCode cpu (kind.fakeCode.map .pushImm) = cpu.pushes kind.fakeCode := by
    cases kind with
    | plain => exact pushes_one 0
    | code => simp [IntEntry.fakeCode]
    | maybeSpurious => exact pushes_one 0
  have same : intRegs.map (cpu.pushes kind.fakeCode).regs = intRegs.map cpu.regs := by
    apply List.map_congr_left
    intro r member
    exact pushes_regs (fun is => absurd (is ▸ member) (by decide)) _
  have plain : Reg.esp ∉ intRegs := by decide
  rw [IntEntry.enter, runCode_append, runCode_append, fake, pushRegistersInt, run_pushes plain,
    same, ← pushes_append, runCode_cons, runCode_cons, runCode_nil]
  have frame : Instr.exec (cpu.pushes (kind.fakeCode ++ intRegs.map cpu.regs)) makeFrameInt =
      (cpu.pushes (kind.fakeCode ++ intRegs.map cpu.regs)).pushes
        [below cpu.esp (kind.fakeCode.length + 7)] := by
    have top := pushes_esp cpu (kind.fakeCode ++ intRegs.map cpu.regs)
    simp only [List.length_append, List.length_map] at top
    rw [← pushes_one]
    exact congrArg (Cpu.push _) top
  rw [frame, ← pushes_append]

theorem enter_esp (kind : IntEntry) (cpu : Cpu) :
    (runCode cpu kind.enter).esp = below cpu.esp (kind.fakeCode.length + 8) := by
  have sp := pushes_esp cpu (kind.fakeCode ++ intRegs.map cpu.regs ++
    [below cpu.esp (kind.fakeCode.length + 7)])
  rw [run_enter]
  simpa [Instr.exec, Cpu.esp, intRegs] using sp

/-- What an entry leaves on the stack: the pointer to the frame, and the frame. -/
theorem enter_stack (kind : IntEntry) {words : List (BitVec 32)}
    (stack : StackAt cpu.mem cpu.esp words) (few : words.length ≤ 6) :
    StackAt (runCode cpu kind.enter).mem (runCode cpu kind.enter).esp
      (above (runCode cpu kind.enter).esp 1 ::
        intRegs.reverse.map cpu.regs ++ kind.fakeCode ++ words) := by
  have short : kind.fakeCode.length ≤ 1 := by cases kind <;> simp [IntEntry.fakeCode]
  have same : kind.fakeCode.reverse = kind.fakeCode := by cases kind <;> rfl
  have pointer : above (runCode cpu kind.enter).esp 1 =
      below cpu.esp (kind.fakeCode.length + 7) := by
    rw [enter_esp, ← above_below (below cpu.esp (kind.fakeCode.length + 7)) 1, below_below]
  let saved := kind.fakeCode ++ intRegs.map cpu.regs ++ [below cpu.esp (kind.fakeCode.length + 7)]
  have size : saved.length = kind.fakeCode.length + 8 := by simp [saved, intRegs]
  have order : saved.reverse ++ words = below cpu.esp (kind.fakeCode.length + 7) ::
      intRegs.reverse.map cpu.regs ++ kind.fakeCode ++ words := by
    simp [saved, same]
  have pushed := stack.pushAll saved (by omega)
  rw [size, order] at pushed
  rw [pointer, enter_esp, run_enter]
  exact pushed

/-- What the entries call returns, and leaves the frame and the words behind it alone. -/
structure KeepsFrame (callee : Cpu → Cpu) : Prop where
  esp : ∀ cpu, (callee cpu).esp = cpu.esp + 4
  cs : ∀ cpu, (callee cpu).cs = cpu.cs
  ss : ∀ cpu, (callee cpu).ss = cpu.ss
  mem : ∀ cpu a, Within (above cpu.esp 2) 52 a → (callee cpu).mem a = cpu.mem a

/-- A call leaves the words above the pointer to the frame alone. -/
theorem KeepsFrame.called {callee : Cpu → Cpu} (keeps : KeepsFrame callee) (cpu : Cpu)
    (ret : BitVec 32) : (callee (cpu.push ret)).esp = cpu.esp ∧ (callee (cpu.push ret)).cs = cpu.cs ∧
      (callee (cpu.push ret)).ss = cpu.ss ∧
      ∀ a, Within (above cpu.esp 1) 52 a → (callee (cpu.push ret)).mem a = cpu.mem a := by
  have esp : (cpu.push ret).esp = cpu.esp - 4 := by simp [Cpu.push, Cpu.set, Cpu.esp]
  refine ⟨?_, keeps.cs _, keeps.ss _, fun a inside => ?_⟩
  · rw [keeps.esp, esp]
    bv_omega
  · have up : above (cpu.esp - 4) 2 = above cpu.esp 1 := by
      rw [above_succ]
      congr 1
      bv_omega
    rw [keeps.mem _ a (by rw [esp, up]; exact inside)]
    apply storeWord_outside
    unfold Within above at *
    bv_omega

structure IntCalls.KeepFrame (calls : IntCalls) : Prop where
  isr : KeepsFrame calls.isr
  idtIsIrqSpurious : KeepsFrame calls.idtIsIrqSpurious

theorem IntCalls.KeepFrame.handle (keep : calls.KeepFrame) (kind : IntEntry) (cpu : Cpu) :
    (kind.handle calls cpu).esp = cpu.esp ∧ (kind.handle calls cpu).cs = cpu.cs ∧
      (kind.handle calls cpu).ss = cpu.ss ∧
      ∀ a, Within (above cpu.esp 1) 52 a → (kind.handle calls cpu).mem a = cpu.mem a := by
  cases kind with
  | plain => exact keep.isr.called cpu calls.ret
  | code => exact keep.isr.called cpu calls.ret
  | maybeSpurious =>
    rcases keep.idtIsIrqSpurious.called cpu calls.ret with ⟨esp, cs, ss, mem⟩
    rcases keep.isr.called (calls.idtIsIrqSpurious (cpu.push calls.ret)) calls.ret
      with ⟨esp', cs', ss', mem'⟩
    simp only [IntEntry.handle]
    split
    · exact ⟨esp, cs, ss, mem⟩
    · refine ⟨esp'.trans esp, cs'.trans cs, ss'.trans ss, fun a inside => ?_⟩
      rw [mem' a (by rw [esp]; exact inside), mem a inside]

/-- The exit goes back to the machine that the words above the frame pointer describe. -/
theorem intCommonExit_resumes {pointer code : BitVec 32} {values : Reg → BitVec 32}
    (kernel : cpu.level = 0)
    (stack : StackAt cpu.mem cpu.esp (pointer :: intRegs.reverse.map values ++
      code :: before.interruptWords none)) :
    (intCommonExit cpu).eip = before.eip ∧ (intCommonExit cpu).cs = before.cs ∧
      (intCommonExit cpu).eflags = before.eflags ∧
      (intCommonExit cpu).esp = (if before.level = 0 then above cpu.esp 12 else before.esp) ∧
      (intCommonExit cpu).ss = (if before.level = 0 then cpu.ss else before.ss) ∧
      ∀ r, r ≠ .esp → (intCommonExit cpu).regs r = values r := by
  have plain : Reg.esp ∉ intRegs.reverse := by decide
  have first : (Instr.exec cpu jumpOverSizeTInt).esp = cpu.esp + 4 := by
    simp [jumpOverSizeTInt, Instr.exec, Cpu.set, Cpu.esp]
  have regs : StackAt (Instr.exec cpu jumpOverSizeTInt).mem (Instr.exec cpu jumpOverSizeTInt).esp
      (intRegs.reverse.map values) := by
    rw [first]
    exact StackAt.left stack.2
  let popped := (Instr.exec cpu jumpOverSizeTInt).restored intRegs.reverse values
  have run : intCommonExit cpu = (Instr.exec popped jumpOverSizeTInt).iret := by
    rw [intCommonExit, List.cons_append, runCode_cons, popRegistersInt, runCode_append,
      run_pops plain regs]
    rfl
  have last : (Instr.exec popped jumpOverSizeTInt).esp = popped.esp + 4 := by
    simp [jumpOverSizeTInt, Instr.exec, Cpu.set, Cpu.esp]
  have sp : (Instr.exec popped jumpOverSizeTInt).esp = above cpu.esp 9 := by
    rw [last, restored_esp, first]
    simp [above, intRegs]
    bv_omega
  have words : StackAt (Instr.exec popped jumpOverSizeTInt).mem
      (Instr.exec popped jumpOverSizeTInt).esp (before.interruptWords none) := by
    rw [List.append_cons] at stack
    rw [sp]
    exact stack.right
  rcases iret_delivered (Instr.exec popped jumpOverSizeTInt) kernel words with
    ⟨eip, cs, eflags, -, esp, ss, others⟩
  rw [run]
  refine ⟨eip, cs, eflags, ?_, ss, fun r notTop => ?_⟩
  · rw [esp, sp]
    congr 1
    simp [above]
    bv_omega
  · have member : r ∈ intRegs.reverse := by cases r <;> simp [intRegs] at notTop ⊢
    rw [others r notTop,
      ← restored_reg (Instr.exec cpu jumpOverSizeTInt) values notTop member]
    exact Function.update_of_ne notTop _ _

/-- The exceptions for which the processor pushes an error code. -/
def pushesErrorCode (n : Nat) : Prop := n ∈ [8, 10, 11, 12, 13, 14, 17, 21, 29, 30]

theorem fakeCode_matches {n : Nat} (right : n ≠ 21 ∧ n ≠ 29)
    (real : code.isSome ↔ pushesErrorCode n) :
    (intEntry n).fakeCode ++ code.toList = [code.getD 0] := by
  unfold intEntry
  unfold pushesErrorCode at real
  cases code with
  | none =>
    have quiet : n ∉ [8, 10, 11, 12, 13, 14, 17, 30] := by
      intro member
      apply absurd real
      simp only [List.mem_cons, List.not_mem_nil, or_false] at member ⊢
      simp
      omega
    rw [if_neg quiet]
    split <;> rfl
  | some word =>
    have pushes : n ∈ [8, 10, 11, 12, 13, 14, 17, 30] := by
      simp only [List.mem_cons, List.not_mem_nil, or_false, Option.isSome_some, true_iff] at real ⊢
      omega
    rw [if_pos pushes]
    rfl

/-- The handler of an interrupt gets a frame that describes the interrupted machine, and afterwards
    this machine goes on as it was. -/
structure InterruptRight (n : Nat) (calls : IntCalls) (gate : InterruptGate)
    (code : Option (BitVec 32)) (before : Cpu) : Prop where
  frame : interruptFrameAt (runCode (before.deliver gate code) (intEntry n).enter).mem
    (loadWord (runCode (before.deliver gate code) (intEntry n).enter).mem
      (runCode (before.deliver gate code) (intEntry n).enter).esp) = interruptFrameOf before (code.getD 0)
  resumes : intN calls n (before.deliver gate code) =
    { before with mem := (intN calls n (before.deliver gate code)).mem }

theorem interruptFrameAt_stack {mem : ByteMemory} {frame word : BitVec 32}
    (stack : StackAt mem frame
      (intRegs.reverse.map before.regs ++ word :: before.interruptWords none)) :
    interruptFrameAt mem frame = interruptFrameOf before word := by
  have first := stack.1
  simp only [interruptFrameAt, interruptFrameOf, InterruptFrame.mk.injEq]
  exact ⟨first, stack.word (i := 1) rfl, stack.word (i := 2) rfl, stack.word (i := 3) rfl,
    stack.word (i := 4) rfl, stack.word (i := 5) rfl, stack.word (i := 6) rfl,
    stack.word (i := 7) rfl, stack.word (i := 8) rfl, stack.word (i := 9) rfl,
    stack.word (i := 10) rfl⟩

theorem interruptWords_code (code : Option (BitVec 32)) (cpu : Cpu) :
    cpu.interruptWords code = code.toList ++ cpu.interruptWords none := by
  simp [Cpu.interruptWords]

theorem deliver_regs {r : Reg} (plain : r ≠ .esp) :
    (before.deliver gate code).regs r = before.regs r := by
  have switched : (before.switched gate).regs r = before.regs r := by
    unfold Cpu.switched
    split
    · rfl
    · exact Function.update_of_ne plain _ _
  rw [← switched]
  exact pushes_regs plain _

theorem entered_stack {n : Nat} {word : BitVec 32}
    (aligned : (intEntry n).fakeCode ++ code.toList = [word]) (gate : InterruptGate)
    (before : Cpu) :
    let entered := runCode (before.deliver gate code) (intEntry n).enter
    StackAt entered.mem entered.esp (above entered.esp 1 ::
      intRegs.reverse.map before.regs ++ word :: before.interruptWords none) := by
  have stack := enter_stack (intEntry n) (deliver_stack gate code before)
    (interruptWords_length code before)
  have same : intRegs.reverse.map (before.deliver gate code).regs =
      intRegs.reverse.map before.regs := by
    apply List.map_congr_left
    intro r member
    exact deliver_regs fun is => absurd (is ▸ member) (by decide)
  rw [same, interruptWords_code, List.append_assoc, ← List.append_assoc _ code.toList, aligned]
    at stack
  exact stack

theorem entered_esp {n : Nat} {word : BitVec 32}
    (aligned : (intEntry n).fakeCode ++ code.toList = [word]) (gate : InterruptGate)
    (inner : before.level = 0) :
    above (runCode (before.deliver gate code) (intEntry n).enter).esp 12 = before.esp := by
  have one : (intEntry n).fakeCode.length + code.toList.length = 1 := by
    rw [← List.length_append, aligned, List.length_singleton]
  have same : before.switched gate = before := if_pos inner
  have delivered : (before.deliver gate code).esp =
      below (before.switched gate).esp (before.interruptWords code).reverse.length := pushes_esp _ _
  have length : (before.interruptWords code).reverse.length = code.toList.length + 3 := by
    simp [Cpu.interruptWords, Cpu.outerStack, inner]
  rw [length, same] at delivered
  have total : code.toList.length + 3 + ((intEntry n).fakeCode.length + 8) = 12 := by omega
  rw [enter_esp, delivered, below_below, total, above_below]

theorem entered_ss (n : Nat) (gate : InterruptGate) (inner : before.level = 0) :
    (runCode (before.deliver gate code) (intEntry n).enter).ss = before.ss := by
  have same : before.switched gate = before := if_pos inner
  have delivered : (before.deliver gate code).ss = (before.switched gate).ss := rfl
  rw [same] at delivered
  rw [run_enter]
  exact delivered

/-- The interrupted machine goes on with the registers that the handler left in the frame. -/
theorem intN_resumes {n : Nat} {word left : BitVec 32} {values : Reg → BitVec 32}
    (aligned : (intEntry n).fakeCode ++ code.toList = [word]) (before : Cpu)
    (kernel : requestedLevel gate.cs = 0)
    (kept : let entered := runCode (before.deliver gate code) (intEntry n).enter
      let back := (intEntry n).handle calls entered
      back.esp = entered.esp ∧ back.cs = entered.cs ∧ back.ss = entered.ss ∧
        StackAt back.mem (above entered.esp 1)
          (intRegs.reverse.map values ++ left :: before.interruptWords none)) :
    intN calls n (before.deliver gate code) =
      { before with
        regs := Function.update values .esp before.esp
        mem := (intN calls n (before.deliver gate code)).mem } := by
  let entered := runCode (before.deliver gate code) (intEntry n).enter
  let back := (intEntry n).handle calls entered
  rcases kept with ⟨esp, cs, ss, words⟩
  have up : entered.esp + 4 = above entered.esp 1 := by simp [above]
  have stack : StackAt back.mem back.esp (loadWord back.mem back.esp ::
      intRegs.reverse.map values ++ left :: before.interruptWords none) := by
    refine ⟨rfl, ?_⟩
    rw [show back.esp = entered.esp from esp, up]
    exact words
  have level : back.level = 0 := by
    have same : entered.cs = gate.cs := by
      simp only [entered]
      rw [run_enter]
      rfl
    rw [Cpu.level, show back.cs = entered.cs from cs, same, kernel]
  rcases intCommonExit_resumes level stack with ⟨eip', cs', eflags', esp', ss', regs'⟩
  have pointer : (intCommonExit back).esp = before.esp := by
    refine esp'.trans ?_
    split
    next inner =>
      rw [show back.esp = entered.esp from esp]
      exact entered_esp aligned gate inner
    next => rfl
  have segment : (intCommonExit back).ss = before.ss := by
    refine ss'.trans ?_
    split
    next inner =>
      rw [show back.ss = entered.ss from ss]
      exact entered_ss n gate inner
    next => rfl
  have regs : (intCommonExit back).regs = Function.update values .esp before.esp := by
    funext r
    by_cases top : r = .esp
    · rw [top, Function.update_self]
      exact pointer
    · rw [Function.update_of_ne top]
      exact regs' r top
  have final : intN calls n (before.deliver gate code) = intCommonExit back := rfl
  rw [final]
  cases after : intCommonExit back
  rw [after] at regs eip' cs' segment eflags'
  simp only at regs eip' cs' segment eflags'
  simp [regs, eip', cs', segment, eflags']

theorem interruptWords_none_length (cpu : Cpu) : (cpu.interruptWords none).length ≤ 5 := by
  have short := interruptWords_length (some 0) cpu
  rw [interruptWords_code, List.length_append] at short
  exact Nat.le_of_add_le_add_left short

theorem interrupt_right {n : Nat} (right : n ≠ 21 ∧ n ≠ 29) (before : Cpu)
    (kernel : requestedLevel gate.cs = 0) (keep : calls.KeepFrame)
    (real : code.isSome ↔ pushesErrorCode n) : InterruptRight n calls gate code before := by
  have aligned := fakeCode_matches right real
  let entered := runCode (before.deliver gate code) (intEntry n).enter
  have stack : StackAt entered.mem entered.esp (above entered.esp 1 ::
      intRegs.reverse.map before.regs ++ code.getD 0 :: before.interruptWords none) :=
    entered_stack aligned gate before
  have up : entered.esp + 4 = above entered.esp 1 := by simp [above]
  have frame := stack.2
  rw [up] at frame
  constructor
  case frame =>
    rw [show loadWord entered.mem entered.esp = above entered.esp 1 from stack.1]
    exact interruptFrameAt_stack frame
  case resumes =>
    have short := interruptWords_none_length before
    rcases keep.handle (intEntry n) entered with ⟨esp, cs, ss, mem⟩
    have kept : StackAt ((intEntry n).handle calls entered).mem (above entered.esp 1)
        (intRegs.reverse.map before.regs ++ code.getD 0 :: before.interruptWords none) := by
      apply frame.frame
      · simp [intRegs]
        omega
      · intro a inside
        apply mem
        apply within_mono inside
        simp [intRegs]
        omega
    have resumed := intN_resumes aligned before kernel ⟨esp, cs, ss, kept⟩
    rw [Cpu.esp, Function.update_eq_self] at resumed
    exact resumed

/-- A vector whose entry pushes a code over the one of the processor hides the return address. -/
theorem two_codes {n : Nat} {word : BitVec 32} (fake : (intEntry n).fakeCode = [0])
    (right : InterruptRight n calls gate (some word) before) : word = before.eip := by
  let entered := runCode (before.deliver gate (some word)) (intEntry n).enter
  have stack := enter_stack (intEntry n) (deliver_stack gate (some word) before)
    (interruptWords_length _ before)
  rw [fake] at stack
  have pointer : loadWord entered.mem entered.esp = above entered.esp 1 := stack.1
  have frame := right.frame
  rw [show loadWord _ _ = _ from pointer] at frame
  have xip : loadWord entered.mem (above (above entered.esp 1) 8) = word := by
    have up : entered.esp + 4 = above entered.esp 1 := by simp [above]
    rw [← up]
    exact StackAt.word stack.2 (i := 8) rfl
  rw [← xip]
  exact congrArg InterruptFrame.xip frame

/-- A callee that returns at once. -/
theorem keepsFrame_ret : KeepsFrame fun cpu => Instr.exec cpu .ret where
  esp cpu := by simp [Instr.exec, Cpu.pop, Cpu.set, Cpu.esp]
  cs _ := rfl
  ss _ := rfl
  mem _ _ _ := rfl

/-- Interrupts are handled right on every vector but those of the control protection and the VMM
    communication exceptions, whose error codes the entries do not expect. -/
theorem interrupt_right_iff (n : Nat) :
    (∀ before gate code calls, requestedLevel gate.cs = 0 → calls.KeepFrame →
      (code.isSome ↔ pushesErrorCode n) → InterruptRight n calls gate code before) ↔
      n ≠ 21 ∧ n ≠ 29 := by
  constructor
  · intro all
    by_contra wrong
    have vector : n = 21 ∨ n = 29 := by omega
    have right := all ⟨fun _ => 0, 2, 0, 8, 0x10, fun _ => 0⟩ ⟨0, 0x10, 8, 0, true⟩ (some 1)
      ⟨fun cpu => Instr.exec cpu .ret, fun cpu => Instr.exec cpu .ret, 0⟩ (by decide)
      ⟨keepsFrame_ret, keepsFrame_ret⟩ (by rcases vector with rfl | rfl <;> simp [pushesErrorCode])
    have same := two_codes (by rcases vector with rfl | rfl <;> rfl) right
    exact absurd same (by decide)
  · intro right before gate code calls kernel keep real
    exact interrupt_right right before kernel keep real

end Dxgmx
