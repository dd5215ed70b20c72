import Dxgmx.Library.StackMachine
import Dxgmx.Library.Runs

open Library

namespace Dxgmx

/-- The registers that `task_switch` saves besides the flags, in the order they are popped. -/
def savedRegs : List Reg := [.ebp, .edi, .esi, .ebx]

def taskSave : List Instr := savedRegs.reverse.map .push ++ [.pushf]

def taskRestore : List Instr := .popf :: savedRegs.map .pop ++ [.ret]

/-- `I686_TASK_SWITCH(0)`. -/
def taskSwitchCode : List Instr :=
  taskSave ++
    [.load 0x18 .esp .ebx, .store .esp 0 .ebx, .load 0x1C .esp .ebx, .load 0 .ebx .esp] ++
    taskRestore

def taskSwitch (cpu : Cpu) : Cpu := runCode cpu taskSwitchCode

/-- What a call of `task_switch` leaves on the stack of the task it leaves, its return address
    included. -/
def taskFrame (cpu : Cpu) : List (BitVec 32) :=
  (cpu.eflags &&& ~~~unpushedFlags) :: savedRegs.map cpu.regs ++ [loadWord cpu.mem cpu.esp]

/-- The task goes on behind its call of `task_switch`, made by the machine `before`. -/
structure Resumed (before after : Cpu) : Prop where
  regs : ∀ r ∈ savedRegs, after.regs r = before.regs r
  esp : after.esp = before.esp + 4
  eip : after.eip = loadWord before.mem before.esp
  eflags : after.eflags &&& writableFlags = before.eflags &&& writableFlags

variable {cpu before : Cpu}

theorem run_taskSave (cpu : Cpu) : runCode cpu taskSave =
    cpu.pushes (savedRegs.reverse.map cpu.regs ++ [cpu.eflags &&& ~~~unpushedFlags]) := by
  rw [taskSave, runCode_append, run_pushes (by decide), pushes_append]
  exact pushes_one _

theorem taskSave_stack {args : List (BitVec 32)} (stack : StackAt cpu.mem (cpu.esp + 4) args)
    (few : args.length ≤ 2) :
    StackAt (runCode cpu taskSave).mem (below cpu.esp 5) (taskFrame cpu ++ args) := by
  have called : StackAt cpu.mem cpu.esp (loadWord cpu.mem cpu.esp :: args) := ⟨rfl, stack⟩
  have saved := called.pushAll (savedRegs.reverse.map cpu.regs ++
    [cpu.eflags &&& ~~~unpushedFlags]) (by simp [savedRegs]; omega)
  rw [run_taskSave]
  simpa [taskFrame, savedRegs] using saved

theorem flags_restored (old saved : BitVec 32) :
    ((old &&& ~~~(writableFlags ||| resumeFlag)) |||
      ((saved &&& ~~~unpushedFlags) &&& writableFlags)) &&& writableFlags =
      saved &&& writableFlags := by
  have others : ~~~(writableFlags ||| resumeFlag) &&& writableFlags = 0 := by decide
  have pushed : ~~~unpushedFlags &&& writableFlags = writableFlags := by decide
  rw [BitVec.and_or_distrib_right, BitVec.and_assoc old, others, BitVec.and_assoc saved, pushed,
    BitVec.and_assoc, BitVec.and_self]
  simp

theorem run_taskRestore (stack : StackAt cpu.mem cpu.esp (taskFrame before)) :
    runCode cpu taskRestore =
      Instr.exec ((Instr.exec cpu .popf).restored savedRegs before.regs) .ret := by
  rcases stack with ⟨-, rest⟩
  have plain : Reg.esp ∉ savedRegs := by decide
  have regs : StackAt (Instr.exec cpu .popf).mem (Instr.exec cpu .popf).esp
      (savedRegs.map before.regs) := by
    simpa [Instr.exec, Cpu.pop, Cpu.set, Cpu.esp] using rest.left
  rw [taskRestore, List.cons_append, runCode_cons, runCode_append, run_pops plain regs]
  rfl

/-- A task is resumed from the words that its own call left. -/
theorem taskRestore_resumes (stack : StackAt cpu.mem cpu.esp (taskFrame before))
    (pointer : cpu.esp = below before.esp 5) : Resumed before (runCode cpu taskRestore) := by
  rw [run_taskRestore stack]
  rcases stack with ⟨flags, rest⟩
  have first : (Instr.exec cpu .popf).esp = cpu.esp + 4 := by
    simp [Instr.exec, Cpu.pop, Cpu.set, Cpu.esp]
  have sp : ((Instr.exec cpu .popf).restored savedRegs before.regs).esp = before.esp := by
    rw [restored_esp, first, pointer]
    exact (above_succ _ 4).symm.trans (above_below before.esp 5)
  have ret : loadWord cpu.mem before.esp = loadWord before.mem before.esp := by
    have address := rest.right
    have top : above (cpu.esp + 4) (savedRegs.map before.regs).length = before.esp := by
      rw [pointer]
      exact (above_succ _ 4).symm.trans (above_below before.esp 5)
    rw [top] at address
    exact address.1
  constructor
  case regs =>
    intro r member
    have plain : r ≠ .esp := fun is => absurd (is ▸ member) (by decide)
    rw [← restored_reg (Instr.exec cpu .popf) before.regs plain member]
    simp [Instr.exec, Cpu.pop, Cpu.set, plain]
  case esp =>
    rw [← sp]
    simp [Instr.exec, Cpu.pop, Cpu.set, Cpu.esp]
  case eip =>
    rw [← ret, ← sp]
    rfl
  case eflags =>
    simp only [Instr.exec, Cpu.pop, Cpu.set, Cpu.restored, flags]
    exact flags_restored cpu.eflags before.eflags

theorem taskRestore_mem (cpu : Cpu) : (runCode cpu taskRestore).mem = cpu.mem := rfl

theorem taskRestore_esp (cpu : Cpu) : (runCode cpu taskRestore).esp = above cpu.esp 6 := by
  simp only [taskRestore, savedRegs, List.map_cons, List.map_nil, List.cons_append, List.nil_append,
    runCode_cons, runCode_nil, Instr.exec, Cpu.pop, Cpu.set, Cpu.esp]
  simp [Function.update_of_ne, above_succ, above_zero]

/-- The kernel stacks of the tasks, and the cells that keep their stack pointers. -/
structure TaskSpace (κ : Type) where
  ctx : κ → BitVec 32
  stack : κ → BitVec 32
  size : κ → Nat
  stacks_apart : ∀ i j a, i ≠ j → Within (stack i) (size i) a → ¬Within (stack j) (size j) a
  cells_apart : ∀ i j a, i ≠ j → Within (ctx i) 4 a → ¬Within (ctx j) 4 a
  cell_outside : ∀ i j a, Within (ctx i) 4 a → ¬Within (stack j) (size j) a

namespace TaskSpace

variable {κ : Type} (space : TaskSpace κ)

def Cell (k : κ) (a : BitVec 32) : Prop := Within (space.ctx k) 4 a

def Stack (k : κ) (a : BitVec 32) : Prop := Within (space.stack k) (space.size k) a

/-- A call of `task_switch` from one task to another, with room on the stack of the first. -/
structure Called (prev next : κ) (cpu : Cpu) : Prop where
  prevctx : loadWord cpu.mem (cpu.esp + 4) = space.ctx prev
  nextctx : loadWord cpu.mem (cpu.esp + 8) = space.ctx next
  room : ∀ a, Within (below cpu.esp 5) 32 a → space.Stack prev a

/-- The task can be resumed behind the call it made with the machine `before`. -/
structure Parked (k : κ) (mem : ByteMemory) (before : Cpu) : Prop where
  pointer : loadWord mem (space.ctx k) = below before.esp 5
  frame : StackAt mem (below before.esp 5) (taskFrame before)
  own : ∀ a, Within (below before.esp 5) 24 a → space.Stack k a
  kept : ∀ a, space.Stack k a → ¬Within (below before.esp 5) 20 a → mem a = before.mem a

variable {space} {k prev next : κ} {mem : ByteMemory}

theorem Parked.quiet (parked : space.Parked k mem before) {other : ByteMemory}
    (cell : ∀ a, space.Cell k a → other a = mem a) (stack : ∀ a, space.Stack k a → other a = mem a) :
    space.Parked k other before where
  pointer := (loadWord_congr fun a inside => cell a inside).trans parked.pointer
  frame := by
    apply parked.frame.frame (by simp [taskFrame, savedRegs])
    intro a inside
    apply stack
    apply parked.own
    simpa [taskFrame, savedRegs] using inside
  own := parked.own
  kept a inside outside := (stack a inside).trans (parked.kept a inside outside)

end TaskSpace

/-- `task_switch` up to the store of the stack pointer. -/
def taskParked (cpu : Cpu) : Cpu :=
  runCode (runCode cpu taskSave) [.load 0x18 .esp .ebx, .store .esp 0 .ebx]

theorem taskSwitch_eq (cpu : Cpu) : taskSwitch cpu =
    runCode (runCode (taskParked cpu) [.load 0x1C .esp .ebx, .load 0 .ebx .esp]) taskRestore := by
  simp only [taskSwitch, taskSwitchCode, taskParked, ← runCode_append]
  rfl

section Switch

variable {κ : Type} {space : TaskSpace κ} {k prev next : κ}

theorem TaskSpace.Called.args (called : space.Called prev next cpu) :
    StackAt (runCode cpu taskSave).mem (below cpu.esp 5)
      (taskFrame cpu ++ [space.ctx prev, space.ctx next]) := by
  have up : cpu.esp + 4 + 4 = cpu.esp + 8 := by bv_omega
  have args : StackAt cpu.mem (cpu.esp + 4) [space.ctx prev, space.ctx next] := by
    refine ⟨called.prevctx, ?_, trivial⟩
    rw [up]
    exact called.nextctx
  exact taskSave_stack args (Nat.le_refl 2)

theorem taskSave_esp (cpu : Cpu) : (runCode cpu taskSave).esp = below cpu.esp 5 := by
  rw [run_taskSave, pushes_esp]
  rfl

theorem taskSave_outside {a : BitVec 32} (outside : ¬Within (below cpu.esp 5) 20 a) :
    (runCode cpu taskSave).mem a = cpu.mem a := by
  rw [run_taskSave, pushes_mem]
  apply pushAll_outside
  · simp [savedRegs]
  · simpa [savedRegs] using outside

theorem taskParked_esp (cpu : Cpu) : (taskParked cpu).esp = below cpu.esp 5 := by
  rw [← taskSave_esp]
  simp [taskParked, Instr.exec, Cpu.set, Cpu.esp]

theorem taskParked_mem (called : space.Called prev next cpu) : (taskParked cpu).mem =
    storeWord (runCode cpu taskSave).mem (space.ctx prev) (below cpu.esp 5) := by
  have arg : loadWord (runCode cpu taskSave).mem ((runCode cpu taskSave).esp + 0x18) =
      space.ctx prev := by
    rw [taskSave_esp]
    exact called.args.right.1
  have top := taskSave_esp cpu
  simp only [Cpu.esp] at arg top
  simp only [taskParked, runCode_cons, runCode_nil, Instr.exec, Cpu.set, Cpu.esp, arg]
  simp [Function.update_of_ne, top]

/-- Besides the cell and the five saved words, nothing changes. -/
theorem taskParked_outside (called : space.Called prev next cpu) {a : BitVec 32}
    (cell : ¬space.Cell prev a) (saved : ¬Within (below cpu.esp 5) 20 a) :
    (taskParked cpu).mem a = cpu.mem a := by
  rw [taskParked_mem called, storeWord_outside cell, taskSave_outside saved]

theorem taskParked_stack (called : space.Called prev next cpu) :
    StackAt (taskParked cpu).mem (below cpu.esp 5)
      (taskFrame cpu ++ [space.ctx prev, space.ctx next]) := by
  apply called.args.frame (by simp [taskFrame, savedRegs])
  intro a inside
  rw [taskParked_mem called]
  apply storeWord_outside
  intro cell
  exact space.cell_outside prev prev a cell (called.room a inside)

theorem taskParked_self (called : space.Called prev next cpu) :
    space.Parked prev (taskParked cpu).mem cpu where
  pointer := by
    rw [taskParked_mem called]
    exact loadWord_storeWord _ _ _
  frame := (taskParked_stack called).left
  own a inside := called.room a (within_mono inside (by decide))
  kept a inside saved :=
    taskParked_outside called (fun cell => space.cell_outside prev prev a cell inside) saved

theorem taskParked_other (called : space.Called prev next cpu) (other : k ≠ prev) {before : Cpu}
    (parked : space.Parked k cpu.mem before) : space.Parked k (taskParked cpu).mem before := by
  apply parked.quiet
  · intro a inside
    apply taskParked_outside called (space.cells_apart k prev a other inside)
    intro saved
    exact space.cell_outside k prev a inside (called.room a (within_mono saved (by decide)))
  · intro a inside
    apply taskParked_outside called
    · exact fun cell => space.cell_outside prev k a cell inside
    · intro saved
      exact space.stacks_apart k prev a other inside (called.room a (within_mono saved (by decide)))

theorem taskLoad_next (called : space.Called prev next cpu) :
    let loaded := runCode (taskParked cpu) [.load 0x1C .esp .ebx, .load 0 .ebx .esp]
    loaded.mem = (taskParked cpu).mem ∧
      loaded.esp = loadWord (taskParked cpu).mem (space.ctx next) := by
  have stack := taskParked_stack called
  rw [List.append_cons] at stack
  have arg : loadWord (taskParked cpu).mem ((taskParked cpu).esp + 0x1C) = space.ctx next := by
    rw [taskParked_esp]
    exact stack.right.1
  simp only [Cpu.esp, BitVec.ofNat_eq_ofNat] at arg
  simp [Instr.exec, Cpu.set, Cpu.esp, arg]

theorem taskSwitch_mem (called : space.Called prev next cpu) :
    (taskSwitch cpu).mem = (taskParked cpu).mem := by
  rw [taskSwitch_eq, taskRestore_mem]
  exact (taskLoad_next called).1

theorem taskSwitch_esp (called : space.Called prev next cpu) :
    (taskSwitch cpu).esp = above (loadWord (taskParked cpu).mem (space.ctx next)) 6 := by
  rw [taskSwitch_eq, taskRestore_esp, (taskLoad_next called).2]

theorem taskSwitch_resumes (called : space.Called prev next cpu) {before : Cpu}
    (parked : space.Parked next (taskParked cpu).mem before) :
    Resumed before (taskSwitch cpu) := by
  rcases taskLoad_next called with ⟨mem, esp⟩
  rw [parked.pointer] at esp
  rw [taskSwitch_eq]
  apply taskRestore_resumes _ esp
  rw [mem, esp]
  exact parked.frame

end Switch

/-- The machine, the task that executes on it, and the tasks that have run. -/
structure TaskSystem (κ : Type) where
  cpu : Cpu
  current : κ
  entered : κ → Bool

inductive TaskEvent (κ : Type)
  | compute (task : κ)
  | enter (prev next : κ)
  | switch (prev next : κ) (before after : Cpu)

/-- A task leaves the cells and the stacks of the others alone. -/
def TaskSpace.Quiet {κ : Type} (space : TaskSpace κ) (k : κ) (mem other : ByteMemory) : Prop :=
  ∀ a j, space.Cell j a ∨ (j ≠ k ∧ space.Stack j a) → other a = mem a

section Runs

variable {κ : Type} [DecidableEq κ] {space : TaskSpace κ}

/-- `proc_switch` enters a process that never ran, and resumes any other one. -/
inductive TaskStep (space : TaskSpace κ) : TaskSystem κ → TaskEvent κ → TaskSystem κ → Prop
  | compute {s : TaskSystem κ} {cpu : Cpu} (quiet : space.Quiet s.current s.cpu.mem cpu.mem) :
      TaskStep space s (.compute s.current) { s with cpu := cpu }
  | enter {s : TaskSystem κ} {next : κ} {cpu : Cpu} (fresh : s.entered next = false)
      (quiet : space.Quiet s.current s.cpu.mem cpu.mem) :
      TaskStep space s (.enter s.current next) ⟨cpu, next, Function.update s.entered next true⟩
  | switch {s : TaskSystem κ} {next : κ} (ran : s.entered next = true) (other : next ≠ s.current)
      (called : space.Called s.current next s.cpu) :
      TaskStep space s (.switch s.current next s.cpu (taskSwitch s.cpu))
        { s with cpu := taskSwitch s.cpu, current := next }

def TaskEvent.parks : TaskEvent κ → κ × Cpu → Prop
  | .switch prev _ before _, (k, parked) => prev = k ∧ before = parked
  | _, _ => False

def TaskEvent.leaves : TaskEvent κ → κ × Cpu → Prop
  | .switch prev _ _ _, (k, _) => prev = k
  | .enter prev _, (k, _) => prev = k
  | .compute _, _ => False

/-- Two tasks with a page of stack each. -/
def twoTasks : TaskSpace Bool where
  ctx k := if k then 0x1004 else 0x1000
  stack k := if k then 0x4000 else 0x2000
  size _ := 0x1000
  stacks_apart := by
    intro i j a other
    cases i <;> cases j <;> simp [Within] at other ⊢ <;> bv_omega
  cells_apart := by
    intro i j a other
    cases i <;> cases j <;> simp [Within] at other ⊢ <;> bv_omega
  cell_outside := by
    intro i j a
    cases i <;> cases j <;> simp [Within] <;> bv_omega

def callSp (k : Bool) : BitVec 32 := if k then 0x4800 else 0x2800

/-- A task in the middle of its stack that calls `task_switch` for the other one. -/
def callsOther (k : Bool) (mem : ByteMemory) : Cpu where
  regs := Function.update (fun _ => 0) .esp (callSp k)
  eflags := 2
  eip := 0
  cs := 8
  ss := 0x10
  mem := storeWord (storeWord mem (callSp k + 8) (twoTasks.ctx !k)) (callSp k + 4) (twoTasks.ctx k)

theorem callsOther_esp (k : Bool) (mem : ByteMemory) : (callsOther k mem).esp = callSp k := by
  simp [callsOther, Cpu.esp]

theorem callsOther_called (k : Bool) (mem : ByteMemory) :
    twoTasks.Called k (!k) (callsOther k mem) where
  prevctx := by
    rw [callsOther_esp]
    exact loadWord_storeWord _ _ _
  nextctx := by
    have apart : ∀ a, Within (callSp k + 8) 4 a → ¬Within (callSp k + 4) 4 a := by
      unfold Within
      bv_omega
    rw [callsOther_esp]
    refine Eq.trans (loadWord_congr fun a inside => ?_) (loadWord_storeWord mem _ _)
    exact storeWord_outside (apart a inside)
  room := by
    intro a
    rw [callsOther_esp]
    cases k <;> simp [Within, TaskSpace.Stack, twoTasks, callSp, below] <;> bv_omega

theorem callsOther_quiet (k : Bool) (mem : ByteMemory) :
    twoTasks.Quiet k mem (callsOther k mem).mem := by
  intro a j elsewhere
  have room : ∀ offset : BitVec 32, offset.toNat ≤ 8 → Within (callSp k + offset) 4 a →
      twoTasks.Stack k a := by
    intro offset small
    cases k <;> simp [Within, TaskSpace.Stack, twoTasks, callSp] <;> bv_omega
  have outside : ¬twoTasks.Stack k a := by
    rcases elsewhere with cell | ⟨other, stack⟩
    · exact twoTasks.cell_outside j k a cell
    · exact twoTasks.stacks_apart j k a other stack
  calc storeWord (storeWord mem (callSp k + 8) (twoTasks.ctx !k)) (callSp k + 4) (twoTasks.ctx k) a
      = storeWord mem (callSp k + 8) (twoTasks.ctx !k) a :=
        storeWord_outside fun inside => outside (room 4 (by decide) inside)
    _ = mem a := storeWord_outside fun inside => outside (room 8 (by decide) inside)

/-- The tasks whose last departure was a call of `task_switch` are parked. -/
theorem tasks_parked {s t : TaskSystem κ} {trace : List (TaskEvent κ)}
    (run : Run (TaskStep space) s trace t) : ∀ k before,
      Outstanding TaskEvent.parks TaskEvent.leaves trace (k, before) → k ≠ t.current →
        space.Parked k t.cpu.mem before := by
  refine run.history (fun trace t => ∀ k before,
    Outstanding TaskEvent.parks TaskEvent.leaves trace (k, before) → k ≠ t.current →
      space.Parked k t.cpu.mem before) ?_ ?_
  · intro trace s event t known step k before lent away
    cases step with
    | compute quiet =>
      rcases outstanding_snoc lent with took | ⟨lent, -⟩
      · cases took
      · apply (known k before lent away).quiet
        · exact fun a inside => quiet a k (.inl inside)
        · exact fun a inside => quiet a k (.inr ⟨away, inside⟩)
    | enter fresh quiet =>
      rcases outstanding_snoc lent with took | ⟨lent, stays⟩
      · cases took
      · have elsewhere : k ≠ s.current := fun same => stays same.symm
        apply (known k before lent elsewhere).quiet
        · exact fun a inside => quiet a k (.inl inside)
        · exact fun a inside => quiet a k (.inr ⟨elsewhere, inside⟩)
    | switch ran other called =>
      rw [taskSwitch_mem called]
      rcases outstanding_snoc lent with took | ⟨lent, stays⟩
      · cases took.1
        cases took.2
        exact taskParked_self called
      · have elsewhere : k ≠ s.current := fun same => stays same.symm
        exact taskParked_other called elsewhere (known k before lent elsewhere)
  · exact fun k before lent => absurd lent not_outstanding_nil

/-- A task whose last departure was a call of `task_switch` goes on behind that call, with the
    stack it had there. -/
theorem task_resumes {s t u : TaskSystem κ} {trace : List (TaskEvent κ)}
    (run : Run (TaskStep space) s trace t) {prev k : κ} {before cpu after : Cpu}
    (lent : Outstanding TaskEvent.parks TaskEvent.leaves trace (k, before))
    (last : TaskStep space t (.switch prev k cpu after) u) :
    Resumed before after ∧ ∀ a, space.Stack k a → ¬Within (below before.esp 5) 20 a →
      after.mem a = before.mem a := by
  cases last with
  | switch ran other called =>
    have parked := taskParked_other called other (tasks_parked run k before lent other)
    refine ⟨taskSwitch_resumes called parked, fun a inside outside => ?_⟩
    rw [taskSwitch_mem called]
    exact parked.kept a inside outside

def firstCall : Cpu := callsOther false fun _ => 0

def secondCall : Cpu := callsOther true (taskSwitch firstCall).mem

def firstTask : TaskSystem Bool := ⟨firstCall, false, fun _ => true⟩

theorem firstTask_leaves : TaskStep twoTasks firstTask
    (.switch false true firstCall (taskSwitch firstCall)) ⟨taskSwitch firstCall, true, fun _ => true⟩ :=
  .switch rfl nofun (callsOther_called false _)

theorem secondTask_computes : TaskStep twoTasks ⟨taskSwitch firstCall, true, fun _ => true⟩
    (.compute true) ⟨secondCall, true, fun _ => true⟩ :=
  .compute (callsOther_quiet true _)

theorem secondTask_leaves : TaskStep twoTasks ⟨secondCall, true, fun _ => true⟩
    (.switch true false secondCall (taskSwitch secondCall))
    ⟨taskSwitch secondCall, false, fun _ => true⟩ :=
  .switch rfl nofun (callsOther_called true _)

theorem task_resumes_back : Resumed firstCall (taskSwitch secondCall) :=
  (task_resumes (.snoc (.single firstTask_leaves) secondTask_computes)
    ⟨[], _, [.compute true], rfl, ⟨rfl, rfl⟩, by simp [TaskEvent.leaves]⟩ secondTask_leaves).1

def TaskEvent.parksAgain : TaskEvent κ → κ × Cpu → Prop
  | .switch prev _ _ _, (k, _) => prev = k
  | _, _ => False

omit [DecidableEq κ] in
theorem cell_quiet {k : κ} {mem other : ByteMemory} (same : ∀ a, space.Cell k a → other a = mem a) :
    loadWord other (space.ctx k) = loadWord mem (space.ctx k) :=
  loadWord_congr fun a inside => same a inside

theorem cell_step {s t : TaskSystem κ} {event : TaskEvent κ} (step : TaskStep space s event t)
    {k : κ} (before : Cpu) (other : ¬event.parksAgain (k, before)) :
    loadWord t.cpu.mem (space.ctx k) = loadWord s.cpu.mem (space.ctx k) := by
  cases step with
  | compute quiet => exact cell_quiet fun a inside => quiet a k (.inl inside)
  | enter fresh quiet => exact cell_quiet fun a inside => quiet a k (.inl inside)
  | switch ran away called =>
    have elsewhere : k ≠ s.current := fun same => other same.symm
    apply cell_quiet
    intro a inside
    rw [taskSwitch_mem called]
    apply taskParked_outside called (space.cells_apart k s.current a elsewhere inside)
    intro saved
    exact space.cell_outside k s.current a inside (called.room a (within_mono saved (by decide)))

theorem cell_run {s t : TaskSystem κ} {trace : List (TaskEvent κ)}
    (run : Run (TaskStep space) s trace t) (k : κ) (before : Cpu) :
    (Outstanding TaskEvent.parks TaskEvent.parksAgain trace (k, before) →
      loadWord t.cpu.mem (space.ctx k) = below before.esp 5) ∧
    ((∀ event ∈ trace, ¬event.parksAgain (k, before)) →
      loadWord t.cpu.mem (space.ctx k) = loadWord s.cpu.mem (space.ctx k)) := by
  induction run with
  | refl => exact ⟨fun lent => absurd lent not_outstanding_nil, fun _ => rfl⟩
  | snoc run last ih =>
    constructor
    · intro lent
      rcases outstanding_snoc lent with took | ⟨lent, again⟩
      · cases last with
        | compute => cases took
        | enter => cases took
        | switch ran other called =>
          cases took.1
          cases took.2
          rw [taskSwitch_mem called]
          exact (taskParked_self called).pointer
      · rw [cell_step last before again]
        exact ih.1 lent
    · intro never
      rw [cell_step last before (never _ (by simp))]
      exact ih.2 fun event member => never event (by simp [member])

/-- A task is resumed on the stack of the last call that it made of `task_switch` itself, also where
    it has run since and has left by entering another one. A task that made no such call gets the
    stack that its cell held at the start. -/
theorem task_pointer {s t u : TaskSystem κ} {trace : List (TaskEvent κ)}
    (run : Run (TaskStep space) s trace t) {prev k : κ} {cpu after : Cpu}
    (last : TaskStep space t (.switch prev k cpu after) u) :
    (∀ before, Outstanding TaskEvent.parks TaskEvent.parksAgain trace (k, before) →
      after.esp = before.esp + 4) ∧
    ((∀ event ∈ trace, ¬event.parksAgain (k, cpu)) →
      after.esp = above (loadWord s.cpu.mem (space.ctx k)) 6) := by
  cases last with
  | switch ran other called =>
    have same : loadWord (taskParked t.cpu).mem (space.ctx k) =
        loadWord t.cpu.mem (space.ctx k) := by
      rw [← taskSwitch_mem called]
      exact cell_step (.switch ran other called) t.cpu fun parks => other parks.symm
    rw [taskSwitch_esp called, same]
    constructor
    · intro before lent
      rw [(cell_run run k before).1 lent]
      have one : above before.esp 1 = before.esp + 4 := by simp [above]
      rw [← one]
      simp [above, below]
      bv_omega
    · exact fun never => by rw [(cell_run run k t.cpu).2 never]

def zeroedCpu : Cpu := { firstCall with mem := fun _ => 0 }

theorem firstTask_enters : TaskStep twoTasks ⟨zeroedCpu, false, fun k => !k⟩ (.enter false true)
    ⟨zeroedCpu, true, Function.update (fun k => !k) true true⟩ :=
  .enter rfl fun _ _ _ => rfl

theorem secondTask_calls :
    TaskStep twoTasks ⟨zeroedCpu, true, Function.update (fun k => !k) true true⟩ (.compute true)
      ⟨callsOther true fun _ => 0, true, Function.update (fun k => !k) true true⟩ :=
  .compute (callsOther_quiet true _)

theorem secondTask_switches :
    TaskStep twoTasks ⟨callsOther true fun _ => 0, true, Function.update (fun k => !k) true true⟩
      (.switch true false (callsOther true fun _ => 0) (taskSwitch (callsOther true fun _ => 0)))
      ⟨taskSwitch (callsOther true fun _ => 0), false,
        Function.update (fun k => !k) true true⟩ :=
  .switch rfl nofun (callsOther_called true _)

/-- The first task left by entering the second one, so its cell is still 0. -/
theorem task_pointer_lost : (taskSwitch (callsOther true fun _ => 0)).esp = 0x18 := by
  have run := Run.snoc (.single firstTask_enters) secondTask_calls
  exact (task_pointer run secondTask_switches).2 (by simp [TaskEvent.parksAgain])

end Runs

end Dxgmx
