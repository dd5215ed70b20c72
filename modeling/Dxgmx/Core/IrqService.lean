import Dxgmx.Core.Pic

open Library

namespace Dxgmx

/-- The pin of the master on which a line is signalled. -/
def masterPin (line : Fin 16) : Fin 8 := if line.val < 8 then irqPin line else irqPin 2

def slavePin (line : Fin 16) : Option (Fin 8) := if line.val < 8 then none else some (irqPin line)

/-- The lines in service are exactly these pins. -/
def Serves (isr : BitVec 8) (pins : List (Fin 8)) : Prop :=
  ∀ i : Fin 8, isr.getLsbD i.val = true ↔ i ∈ pins

/-- A controller starts an interrupt that has priority over all in service there. -/
def Prior (pin : Fin 8) (isr : BitVec 8) : Prop := ∀ i : Fin 8, isr.getLsbD i.val = true → pin < i

/-- The processor takes the interrupt of a line. -/
def Pics.acknowledge (line : Fin 16) (s : Pics) : Pics where
  master := { s.master with isr := s.master.isr ||| 1#8 <<< (masterPin line).val }
  slave :=
    match slavePin line with
    | none => s.slave
    | some pin => { s.slave with isr := s.slave.isr ||| 1#8 <<< pin.val }

/-- The controllers, and the lines whose handlers have not called `interrupts_irq_done`, the latest
    first. -/
structure Irqs where
  pics : Pics
  active : List (Fin 16)
  deriving DecidableEq, Repr

inductive IrqEvent
  | accept (line : Fin 16)
  | done
  | call (call : PicCall)
  | checkSpurious
  deriving DecidableEq, Repr

/-- Line 2 is the slave's and interrupts nothing by itself. -/
inductive IrqStep : Irqs → IrqEvent → Irqs → Prop
  | accept {s : Irqs} {line : Fin 16} (wired : line ≠ 2)
      (master : Prior (masterPin line) s.pics.master.isr)
      (slave : ∀ pin, slavePin line = some pin → Prior pin s.pics.slave.isr) :
      IrqStep s (.accept line) ⟨s.pics.acknowledge line, line :: s.active⟩
  | done {s : Irqs} {line : Fin 16} {rest : List (Fin 16)} (active : s.active = line :: rest) :
      IrqStep s .done ⟨interruptsIrqDone s.pics, rest⟩
  | call {s : Irqs} (call : PicCall) : IrqStep s (.call call) { s with pics := call.run s.pics }
  | checkSpurious {s : Irqs} :
      IrqStep s .checkSpurious { s with pics := (idtIsIrqSpurious s.pics).2 }

theorem testBit_pred (n i : Nat) : (n &&& (n - 1)).testBit i = true ↔
    n.testBit i = true ∧ ∃ j < i, n.testBit j = true := by
  induction i generalizing n with
  | zero =>
    have odd : (n &&& (n - 1)).testBit 0 = false := by
      rw [Nat.testBit_and, Nat.testBit_zero, Nat.testBit_zero]
      by_cases here : n % 2 = 1
      · have even : (n - 1) % 2 = 0 := by omega
        simp [even]
      · simp [here]
    simp [odd]
  | succ i ih =>
    rw [Nat.testBit_succ, Nat.testBit_succ, Nat.and_div_two]
    by_cases odd : n % 2 = 1
    · rw [show (n - 1) / 2 = n / 2 by omega, Nat.and_self]
      have lowest : n.testBit 0 = true := by simp [odd]
      exact ⟨fun bit => ⟨bit, 0, Nat.succ_pos i, lowest⟩, And.left⟩
    · rw [show (n - 1) / 2 = n / 2 - 1 by omega, ih]
      apply and_congr_right'
      constructor
      · rintro ⟨j, less, bit⟩
        exact ⟨j + 1, Nat.succ_lt_succ less, by rw [Nat.testBit_succ, bit]⟩
      · rintro ⟨j, less, bit⟩
        cases j with
        | zero => simp [odd] at bit
        | succ j => exact ⟨j, Nat.lt_of_succ_lt_succ less, by rw [← bit, Nat.testBit_succ]⟩

theorem endHighest_toNat (isr : BitVec 8) :
    (endHighest isr).toNat = isr.toNat &&& (isr.toNat - 1) := by
  unfold endHighest
  by_cases zero : isr = 0
  · rw [zero]
    rfl
  · rw [BitVec.toNat_and]
    congr 1
    bv_omega

theorem endHighest_bit (isr : BitVec 8) (i : Fin 8) : (endHighest isr).getLsbD i.val = true ↔
    isr.getLsbD i.val = true ∧ ∃ j : Fin 8, j < i ∧ isr.getLsbD j.val = true := by
  unfold BitVec.getLsbD
  rw [endHighest_toNat, testBit_pred]
  apply and_congr_right'
  constructor
  · rintro ⟨j, less, bit⟩
    exact ⟨⟨j, less.trans i.isLt⟩, less, bit⟩
  · rintro ⟨j, less, bit⟩
    exact ⟨j.val, less, bit⟩

theorem serves_zero : Serves 0 [] := by
  intro i
  simp

theorem Serves.zero {isr : BitVec 8} (serves : Serves isr []) : isr = 0 := by
  apply BitVec.eq_of_getLsbD_eq
  intro i inside
  have clear := serves ⟨i, inside⟩
  simpa using clear

theorem Serves.set {isr : BitVec 8} {pins : List (Fin 8)} (serves : Serves isr pins)
    (pin : Fin 8) : Serves (isr ||| 1#8 <<< pin.val) (pin :: pins) := by
  intro i
  rw [set_bit, List.mem_cons, ← serves i]
  simp only [Bool.or_eq_true, decide_eq_true_eq]
  tauto

/-- The end of an interrupt takes the pin of the highest priority out of service. -/
theorem Serves.end {isr : BitVec 8} {pins : List (Fin 8)} (serves : Serves isr pins)
    (sorted : pins.Pairwise (· < ·)) : Serves (endHighest isr) pins.tail := by
  intro i
  rw [endHighest_bit, serves i]
  cases pins with
  | nil => simp
  | cons pin rest =>
    rcases List.pairwise_cons.mp sorted with ⟨below, -⟩
    rw [List.tail_cons]
    constructor
    · rintro ⟨member, j, less, bit⟩
      rcases List.mem_cons.mp member with rfl | member
      · rcases List.mem_cons.mp ((serves j).mp bit) with rfl | later
        · exact absurd less (lt_irrefl _)
        · exact absurd (below j later) (lt_asymm less)
      · exact member
    · intro member
      exact ⟨List.mem_cons_of_mem _ member, pin, below i member,
        (serves pin).mpr List.mem_cons_self⟩

theorem getIsr_slave (s : Pics) :
    pic8259GetIsr 1 s = (s.slave.isr, { s with slave := { s.slave with readsIsr := true } }) := by
  rfl

/-- An interrupt of the slave is ended once at the slave and twice at the master. -/
theorem irqDone_eq (s : Pics) : interruptsIrqDone s =
    { master := { s.master with
        isr := if s.slave.isr = 0 then endHighest s.master.isr
          else endHighest (endHighest s.master.isr) }
      slave := { s.slave with readsIsr := true, isr := endHighest s.slave.isr } } := by
  unfold interruptsIrqDone
  rw [getIsr_slave]
  dsimp only
  by_cases idle : s.slave.isr = 0
  · rw [if_pos idle, if_neg (not_not_intro idle), idle]
    rfl
  · rw [if_neg idle, if_pos idle]
    rfl

theorem spurious_eq (s : Pics) : idtIsIrqSpurious s =
    (decide (s.master.isr = 0) && decide (s.slave.isr = 0),
      { master := { s.master with readsIsr := true }
        slave := { s.slave with readsIsr := true } }) := by
  rfl

theorem writeData_isr (value : BitVec 8) (pic : Pic8259) : (pic.writeData value).isr = pic.isr := by
  unfold Pic8259.writeData
  split <;> rfl

/-- The data ports do not reach what is in service. -/
theorem portOutb_isr {port : BitVec 16} (data : port = picMasterPortData ∨ port = picSlavePortData)
    (value : BitVec 8) (s : Pics) : (portOutb value port s).master.isr = s.master.isr ∧
      (portOutb value port s).slave.isr = s.slave.isr := by
  rcases data with rfl | rfl
  · exact ⟨writeData_isr value s.master, rfl⟩
  · exact ⟨rfl, writeData_isr value s.slave⟩

theorem irqLinePort_data (line : BitVec 8) :
    (irqLinePort line).1 = picMasterPortData ∨ (irqLinePort line).1 = picSlavePortData := by
  unfold irqLinePort
  split
  · exact .inr rfl
  · exact .inl rfl

theorem setMask_isr (value pic : BitVec 8) (s : Pics) :
    (pic8259SetMask value pic s).master.isr = s.master.isr ∧
      (pic8259SetMask value pic s).slave.isr = s.slave.isr := by
  unfold pic8259SetMask
  split
  · exact portOutb_isr (.inl rfl) value s
  · exact portOutb_isr (.inr rfl) value s

theorem PicCall.run_isr (call : PicCall) (s : Pics) :
    (call.run s).master.isr = s.master.isr ∧ (call.run s).slave.isr = s.slave.isr := by
  cases call with
  | remap masterOffset slaveOffset => exact ⟨rfl, rfl⟩
  | mask line => exact portOutb_isr (irqLinePort_data _) _ s
  | unmask line => exact portOutb_isr (irqLinePort_data _) _ s
  | setMask value pic => exact setMask_isr value pic s
  | disable pic => exact setMask_isr 0xFF pic s

/-- Exactly the unfinished lines are in service. -/
structure InService (s : Irqs) : Prop where
  master : Serves s.pics.master.isr (s.active.map masterPin)
  slave : Serves s.pics.slave.isr (s.active.filterMap slavePin)
  sorted : (s.active.map masterPin).Pairwise (· < ·)

theorem slavePin_masterPin {line : Fin 16} {pin : Fin 8} (slave : slavePin line = some pin) :
    masterPin line = 2 := by
  unfold slavePin at slave
  unfold masterPin
  split at slave
  · cases slave
  · rename_i high
    exact if_neg high

/-- At most one line of the slave is in service. -/
theorem slavePins_single {active : List (Fin 16)}
    (sorted : (active.map masterPin).Pairwise (· < ·)) :
    (active.filterMap slavePin).Pairwise (fun _ _ => False) := by
  rw [List.pairwise_filterMap]
  rw [List.pairwise_map] at sorted
  apply sorted.imp
  intro first second less pin slave pin' slave'
  rw [slavePin_masterPin slave, slavePin_masterPin slave'] at less
  exact lt_irrefl _ less

theorem slavePins_tail {active : List (Fin 16)}
    (sorted : (active.map masterPin).Pairwise (· < ·)) :
    (active.filterMap slavePin).tail = [] := by
  have single := slavePins_single sorted
  cases pins : active.filterMap slavePin with
  | nil => rfl
  | cons pin rest =>
    rw [pins] at single
    cases rest with
    | nil => rfl
    | cons other rest => exact (List.pairwise_cons.mp single).1 other List.mem_cons_self |>.elim

theorem InService.accept {s : Irqs} {line : Fin 16} (service : InService s)
    (prior : Prior (masterPin line) s.pics.master.isr) :
    InService ⟨s.pics.acknowledge line, line :: s.active⟩ where
  master := service.master.set (masterPin line)
  slave := by
    have before := service.slave
    unfold Pics.acknowledge
    cases pin : slavePin line with
    | none => simpa [pin] using before
    | some pin' => simpa [pin] using before.set pin'
  sorted := by
    rw [List.map_cons, List.pairwise_cons]
    refine ⟨?_, service.sorted⟩
    intro pin member
    exact prior pin ((service.master pin).mpr member)

/-- No handler of the slave's lines is unfinished, or no other than the one that ends. -/
def Plain (active : List (Fin 16)) : Prop :=
  (∀ line ∈ active, line.val < 8) ∨ active.length ≤ 1

theorem slavePins_none {active : List (Fin 16)} :
    active.filterMap slavePin = [] ↔ ∀ line ∈ active, line.val < 8 := by
  rw [List.filterMap_eq_nil_iff]
  unfold slavePin
  simp

theorem InService.idle {s : Irqs} (service : InService s) :
    s.pics.slave.isr = 0 ↔ ∀ line ∈ s.active, line.val < 8 := by
  rw [← slavePins_none]
  have slave := service.slave
  constructor
  · intro zero
    rw [zero] at slave
    apply List.eq_nil_iff_forall_not_mem.mpr
    intro pin member
    simpa using (slave pin).mpr member
  · intro none
    rw [none] at slave
    exact slave.zero

/-- What the call leaves in service. -/
theorem InService.ended {s : Irqs} (service : InService s) {line : Fin 16} {rest : List (Fin 16)}
    (active : s.active = line :: rest) :
    Serves (interruptsIrqDone s.pics).master.isr
        (if s.pics.slave.isr = 0 then rest.map masterPin else (rest.map masterPin).tail) ∧
      Serves (interruptsIrqDone s.pics).slave.isr [] := by
  have sorted := service.sorted
  have once := service.master.end sorted
  have slave := service.slave.end ((slavePins_single sorted).imp False.elim)
  rw [slavePins_tail sorted] at slave
  rw [active, List.map_cons] at sorted once
  have later := (List.pairwise_cons.mp sorted).2
  rw [irqDone_eq]
  refine ⟨?_, slave⟩
  dsimp only
  split
  · exact once
  · exact once.end later

/-- From exact registers, the call leaves exactly the other lines in service if and only if it ends
    a handler that no handler of the slave's lines is nested with. -/
theorem irqDone_iff {s : Irqs} (service : InService s) {line : Fin 16} {rest : List (Fin 16)}
    (active : s.active = line :: rest) :
    InService ⟨interruptsIrqDone s.pics, rest⟩ ↔ Plain s.active := by
  rcases service.ended active with ⟨master, slave⟩
  have sorted := service.sorted
  rw [active, List.map_cons, List.pairwise_cons] at sorted
  rcases sorted with ⟨below, later⟩
  have idle := service.idle
  rw [active] at idle ⊢
  by_cases zero : s.pics.slave.isr = 0
  · rw [if_pos zero] at master
    have low := idle.mp zero
    have none : rest.filterMap slavePin = [] :=
      slavePins_none.mpr fun other member => low other (List.mem_cons_of_mem _ member)
    have exact : InService ⟨interruptsIrqDone s.pics, rest⟩ := ⟨master, none ▸ slave, later⟩
    exact iff_of_true exact (.inl low)
  · rw [if_neg zero] at master
    constructor
    · intro exact
      cases rest with
      | nil => exact .inr le_rfl
      | cons next more =>
        have here := (exact.master (masterPin next)).mpr List.mem_cons_self
        have again : masterPin next ∈ more.map masterPin := (master (masterPin next)).mp here
        have less := (List.pairwise_cons.mp later).1 (masterPin next) again
        exact absurd less (lt_irrefl _)
    · rintro (low | short)
      · exact absurd (idle.mpr low) zero
      · have none : rest = [] := List.length_eq_zero_iff.mp (Nat.le_zero.mp (Nat.le_of_succ_le_succ short))
        subst none
        exact ⟨master, slave, later⟩

theorem InService.of_isr {s : Irqs} (service : InService s) {pics : Pics}
    (master : pics.master.isr = s.pics.master.isr) (slave : pics.slave.isr = s.pics.slave.isr) :
    InService ⟨pics, s.active⟩ where
  master := by
    show Serves pics.master.isr _
    rw [master]
    exact service.master
  slave := by
    show Serves pics.slave.isr _
    rw [slave]
    exact service.slave
  sorted := service.sorted

theorem IrqStep.inService {s t : Irqs} {event : IrqEvent} (step : IrqStep s event t)
    (plain : event = .done → Plain s.active) (service : InService s) : InService t := by
  cases step with
  | accept wired master slave => exact service.accept master
  | done active => exact (irqDone_iff service active).mpr (plain rfl)
  | call call =>
    rcases call.run_isr s.pics with ⟨master, slave⟩
    exact service.of_isr master slave
  | checkSpurious => exact service.of_isr rfl rfl

theorem inService_run {s t : Irqs} {trace : List IrqEvent} (service : InService s)
    (run : Run (fun s event t => IrqStep s event t ∧ (event = .done → Plain s.active)) s trace t) :
    InService t := by
  induction run with
  | refl => exact service
  | snoc run last ih => exact last.1.inService last.2 ih

theorem InService.spurious {s : Irqs} (service : InService s) :
    (idtIsIrqSpurious s.pics).1 = true ↔ s.active = [] := by
  rw [spurious_eq]
  simp only [Bool.and_eq_true, decide_eq_true_eq]
  have master := service.master
  constructor
  · rintro ⟨zero, -⟩
    rw [zero] at master
    apply List.map_eq_nil_iff.mp
    apply List.eq_nil_iff_forall_not_mem.mpr
    intro pin member
    simpa using (master pin).mpr member
  · intro none
    have slave := service.slave
    rw [none] at master slave
    exact ⟨master.zero, slave.zero⟩

/-- While no handler ends above a handler of the slave's lines, the unfinished lines are in service
    and no others, and a vector is taken for spurious where nothing is unfinished. An end that does
    not meet this is the first that leaves the registers wrong. -/
theorem irqs_exact {s t : Irqs} {trace : List IrqEvent} (service : InService s)
    (run : Run (fun s event t => IrqStep s event t ∧ (event = .done → Plain s.active)) s trace t) :
    InService t ∧ ((idtIsIrqSpurious t.pics).1 = true ↔ t.active = []) ∧
      ∀ u, IrqStep t .done u → (InService u ↔ Plain t.active) := by
  have exact := inService_run service run
  refine ⟨exact, exact.spurious, ?_⟩
  intro u step
  cases step with
  | done active => exact irqDone_iff exact active

def idlePic : Pic8259 := ⟨0, 0, 0, 32, 4, 1, false, []⟩

theorem idle_inService : InService ⟨⟨idlePic, idlePic⟩, []⟩ := ⟨serves_zero, serves_zero, .nil⟩

theorem idle_accept (line : Fin 16) (wired : line ≠ 2) :
    IrqStep ⟨⟨idlePic, idlePic⟩, []⟩ (.accept line)
      ⟨(Pics.mk idlePic idlePic).acknowledge line, [line]⟩ := by
  apply IrqStep.accept wired
  · intro i bit
    simp [idlePic] at bit
  · intro pin _ i bit
    simp [idlePic] at bit

/-- An interrupt of the slave. -/
theorem irqs_exact_slave :
    (idtIsIrqSpurious (interruptsIrqDone
      ((Pics.mk idlePic idlePic).acknowledge 14))).1 = true := by
  have accept := idle_accept 14 (by decide)
  have plain : Plain [(14 : Fin 16)] := .inr le_rfl
  have run : Run (fun s event t => IrqStep s event t ∧ (event = .done → Plain s.active))
      ⟨⟨idlePic, idlePic⟩, []⟩ [.accept 14, .done] _ :=
    (Run.single ⟨accept, nofun⟩).snoc ⟨.done rfl, fun _ => plain⟩
  exact (irqs_exact idle_inService run).2.1.mpr rfl

/-- With the gates of interrupts no handler is interrupted by another, and every end is right. -/
theorem irq_gates_exact {s t : Irqs} {trace : List IrqEvent} (service : InService s)
    (short : s.active.length ≤ 1)
    (run : Run (fun s event t => IrqStep s event t ∧
      ∀ line, event = .accept line → s.active = []) s trace t) :
    InService t ∧ t.active.length ≤ 1 := by
  -- a handler ends alone, so the slave's lines are nested with nothing
  induction run with
  | refl => exact ⟨service, short⟩
  | snoc run last ih =>
    rcases ih with ⟨service, short⟩
    rcases last with ⟨step, gate⟩
    refine ⟨step.inService (fun _ => .inr short) service, ?_⟩
    cases step with
    | accept wired master slave =>
      rw [gate _ rfl]
      exact le_rfl
    | @done line rest active =>
      show rest.length ≤ 1
      rw [active, List.length_cons] at short
      omega
    | call call => exact short
    | checkSpurious => exact short

theorem irq_gates_exact_slave : InService
    ⟨interruptsIrqDone ((Pics.mk idlePic idlePic).acknowledge 14), []⟩ := by
  have accept := idle_accept 14 (by decide)
  have run : Run (fun s event t => IrqStep s event t ∧ ∀ line, event = .accept line → s.active = [])
      ⟨⟨idlePic, idlePic⟩, []⟩ [.accept 14, .done] _ :=
    (Run.single ⟨accept, fun _ _ => rfl⟩).snoc ⟨.done rfl, nofun⟩
  exact (irq_gates_exact idle_inService (Nat.zero_le 1) run).1

/-- What can be in service while these lines are unfinished. A handler started above what was in
    service at that time. -/
inductive AccountsFor : List (Fin 16) → BitVec 8 → Prop
  | nil : AccountsFor [] 0
  | cons {line : Fin 16} {rest : List (Fin 16)} {before isr : BitVec 8} (below : AccountsFor rest before)
      (prior : Prior (masterPin line) before)
      (among : ∀ i : Fin 8, isr.getLsbD i.val = true →
        i = masterPin line ∨ before.getLsbD i.val = true) : AccountsFor (line :: rest) isr

theorem AccountsFor.mono {active : List (Fin 16)} {isr less : BitVec 8} (covers : AccountsFor active isr)
    (among : ∀ i : Fin 8, less.getLsbD i.val = true → isr.getLsbD i.val = true) :
    AccountsFor active less := by
  cases covers with
  | nil =>
    have zero : less = 0 := Serves.zero fun i => by simpa using among i
    rw [zero]
    exact .nil
  | cons below prior wider => exact .cons below prior fun i bit => wider i (among i bit)

/-- An end leaves no more in service than before the handler started. -/
theorem AccountsFor.end {line : Fin 16} {rest : List (Fin 16)} {isr : BitVec 8}
    (covers : AccountsFor (line :: rest) isr) : AccountsFor rest (endHighest isr) := by
  cases covers with
  | cons below prior among =>
    apply below.mono
    intro i bit
    rcases (endHighest_bit isr i).mp bit with ⟨here, j, less, lower⟩
    rcases among i here with rfl | old
    · rcases among j lower with rfl | old
      · exact absurd less (lt_irrefl _)
      · exact absurd (prior j old) (lt_asymm less)
    · exact old

theorem AccountsFor.endAgain {active : List (Fin 16)} {isr : BitVec 8} (covers : AccountsFor active isr) :
    AccountsFor active (endHighest isr) :=
  covers.mono fun i bit => ((endHighest_bit isr i).mp bit).1

/-- Nothing is in service that no unfinished handler accounts for. -/
structure Accounted (s : Irqs) : Prop where
  master : AccountsFor s.active s.pics.master.isr
  slave : ∀ i : Fin 8, s.pics.slave.isr.getLsbD i.val = true →
    s.pics.master.isr.getLsbD 2 = true ∧ s.pics.slave.isr = 1#8 <<< i.val

theorem Accounted.accept {s : Irqs} {line : Fin 16} (accounted : Accounted s)
    (prior : Prior (masterPin line) s.pics.master.isr) :
    Accounted ⟨s.pics.acknowledge line, line :: s.active⟩ where
  master := by
    refine .cons accounted.master prior fun i bit => ?_
    change (s.pics.master.isr ||| 1#8 <<< (masterPin line).val).getLsbD i.val = true at bit
    rw [set_bit] at bit
    simp only [Bool.or_eq_true, decide_eq_true_eq] at bit
    exact bit.symm.imp_left Eq.symm
  slave := by
    intro i bit
    have cascade := set_bit s.pics.master.isr (masterPin line) 2
    change (_ : Bool) = (s.pics.master.isr.getLsbD 2 || _) at cascade
    unfold Pics.acknowledge at bit ⊢
    cases pin : slavePin line with
    | none =>
      rw [pin] at bit
      rcases accounted.slave i bit with ⟨master, single⟩
      refine ⟨?_, single⟩
      rw [master, Bool.true_or] at cascade
      exact cascade
    | some pin' =>
      rw [pin] at bit
      -- the master's pin was free, so nothing of the slave was in service
      have wire := slavePin_masterPin pin
      have idle : s.pics.slave.isr = 0 := by
        apply BitVec.eq_of_getLsbD_eq
        intro j inside
        cases busy : s.pics.slave.isr.getLsbD j with
        | false => simp
        | true =>
          have less := prior 2 (accounted.slave ⟨j, inside⟩ busy).1
          rw [wire] at less
          exact absurd less (lt_irrefl _)
      dsimp only at bit ⊢
      rw [idle, set_bit] at bit
      have here : pin' = i := by simpa using bit
      rw [idle, here]
      rw [wire] at cascade ⊢
      exact ⟨by simp at cascade ⊢, by simp⟩

theorem Accounted.done {s : Irqs} {line : Fin 16} {rest : List (Fin 16)} (accounted : Accounted s)
    (active : s.active = line :: rest) : Accounted ⟨interruptsIrqDone s.pics, rest⟩ where
  master := by
    have covers := accounted.master
    rw [active] at covers
    rw [irqDone_eq]
    dsimp only
    split
    · exact covers.end
    · exact covers.end.endAgain
  slave := by
    rw [irqDone_eq]
    intro i bit
    rcases (endHighest_bit s.pics.slave.isr i).mp bit with ⟨here, j, less, lower⟩
    have single := (accounted.slave j lower).2
    have alone : _ = (_ || _) := BitVec.zero_or (x := 1#8 <<< j.val) ▸ set_bit 0 j i
    rw [single] at here
    rw [here] at alone
    have same : j = i := by simpa using alone
    exact absurd (same ▸ less) (lt_irrefl _)

theorem IrqStep.accounted {s t : Irqs} {event : IrqEvent} (step : IrqStep s event t)
    (accounted : Accounted s) : Accounted t := by
  cases step with
  | accept wired master slave => exact accounted.accept master
  | done active => exact accounted.done active
  | call call =>
    rcases call.run_isr s.pics with ⟨master, slave⟩
    exact {
      master := by
        rw [master]
        exact accounted.master
      slave := by
        rw [master, slave]
        exact accounted.slave }
  | checkSpurious => exact ⟨accounted.master, accounted.slave⟩

theorem accounted_run {s t : Irqs} {trace : List IrqEvent} (accounted : Accounted s)
    (run : Run IrqStep s trace t) : Accounted t := by
  induction run with
  | refl => exact accounted
  | snoc run last ih => exact last.accounted ih

/-- However handlers are nested, once all have ended nothing stays in service and every line can
    interrupt again. -/
theorem irqs_never_stuck {s t : Irqs} {trace : List IrqEvent} (none : s.active = [])
    (master : s.pics.master.isr = 0) (slave : s.pics.slave.isr = 0) (run : Run IrqStep s trace t)
    (ended : t.active = []) : t.pics.master.isr = 0 ∧ t.pics.slave.isr = 0 ∧
      ∀ line ≠ 2, ∃ u, IrqStep t (.accept line) u := by
  have first : Accounted s := by
    refine ⟨?_, ?_⟩
    · rw [none, master]
      exact .nil
    · intro i bit
      simp [slave] at bit
  have last := accounted_run first run
  have clear : t.pics.master.isr = 0 := by
    have covers := last.master
    rw [ended] at covers
    generalize t.pics.master.isr = isr at covers
    cases covers
    rfl
  have quiet : t.pics.slave.isr = 0 := by
    apply BitVec.eq_of_getLsbD_eq
    intro i inside
    cases busy : t.pics.slave.isr.getLsbD i with
    | false => simp
    | true =>
      have cascade := (last.slave ⟨i, inside⟩ busy).1
      simp [clear] at cascade
  refine ⟨clear, quiet, fun line wired => ⟨_, .accept wired ?_ ?_⟩⟩
  · intro i bit
    simp [clear] at bit
  · intro pin _ i bit
    simp [quiet] at bit

/-- A handler of line 1 in one of line 14. -/
theorem irqs_never_stuck_nested : ∃ u, IrqStep ⟨interruptsIrqDone (interruptsIrqDone
    (((Pics.mk idlePic idlePic).acknowledge 14).acknowledge 1)), []⟩ (.accept 14) u := by
  have outer := idle_accept 14 (by decide)
  have inner : IrqStep ⟨(Pics.mk idlePic idlePic).acknowledge 14, [14]⟩ (.accept 1)
      ⟨((Pics.mk idlePic idlePic).acknowledge 14).acknowledge 1, [1, 14]⟩ := by
    apply IrqStep.accept (by decide)
    · unfold Prior
      decide
    · nofun
  have run := (((Run.single outer).snoc inner).snoc (.done rfl)).snoc (.done rfl)
  exact (irqs_never_stuck rfl rfl rfl run rfl).2.2 14 (by decide)

end Dxgmx
