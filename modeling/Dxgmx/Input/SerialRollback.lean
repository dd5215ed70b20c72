import Dxgmx.Input.SerialLinks
import Dxgmx.Library.Exec

open Library

namespace Dxgmx

open Serialio

/-- `serialioTryDrvLoop` with the devices that are offered to the driver. -/
def serialioTryDrvOffers (tryLink : Int) (drv : Nat) (driver : SerialIODriver) (s : Serialio) :
    List Nat → Logged Nat (Int × Serialio)
  | [] => pure (0, s)
  | dev :: rest => do
    let device ← Logged.lift (s.devices.load dev)
    if device.driver ≠ 0 then serialioTryDrvOffers tryLink drv driver s rest
    else do
      let hit ← Logged.lift (serialioCheckMatch device driver)
      if hit then do
        Logged.emit dev
        Logged.lift (serialioLink tryLink dev drv device s)
      else serialioTryDrvOffers tryLink drv driver s rest

def serialioAddDrvOffers (mem : SerialMem) (tryLink : Int) (drv : SerialIODriver) (s : Serialio) :
    Logged Nat (Except Int Nat × Serialio) := do
  let (newDrv, s) ← Logged.lift (serialioNewDriver mem s)
  if newDrv = 0 then pure (.error (-12), s)
  else do
    let drivers ← Logged.lift (s.drivers.store newDrv drv)
    let driver ← Logged.lift (drivers.load newDrv)
    let (st, s) ←
      serialioTryDrvOffers tryLink newDrv driver { s with drivers := drivers } s.serialDevs
    pure (if st ≠ 0 then .error st else .ok newDrv, s)

/-- `serialio_new_drv_from` with the devices that are offered to the driver. -/
def serialioNewDrvOffers (mem : SerialMem) (tryLink : Int) (drv : SerialIODriver) (s : Serialio) :
    Logged Nat (Except Int Nat × Serialio) :=
  if drv.maj = 0 ∧ drv.name = none then pure (.error (-22), s)
  else do
    let sameMaj ← Logged.lift (s.serialioSameMaj drv.maj)
    let sameName ← Logged.lift (s.serialioSameName drv.name)
    if sameMaj ≠ none ∨ sameName ≠ none then pure (.error (-17), s)
    else serialioAddDrvOffers mem tryLink drv s

section Offers

variable {s s' : Serialio} {tryLink st : Int} {drv : Nat} {driver : SerialIODriver}

theorem serialioTryDrvOffers_result (devs : List Nat) :
    (serialioTryDrvOffers tryLink drv driver s devs).result =
      serialioTryDrvLoop tryLink drv driver s devs := by
  induction devs with
  | nil => rfl
  | cons dev rest ih =>
    unfold serialioTryDrvOffers serialioTryDrvLoop
    rw [Logged.bind_result, Logged.lift_result]
    congr 1
    funext device
    split
    · exact ih
    · rw [Logged.bind_result, Logged.lift_result]
      congr 1
      funext hit
      cases hit with
      | false => exact ih
      | true => rfl

/-- The log leaves the call as it is. -/
theorem serialioNewDrvOffers_result (mem : SerialMem) (tryLink : Int) (drv : SerialIODriver)
    (s : Serialio) :
    (serialioNewDrvOffers mem tryLink drv s).result = s.serialioNewDrvFrom mem tryLink drv := by
  unfold serialioNewDrvOffers serialioNewDrvFrom
  split
  · rfl
  rw [Logged.bind_result, Logged.lift_result]
  congr 1
  funext sameMaj
  rw [Logged.bind_result, Logged.lift_result]
  congr 1
  funext sameName
  split
  · rfl
  unfold serialioAddDrvOffers serialioAddDrv
  rw [Logged.bind_result, Logged.lift_result]
  congr 1
  funext made
  obtain ⟨newDrv, s₁⟩ := made
  dsimp only
  split
  · rfl
  rw [Logged.bind_result, Logged.lift_result]
  congr 1
  funext drivers
  unfold serialioTryDrv
  rw [Logged.bind_result, Logged.lift_result]
  dsimp only
  cases drivers.load newDrv with
  | error stop => rfl
  | ok driver =>
    rw [Exec.ok_bind, Exec.ok_bind, Logged.bind_result, serialioTryDrvOffers_result]
    rfl

theorem serialioLink_ok {dev : Nat} {device : SerialIODevice}
    (done : serialioLink tryLink dev drv device s = .ok (st, s')) :
    st = tryLink ∧ s'.serialDrvs = s.serialDrvs ∧ s'.serialDevs = s.serialDevs := by
  unfold serialioLink at done
  split at done
  · cases done
    exact ⟨rfl, rfl, rfl⟩
  · rename_i zero
    obtain ⟨devices, -, rest⟩ := Exec.bind_ok.mp done
    cases rest
    exact ⟨(not_not.mp zero).symm, rfl, rfl⟩

/-- A device without a driver that the driver matches. -/
def Serialio.Matches (s : Serialio) (driver : SerialIODriver) (dev : Nat) : Prop :=
  ∃ device, s.devices dev = some device ∧ device.driver = 0 ∧
    serialioCheckMatch device driver = .ok true

theorem serialioTryDrvOffers_ok {devs : List Nat}
    (done : (serialioTryDrvOffers tryLink drv driver s devs).result = .ok (st, s')) :
    (∀ dev ∈ devs, ¬ s.Matches driver dev) ∧ st = 0 ∨
      ∃ dev ∈ devs, s.Matches driver dev ∧ st = tryLink ∧ s'.serialDrvs = s.serialDrvs ∧
        (serialioTryDrvOffers tryLink drv driver s devs).log = [dev] := by
  induction devs with
  | nil =>
    cases done
    exact .inl ⟨nofun, rfl⟩
  | cons dev rest ih =>
    unfold serialioTryDrvOffers at done ⊢
    obtain ⟨device, loaded, step⟩ := Logged.lift_bind_ok.mp done
    have here := Blocks.load_ok.mp loaded
    rw [Logged.lift_bind_log loaded]
    have skip : ¬ s.Matches driver dev →
        (∀ dev ∈ rest, ¬ s.Matches driver dev) ∧ st = 0 ∨
          (∃ dev ∈ rest, s.Matches driver dev ∧ st = tryLink ∧ s'.serialDrvs = s.serialDrvs ∧
            (serialioTryDrvOffers tryLink drv driver s rest).log = [dev]) →
        (∀ other ∈ dev :: rest, ¬ s.Matches driver other) ∧ st = 0 ∨
          ∃ other ∈ dev :: rest, s.Matches driver other ∧ st = tryLink ∧
            s'.serialDrvs = s.serialDrvs ∧
            (serialioTryDrvOffers tryLink drv driver s rest).log = [other] := by
      rintro no (⟨none, zero⟩ | ⟨other, member, found⟩)
      · exact .inl ⟨List.forall_mem_cons.mpr ⟨no, none⟩, zero⟩
      · exact .inr ⟨other, List.mem_cons_of_mem dev member, found⟩
    by_cases linked : device.driver ≠ 0
    · rw [if_pos linked] at step ⊢
      refine skip ?_ (ih step)
      rintro ⟨device', here', free, -⟩
      rw [here] at here'
      cases here'
      exact linked free
    · rw [if_neg linked] at step ⊢
      obtain ⟨hit, checked, step⟩ := Logged.lift_bind_ok.mp step
      rw [Logged.lift_bind_log checked]
      cases hit with
      | false =>
        refine skip ?_ (ih step)
        rintro ⟨device', here', -, hit'⟩
        rw [here] at here'
        cases here'
        rw [checked] at hit'
        cases hit'
      | true =>
        refine .inr ⟨dev, List.mem_cons_self, ⟨device, here, not_not.mp linked, checked⟩, ?_⟩
        rw [if_pos rfl, Logged.emit_bind_result, Logged.lift_result] at step
        rw [if_pos rfl, Logged.emit_bind_log]
        have answer := serialioLink_ok step
        exact ⟨answer.1, answer.2.1, rfl⟩

end Offers

/-- The devices that a new driver is to be offered. -/
def Serialio.Offerable (s : Serialio) (driver : SerialIODriver) (dev : Nat) : Prop :=
  dev ∈ s.serialDevs ∧ s.Matches driver dev

/-- A registered driver that the device matches. -/
def Serialio.Takes (s : Serialio) (device : SerialIODevice) (drv : Nat) : Prop :=
  drv ∈ s.serialDrvs ∧
    ∃ driver, s.drivers drv = some driver ∧ serialioCheckMatch device driver = .ok true

/-- The lists are the same and so is the driver of every device. -/
structure Serialio.SameLinks (s s' : Serialio) : Prop where
  drvs : s'.serialDrvs = s.serialDrvs
  devs : s'.serialDevs = s.serialDevs
  links : ∀ addr, (s'.devices addr).map (·.driver) = (s.devices addr).map (·.driver)

/-- The driver has an id, none of its ids is taken and the allocator has room for it. -/
structure Serialio.RegistersDrv (s : Serialio) (mem : SerialMem) (drv : SerialIODriver) :
    Prop where
  ids : ¬(drv.maj = 0 ∧ drv.name = none)
  maj : s.serialioSameMaj drv.maj = .ok none
  name : s.serialioSameName drv.name = .ok none
  block : mem.block ≠ 0
  node : mem.node = true

structure Serialio.RegistersDev (s : Serialio) (mem : SerialMem) (device : SerialIODevice) :
    Prop where
  ids : ¬(device.maj = 0 ∧ device.name = none)
  name : s.serialioNameDup device.name device.min = .ok false
  maj : s.serialioMajDup device.maj device.min = .ok false
  block : mem.block ≠ 0
  node : mem.node = true

/-- A refused driver leaves everything as it was, and one that is taken has been offered every
    device that is free for it. -/
def Serialio.NewDrvRight (s s' : Serialio) (mem : SerialMem) (tryLink : Int)
    (drv : SerialIODriver) (result : Except Int Nat) : Prop :=
  (∀ st, result = .error st → s.SameLinks s') ∧
    ∀ newDrv, result = .ok newDrv →
      ∀ dev, s.Offerable drv dev → dev ∈ (serialioNewDrvOffers mem tryLink drv s).log

def Serialio.NewDevRight (s s' : Serialio) (result : Except Int Nat) : Prop :=
  ∀ st, result = .error st → s.SameLinks s'

section Calls

variable {s s' : Serialio} {mem : SerialMem} {tryLink st : Int} {result : Except Int Nat}

theorem serialioTryDevLoop_ok {dev : Nat} {device : SerialIODevice} {drvs : List Nat}
    (done : serialioTryDevLoop tryLink dev device s drvs = .ok (st, s')) :
    (∀ drv ∈ drvs, ∀ driver, s.drivers drv = some driver →
      serialioCheckMatch device driver = .ok false) ∧ st = 0 ∨
      (∃ drv ∈ drvs, ∃ driver, s.drivers drv = some driver ∧
        serialioCheckMatch device driver = .ok true) ∧
        st = tryLink ∧ s'.serialDevs = s.serialDevs := by
  induction drvs with
  | nil =>
    cases done
    exact .inl ⟨nofun, rfl⟩
  | cons drv rest ih =>
    rcases Exec.bind_ok.mp done with ⟨driver, loaded, step⟩
    rcases Exec.bind_ok.mp step with ⟨hit, checked, step⟩
    have here := Blocks.load_ok.mp loaded
    cases hit with
    | false =>
      rcases ih step with ⟨none, zero⟩ | ⟨⟨other, member, found⟩, answer⟩
      · refine .inl ⟨List.forall_mem_cons.mpr ⟨?_, none⟩, zero⟩
        intro driver' here'
        rw [here] at here'
        cases here'
        exact checked
      · exact .inr ⟨⟨other, List.mem_cons_of_mem drv member, found⟩, answer⟩
    | true =>
      refine .inr ⟨⟨drv, List.mem_cons_self, driver, here, checked⟩, ?_⟩
      have answer := serialioLink_ok step
      exact ⟨answer.1, answer.2.2⟩

theorem serialioAddDrvOffers_ok {drv : SerialIODriver}
    (done : (serialioAddDrvOffers mem tryLink drv s).result = .ok (result, s')) :
    (mem.block = 0 ∨ mem.node = false) ∧ result = .error (-12) ∧ s.SameLinks s' ∨
      (mem.block ≠ 0 ∧ mem.node = true) ∧
        ((∀ dev, ¬ s.Offerable drv dev) ∧ result = .ok mem.block ∨
          ∃ dev, s.Offerable drv dev ∧
            result = (if tryLink ≠ 0 then .error tryLink else .ok mem.block) ∧
            s'.serialDrvs = s.serialDrvs ++ [mem.block] ∧
            (serialioAddDrvOffers mem tryLink drv s).log = [dev]) := by
  unfold serialioAddDrvOffers at done ⊢
  obtain ⟨⟨newDrv, s₁⟩, created, step⟩ := Logged.lift_bind_ok.mp done
  rw [Logged.lift_bind_log created]
  rcases Exec.bind_ok.mp created with ⟨⟨addr, drivers, serialDrvs⟩, allocated, made⟩
  cases made
  dsimp only at step ⊢
  rcases serialioNew_ok allocated with
    ⟨rfl, refused, rfl, rfl⟩ | ⟨rfl, some_block, linked, -, rfl, rfl⟩
  · cases step
    exact .inl ⟨refused, rfl, rfl, rfl, fun _ => rfl⟩
  · rw [if_neg some_block] at step ⊢
    obtain ⟨drivers, stored, step⟩ := Logged.lift_bind_ok.mp step
    rw [Logged.lift_bind_log stored]
    rcases Blocks.store_ok.mp stored with ⟨-, rfl⟩
    obtain ⟨driver, loaded, step⟩ := Logged.lift_bind_ok.mp step
    rw [Logged.lift_bind_log loaded]
    rw [Blocks.load_ok, Function.update_self] at loaded
    cases loaded
    obtain ⟨⟨st, s₂⟩, tried, step⟩ := Logged.bind_ok.mp step
    rw [Logged.bind_log tried]
    cases step
    refine .inr ⟨⟨some_block, linked⟩, ?_⟩
    rcases serialioTryDrvOffers_ok tried with ⟨none, rfl⟩ | ⟨dev, listed, hit, rfl, kept, log⟩
    · exact .inl ⟨fun dev offer => none dev offer.1 offer.2, rfl⟩
    · refine .inr ⟨dev, ⟨listed, hit⟩, rfl, kept, ?_⟩
      rw [log]
      rfl

theorem serialioNewDrvFrom_ok {drv : SerialIODriver}
    (done : s.serialioNewDrvFrom mem tryLink drv = .ok (result, s')) :
    ¬ s.RegistersDrv mem drv ∧ (∃ st, result = .error st) ∧ s.SameLinks s' ∨
      s.RegistersDrv mem drv ∧
        ((∀ dev, ¬ s.Offerable drv dev) ∧ result = .ok mem.block ∨
          ∃ dev, s.Offerable drv dev ∧
            result = (if tryLink ≠ 0 then .error tryLink else .ok mem.block) ∧
            s'.serialDrvs = s.serialDrvs ++ [mem.block] ∧
            (serialioNewDrvOffers mem tryLink drv s).log = [dev]) := by
  rw [← serialioNewDrvOffers_result] at done
  unfold serialioNewDrvOffers at done ⊢
  by_cases nameless : drv.maj = 0 ∧ drv.name = none
  · rw [if_pos nameless] at done
    cases done
    exact .inl ⟨fun registers => registers.ids nameless, ⟨-22, rfl⟩, rfl, rfl, fun _ => rfl⟩
  · rw [if_neg nameless] at done ⊢
    obtain ⟨sameMaj, majors, step⟩ := Logged.lift_bind_ok.mp done
    rw [Logged.lift_bind_log majors]
    obtain ⟨sameName, names, step⟩ := Logged.lift_bind_ok.mp step
    rw [Logged.lift_bind_log names]
    by_cases taken : sameMaj ≠ none ∨ sameName ≠ none
    · rw [if_pos taken] at step
      cases step
      refine .inl ⟨fun registers => ?_, ⟨-17, rfl⟩, rfl, rfl, fun _ => rfl⟩
      have noMaj := Except.ok.inj (majors.symm.trans registers.maj)
      have noName := Except.ok.inj (names.symm.trans registers.name)
      exact taken.elim (fun differs => differs noMaj) fun differs => differs noName
    · rw [if_neg taken] at step ⊢
      rcases not_or.mp taken with ⟨noMaj, noName⟩
      rw [not_ne_iff.mp noMaj] at majors
      rw [not_ne_iff.mp noName] at names
      rcases serialioAddDrvOffers_ok step with ⟨refused, rfl, same⟩ | ⟨⟨some_block, linked⟩, rest⟩
      · refine .inl ⟨fun registers => ?_, ⟨-12, rfl⟩, same⟩
        rcases refused with zero | refused
        · exact registers.block zero
        · cases refused.symm.trans registers.node
      · exact .inr ⟨⟨nameless, majors, names, some_block, linked⟩, rest⟩

theorem serialioAddDev_ok {name : Option (List Byte)} {maj min : BitVec 32} {data : Nat}
    (done : s.serialioAddDev mem tryLink name maj min data = .ok (result, s')) :
    (mem.block = 0 ∨ mem.node = false) ∧ s.SameLinks s' ∨
      (mem.block ≠ 0 ∧ mem.node = true) ∧
        ((∀ drv, ¬ s.Takes ⟨name, maj, min, 0, data⟩ drv) ∧ result = .ok mem.block ∨
          (∃ drv, s.Takes ⟨name, maj, min, 0, data⟩ drv) ∧
            result = (if tryLink ≠ 0 then .error tryLink else .ok mem.block) ∧
            s'.serialDevs = s.serialDevs ++ [mem.block]) := by
  rcases Exec.bind_ok.mp done with ⟨⟨dev, s₁⟩, created, step⟩
  rcases Exec.bind_ok.mp created with ⟨⟨addr, devices, serialDevs⟩, allocated, made⟩
  cases made
  dsimp only at step
  rcases serialioNew_ok allocated with
    ⟨rfl, refused, rfl, rfl⟩ | ⟨rfl, some_block, linked, -, rfl, rfl⟩
  · cases step
    exact .inl ⟨refused, rfl, rfl, fun _ => rfl⟩
  · rw [if_neg some_block] at step
    rcases Exec.bind_ok.mp step with ⟨devices, stored, step⟩
    rcases Blocks.store_ok.mp stored with ⟨-, rfl⟩
    rcases Exec.bind_ok.mp step with ⟨⟨st, s₂⟩, tried, step⟩
    rcases Exec.bind_ok.mp tried with ⟨device, loaded, loop⟩
    rcases assert_bind_ok.mp loop with ⟨-, loop⟩
    rw [Blocks.load_ok] at loaded
    dsimp only at loaded
    rw [Function.update_self] at loaded
    cases loaded
    cases step
    refine .inr ⟨⟨some_block, linked⟩, ?_⟩
    rcases serialioTryDevLoop_ok loop with ⟨none, rfl⟩ | ⟨⟨drv, listed, hit⟩, rfl, kept⟩
    · refine .inl ⟨?_, rfl⟩
      rintro drv ⟨listed, driver, here, hit⟩
      have miss := none drv listed driver here
      rw [hit] at miss
      cases miss
    · exact .inr ⟨⟨drv, listed, hit⟩, rfl, kept⟩

theorem serialioNewDev_ok {name : Option (List Byte)} {maj min : BitVec 32} {data : Nat}
    (done : s.serialioNewDev mem tryLink name maj min data = .ok (result, s')) :
    ¬ s.RegistersDev mem ⟨name, maj, min, 0, data⟩ ∧ s.SameLinks s' ∨
      s.RegistersDev mem ⟨name, maj, min, 0, data⟩ ∧
        ((∀ drv, ¬ s.Takes ⟨name, maj, min, 0, data⟩ drv) ∧ result = .ok mem.block ∨
          (∃ drv, s.Takes ⟨name, maj, min, 0, data⟩ drv) ∧
            result = (if tryLink ≠ 0 then .error tryLink else .ok mem.block) ∧
            s'.serialDevs = s.serialDevs ++ [mem.block]) := by
  unfold serialioNewDev at done
  by_cases nameless : maj = 0 ∧ name = none
  · rw [if_pos nameless] at done
    cases done
    exact .inl ⟨fun registers => registers.ids nameless, rfl, rfl, fun _ => rfl⟩
  · rw [if_neg nameless] at done
    rcases Exec.bind_ok.mp done with ⟨nameDup, names, step⟩
    rcases Exec.bind_ok.mp step with ⟨majDup, majors, rest⟩
    by_cases taken : nameDup = true ∨ majDup = true
    · rw [if_pos taken] at rest
      cases rest
      refine .inl ⟨fun registers => ?_, rfl, rfl, fun _ => rfl⟩
      have noName := Except.ok.inj (names.symm.trans registers.name)
      have noMaj := Except.ok.inj (majors.symm.trans registers.maj)
      simp [noName, noMaj] at taken
    · rw [if_neg taken] at rest
      rcases not_or.mp taken with ⟨noName, noMaj⟩
      rw [Bool.not_eq_true] at noName noMaj
      subst noName noMaj
      rcases serialioAddDev_ok rest with ⟨refused, same⟩ | ⟨⟨some_block, linked⟩, tried⟩
      · refine .inl ⟨fun registers => ?_, same⟩
        simp [registers.block, registers.node] at refused
      · exact .inr ⟨⟨nameless, names, majors, some_block, linked⟩, tried⟩

theorem append_ne_same {list : List Nat} {addr : Nat} : list ++ [addr] ≠ list := by
  simp

theorem newDrvRight_iff {drv : SerialIODriver}
    (done : s.serialioNewDrvFrom mem tryLink drv = .ok (result, s')) :
    s.NewDrvRight s' mem tryLink drv result ↔ (s.RegistersDrv mem drv →
      (∀ dev, ¬ s.Offerable drv dev) ∨
        tryLink = 0 ∧ ∀ dev other, s.Offerable drv dev → s.Offerable drv other → dev = other) := by
  rcases serialioNewDrvFrom_ok done with ⟨refused, ⟨st, rfl⟩, same⟩ | ⟨registers, rest⟩
  · exact iff_of_true ⟨fun _ _ => same, nofun⟩ fun registers => absurd registers refused
  rcases rest with ⟨none, rfl⟩ | ⟨dev, offer, rfl, kept, log⟩
  · exact iff_of_true ⟨nofun, fun _ _ dev offer => absurd offer (none dev)⟩ fun _ => .inl none
  by_cases zero : tryLink = 0
  · subst zero
    refine ⟨fun right _ => .inr ⟨rfl, ?_⟩, fun only => ⟨nofun, ?_⟩⟩
    · intro one other offerOne offerOther
      have inLog := right.2 mem.block rfl
      rw [log] at inLog
      rw [List.mem_singleton.mp (inLog one offerOne), List.mem_singleton.mp (inLog other offerOther)]
    · intro newDrv _ other offerOther
      rw [log]
      rcases only registers with none | ⟨-, single⟩
      · exact absurd offer (none dev)
      · exact List.mem_singleton.mpr (single other dev offerOther offer)
  · refine iff_of_false (fun right => ?_) fun only => ?_
    · have same := (right.1 tryLink (if_pos zero)).drvs
      rw [kept] at same
      exact append_ne_same same
    · rcases only registers with none | ⟨yes, -⟩
      · exact none dev offer
      · exact zero yes

theorem newDevRight_iff {name : Option (List Byte)} {maj min : BitVec 32} {data : Nat}
    (done : s.serialioNewDev mem tryLink name maj min data = .ok (result, s')) :
    s.NewDevRight s' result ↔ (s.RegistersDev mem ⟨name, maj, min, 0, data⟩ →
      (∀ drv, ¬ s.Takes ⟨name, maj, min, 0, data⟩ drv) ∨ tryLink = 0) := by
  rcases serialioNewDev_ok done with ⟨refused, same⟩ | ⟨registers, rest⟩
  · exact iff_of_true (fun _ _ => same) fun registers => absurd registers refused
  rcases rest with ⟨none, rfl⟩ | ⟨⟨drv, takes⟩, rfl, kept⟩
  · exact iff_of_true nofun fun _ => .inl none
  by_cases zero : tryLink = 0
  · subst zero
    exact iff_of_true nofun fun _ => .inr rfl
  · refine iff_of_false (fun right => ?_) fun only => ?_
    · have same := (right tryLink (if_pos zero)).devs
      rw [kept] at same
      exact append_ne_same same
    · rcases only registers with none | yes
      · exact none drv takes
      · exact zero yes

end Calls

/-- A call that registers rolls nothing back: it is right as long as nothing is there to be linked,
    or the callback links it and no other device was free for the driver. -/
theorem serialioRegister_right_iff (s : Serialio) (mem : SerialMem) (tryLink : Int) :
    (∀ drv result s', s.serialioNewDrvFrom mem tryLink drv = .ok (result, s') →
      (s.NewDrvRight s' mem tryLink drv result ↔ (s.RegistersDrv mem drv →
        (∀ dev, ¬ s.Offerable drv dev) ∨
          tryLink = 0 ∧
            ∀ dev other, s.Offerable drv dev → s.Offerable drv other → dev = other))) ∧
      ∀ name maj min data result s',
        s.serialioNewDev mem tryLink name maj min data = .ok (result, s') →
          (s.NewDevRight s' result ↔ (s.RegistersDev mem ⟨name, maj, min, 0, data⟩ →
            (∀ drv, ¬ s.Takes ⟨name, maj, min, 0, data⟩ drv) ∨ tryLink = 0)) :=
  ⟨fun _ _ _ done => newDrvRight_iff done, fun _ _ _ _ _ _ done => newDevRight_iff done⟩

def kbdSerials (devs : List Nat) : Serialio :=
  ⟨fun _ => none, fun addr => if addr ∈ devs then some ⟨some kbdName, 0, 1, 0, 0⟩ else none,
    [], devs⟩

theorem serialioRegister_right_kbd :
    (∃ result s', (kbdSerials [0x20]).serialioNewDrvFrom ⟨0x10, true⟩ 0 ⟨some kbdName, 0⟩ =
      .ok (result, s') ∧
      (kbdSerials [0x20]).NewDrvRight s' ⟨0x10, true⟩ 0 ⟨some kbdName, 0⟩ result) ∧
      ∃ result s', noSerials.serialioNewDev ⟨0x10, true⟩ 0 (some kbdName) 0 1 0 =
        .ok (result, s') ∧ noSerials.NewDevRight s' result := by
  refine ⟨⟨_, _, rfl, ?_⟩, ⟨_, _, rfl, ?_⟩⟩
  · apply ((serialioRegister_right_iff (kbdSerials [0x20]) ⟨0x10, true⟩ 0).1 _ _ _ rfl).mpr
    intro _
    refine .inr ⟨rfl, fun dev other offer offer' => ?_⟩
    rw [List.mem_singleton.mp offer.1, List.mem_singleton.mp offer'.1]
  · apply ((serialioRegister_right_iff noSerials ⟨0x10, true⟩ 0).2 (some kbdName) 0 1 0 _ _
      rfl).mpr
    intro _
    exact .inr rfl

/-- A refused driver stays in the list, and the second of two keyboards is not offered. -/
theorem not_serialioRegister_right :
    (∃ result s', (kbdSerials [0x20]).serialioNewDrvFrom ⟨0x10, true⟩ (-1) ⟨some kbdName, 0⟩ =
      .ok (result, s') ∧
      ¬(kbdSerials [0x20]).NewDrvRight s' ⟨0x10, true⟩ (-1) ⟨some kbdName, 0⟩ result) ∧
      ∃ result s', (kbdSerials [0x20, 0x30]).serialioNewDrvFrom ⟨0x10, true⟩ 0
        ⟨some kbdName, 0⟩ = .ok (result, s') ∧
        ¬(kbdSerials [0x20, 0x30]).NewDrvRight s' ⟨0x10, true⟩ 0 ⟨some kbdName, 0⟩ result := by
  refine ⟨⟨_, _, rfl, fun right => ?_⟩, ⟨_, _, rfl, fun right => ?_⟩⟩
  · have kept := (right.1 (-1) rfl).drvs
    exact absurd kept (by decide)
  · have offered := right.2 0x10 rfl 0x30 ⟨by decide, _, rfl, rfl, rfl⟩
    exact absurd offered (by decide)

end Dxgmx
