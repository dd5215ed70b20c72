import Dxgmx.Buses.Pci
import Dxgmx.Library.Runs

open Library

namespace Dxgmx

/-- The two lists of the subsystem. A driver is told from others by its address. -/
structure PciSystem (κ : Type) where
  devs : List (PciDevice κ)
  drivers : List κ

structure PciDeviceDriver where
  cls : Byte
  subclass : Byte
  deriving DecidableEq

section

variable {κ : Type} [DecidableEq κ] (info : κ → PciDeviceDriver)

/-- The device is free, of the driver's kind, and its probe succeeds. -/
def takesDevice (driver : κ) (probe : PciDevice κ → Int) (dev : PciDevice κ) : Bool :=
  dev.cls = (info driver).cls && dev.subclass = (info driver).subclass && dev.driver.isNone &&
    probe dev = 0

/-- The `break` leaves the inner one of the two loops that go through a list, so that the outer one
    goes on with the next device. -/
def pciRegisterDeviceDriver (driver : κ) (memory : Bool) (probe : PciDevice κ → Int)
    (s : PciSystem κ) : Int × PciSystem κ :=
  if memory = false then (-12, s)
  else
    (0, ⟨s.devs.map fun dev =>
      if takesDevice info driver probe dev then { dev with driver := some driver } else dev,
      s.drivers ++ [driver]⟩)

def pciUnregisterDeviceDriver (driver : κ) (s : PciSystem κ) : Int × PciSystem κ :=
  (if driver ∈ s.drivers then 0 else -2,
    ⟨s.devs.map fun dev => if dev.driver = some driver then { dev with driver := none } else dev,
      s.drivers.erase driver⟩)

/-- A call, with the devices that it binds or frees. -/
inductive PciEvent (κ : Type)
  | register (driver : κ) (bound : Nat → Prop)
  | unregister (driver : κ) (freed : Nat → Prop)

def PciSystem.driverOf (s : PciSystem κ) (i : Nat) : Option κ :=
  s.devs[i]?.bind (·.driver)

inductive PciStep : PciSystem κ → PciEvent κ → PciSystem κ → Prop
  | register {s : PciSystem κ} {driver : κ} {memory : Bool} {probe : PciDevice κ → Int} :
      PciStep s (.register driver fun i => memory = true ∧
          ∃ dev, s.devs[i]? = some dev ∧ takesDevice info driver probe dev = true)
        (pciRegisterDeviceDriver info driver memory probe s).2
  | unregister {s : PciSystem κ} {driver : κ} :
      PciStep s (.unregister driver fun i => s.driverOf i = some driver)
        (pciUnregisterDeviceDriver driver s).2

def PciEvent.binds : PciEvent κ → Nat × κ → Prop
  | .register driver bound, (i, d) => driver = d ∧ bound i
  | .unregister _ _, _ => False

def PciEvent.unbinds : PciEvent κ → Nat × κ → Prop
  | .register _ _, _ => False
  | .unregister driver _, (_, d) => driver = d

variable {info} {s t : PciSystem κ} {event : PciEvent κ} {trace : List (PciEvent κ)}

/-- After a call, a device has the driver that it has been bound to, or the one it had, unless that
    one is gone. -/
theorem driverOf_step (step : PciStep info s event t) (i : Nat) (d : κ) :
    t.driverOf i = some d ↔ event.binds (i, d) ∨ (s.driverOf i = some d ∧ ¬event.unbinds (i, d)) := by
  cases step with
  | @register driver memory probe =>
    cases memory with
    | false => simp [pciRegisterDeviceDriver, PciEvent.binds, PciEvent.unbinds]
    | true =>
      cases found : s.devs[i]? with
      | none =>
        simp [pciRegisterDeviceDriver, PciSystem.driverOf, PciEvent.binds, found]
      | some dev =>
        by_cases takes : takesDevice info driver probe dev = true
        · have free : dev.driver = none := by
            simp only [takesDevice, Bool.and_eq_true, Option.isNone_iff_eq_none] at takes
            exact takes.1.2
          simp [pciRegisterDeviceDriver, PciSystem.driverOf, PciEvent.binds, PciEvent.unbinds, found,
            takes, free]
        · simp [pciRegisterDeviceDriver, PciSystem.driverOf, PciEvent.binds, PciEvent.unbinds, found,
            takes]
  | @unregister driver =>
    cases found : s.devs[i]? with
    | none => simp [pciUnregisterDeviceDriver, PciSystem.driverOf, PciEvent.binds, found]
    | some dev =>
      by_cases own : dev.driver = some driver
      · simp [pciUnregisterDeviceDriver, PciSystem.driverOf, PciEvent.binds, PciEvent.unbinds, found,
          own]
      · simp only [pciUnregisterDeviceDriver, PciSystem.driverOf, PciEvent.binds, PciEvent.unbinds,
          List.getElem?_map, found, Option.map_some, if_neg own, Option.bind_some, false_or]
        constructor
        · intro same
          refine ⟨same, ?_⟩
          rintro rfl
          exact own same
        · exact And.left

/-- At every point of every run, a device has a driver exactly if it had it at the start or was bound
    to it by a registration, and the driver has not been unregistered since. -/
theorem driverOf_run (run : Run (PciStep info) s trace t) (i : Nat) (d : κ) :
    t.driverOf i = some d ↔ Outstanding PciEvent.binds PciEvent.unbinds trace (i, d) ∨
      (s.driverOf i = some d ∧ ∀ event ∈ trace, ¬event.unbinds (i, d)) := by
  induction run with
  | refl =>
    constructor
    · exact fun same => .inr ⟨same, nofun⟩
    · rintro (lent | ⟨same, -⟩)
      · exact absurd lent not_outstanding_nil
      · exact same
  | snoc run last ih =>
    rw [driverOf_step last, ih]
    constructor
    · rintro (binds | ⟨lent | ⟨same, never⟩, stays⟩)
      · exact .inl (Outstanding.taken _ _ binds)
      · exact .inl (lent.snoc stays)
      · refine .inr ⟨same, fun event member => ?_⟩
        rcases List.mem_append.mp member with before | here
        · exact never event before
        · rw [List.mem_singleton.mp here]
          exact stays
    · rintro (lent | ⟨same, never⟩)
      · rcases outstanding_snoc lent with binds | ⟨lent, stays⟩
        · exact .inl binds
        · exact .inr ⟨.inl lent, stays⟩
      · refine .inr ⟨.inr ⟨same, fun event member => never event (by simp [member])⟩, ?_⟩
        exact never _ (by simp)

/-- The driver of IDE controllers. -/
def ideDriver (_ : Unit) : PciDeviceDriver := ⟨1, 1⟩

def ideFound : PciSystem Unit := ⟨PciEnv.oneEnumerated.devs, []⟩

def ideRegistered : PciSystem Unit :=
  (pciRegisterDeviceDriver ideDriver () true (fun _ => 0) ideFound).2

def ideEvent : PciEvent Unit :=
  .register () fun i => true = true ∧
    ∃ dev, ideFound.devs[i]? = some dev ∧ takesDevice ideDriver () (fun _ => 0) dev = true

theorem ideFound_registers : Run (PciStep ideDriver) ideFound [ideEvent] ideRegistered :=
  .single .register

theorem driverOf_run_ide : ideRegistered.driverOf 0 = some () :=
  (driverOf_run ideFound_registers 0 ()).mpr
    (.inl (Outstanding.taken _ [] ⟨rfl, rfl, _, rfl, by decide⟩))

def PciEvent.bound : PciEvent κ → Nat → Prop
  | .register _ bound, i => bound i
  | .unregister _ _, _ => False

def PciEvent.freed : PciEvent κ → Nat → Prop
  | .register _ _, _ => False
  | .unregister _ freed, i => freed i

/-- A device is there and has no driver. -/
def PciSystem.Free (s : PciSystem κ) (i : Nat) : Prop :=
  ∃ dev, s.devs[i]? = some dev ∧ dev.driver = none

theorem bound_free (step : PciStep info s event t) {i : Nat} (bound : event.bound i) : s.Free i := by
  cases step with
  | register =>
    rcases bound with ⟨-, dev, found, takes⟩
    simp only [takesDevice, Bool.and_eq_true, Option.isNone_iff_eq_none] at takes
    exact ⟨dev, found, takes.1.2⟩
  | unregister => cases bound

theorem bound_used (step : PciStep info s event t) {i : Nat} (bound : event.bound i) :
    ¬t.Free i := by
  cases step with
  | register =>
    rcases bound with ⟨rfl, dev, found, takes⟩
    simp [PciSystem.Free, pciRegisterDeviceDriver, found, takes]
  | unregister => cases bound

theorem free_only_freed (step : PciStep info s event t) {i : Nat} (kept : ¬event.freed i)
    (used : ¬s.Free i) : ¬t.Free i := by
  rintro ⟨after, found, free⟩
  cases step with
  | @register driver memory probe =>
    cases memory with
    | false => exact used ⟨after, found, free⟩
    | true =>
      rcases Option.map_eq_some_iff.mp (List.getElem?_map.symm.trans found) with ⟨dev, here, same⟩
      split at same
      · rw [← same] at free
        cases free
      · rw [← same] at free
        exact used ⟨dev, here, free⟩
  | @unregister driver =>
    simp only [pciUnregisterDeviceDriver, List.getElem?_map, Option.map_eq_some_iff] at found
    rcases found with ⟨dev, found, same⟩
    by_cases own : dev.driver = some driver
    · exact kept (by simp [PciEvent.freed, PciSystem.driverOf, found, own])
    · rw [if_neg own] at same
      rw [← same] at free
      exact used ⟨dev, found, free⟩

/-- Between two registrations that bind a device, there is a call that frees it. -/
theorem bindings_exclusive (run : Run (PciStep info) s trace t) :
    Exclusive PciEvent.bound PciEvent.freed trace := by
  apply Run.exclusive PciSystem.Free _ _ _ run
  · exact fun s event t dev step => bound_free step
  · exact fun s event t dev step => bound_used step
  · exact fun s event t dev step => free_only_freed step

theorem bindings_exclusive_ide : Exclusive PciEvent.bound PciEvent.freed [ideEvent] :=
  bindings_exclusive ideFound_registers

/-- Every driver that a device has is registered and is for its kind of device. -/
def PciSystem.Matched (info : κ → PciDeviceDriver) (s : PciSystem κ) : Prop :=
  ∀ dev ∈ s.devs, ∀ d, dev.driver = some d →
    d ∈ s.drivers ∧ dev.cls = (info d).cls ∧ dev.subclass = (info d).subclass

theorem matched_step (step : PciStep info s event t) (matched : s.Matched info) :
    t.Matched info := by
  cases step with
  | @register driver memory probe =>
    cases memory with
    | false => exact matched
    | true =>
      intro after member d own
      rcases List.mem_map.mp member with ⟨dev, inside, same⟩
      split at same
      next takes =>
        rw [← same] at own ⊢
        cases own
        simp only [takesDevice, Bool.and_eq_true, decide_eq_true_eq] at takes
        exact ⟨List.mem_append_right _ (List.mem_singleton_self _), takes.1.1.1, takes.1.1.2⟩
      next =>
        rw [← same] at own ⊢
        rcases matched dev inside d own with ⟨known, kind⟩
        exact ⟨List.mem_append_left _ known, kind⟩
  | @unregister driver =>
    intro after member d own
    rcases List.mem_map.mp member with ⟨dev, inside, same⟩
    split at same
    next =>
      rw [← same] at own
      cases own
    next other =>
      rw [← same] at own ⊢
      rcases matched dev inside d own with ⟨known, kind⟩
      have different : d ≠ driver := by
        rintro rfl
        exact other own
      exact ⟨(List.mem_erase_of_ne different).mpr known, kind⟩

/-- In every run from devices without drivers, no device has the driver of another kind of device,
    or one that is not registered. -/
theorem matched_run (run : Run (PciStep info) s trace t)
    (clean : ∀ dev ∈ s.devs, dev.driver = none) : t.Matched info := by
  refine run.invariant (·.Matched info) (fun _ _ _ step => matched_step step) ?_
  intro dev member d own
  rw [clean dev member] at own
  cases own

theorem matched_run_ide : ideRegistered.Matched ideDriver :=
  matched_run ideFound_registers (by simp [ideFound, PciEnv.oneEnumerated, PciEnv.describe])

end

end Dxgmx
