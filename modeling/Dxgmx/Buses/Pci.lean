import Dxgmx.Library.OrderedVisits
import Dxgmx.Kstdlib.String

open Library Relation

namespace Dxgmx

/-- Where a function of a device is. -/
structure PciLocation where
  bus : Byte
  dev : Byte
  func : Byte
  deriving DecidableEq

structure PciDevice (κ : Type) where
  location : PciLocation
  vendorId : BitVec 16
  deviceId : BitVec 16
  cls : Byte
  subclass : Byte
  revisionId : Byte
  progif : Byte
  headerType : Byte
  driver : Option κ
  deriving DecidableEq

/-- `PCIDeviceRegister`, from its last field to its first. -/
def pciDeviceRegister (bus dev func offset : Byte) : BitVec 32 :=
  (1 : BitVec 1) ++ (0 : BitVec 7) ++ bus ++ dev.setWidth 5 ++ func.setWidth 3 ++ offset

/-- What the bus answers on the data port for an address, and what the two allocations of a
    registration come to: nothing, or a device that already has something in its `driver`. -/
structure PciEnv (κ : Type) where
  config : BitVec 32 → BitVec 32
  alloc : Nat → Option (Option κ)

structure PciState (κ : Type) where
  devs : List (PciDevice κ)
  allocs : Nat

namespace PciEnv

variable {κ : Type} (env : PciEnv κ)

def pciRead4Bytes (bus dev func offset : Byte) : BitVec 32 :=
  if offset &&& 0b11 ≠ 0 then 0 else env.config (pciDeviceRegister bus dev func offset)

def pciReadVendorId (bus dev func : Byte) : BitVec 16 :=
  (env.pciRead4Bytes bus dev func 0).setWidth 16

def pciReadHeaderType (bus dev func : Byte) : Byte :=
  (env.pciRead4Bytes bus dev func 0xC >>> 16).setWidth 8

def pciDeviceIsMultifunction (bus dev : Byte) : Bool :=
  env.pciReadHeaderType bus dev 0 &&& (1 <<< 7) ≠ 0

/-- A `PCI_BRIDGE` of subclass 0. -/
def pciDeviceIsHostBridge (bus dev func : Byte) : Bool :=
  let tmp := env.pciRead4Bytes bus dev func 0x8
  (tmp >>> 24).setWidth 8 = (6 : Byte) && (tmp >>> 16).setWidth 8 = (0 : Byte)

/-- The device that `pci_register_device` fills in. It does not write to `driver`. -/
def describe (at_ : PciLocation) (driver : Option κ) : PciDevice κ where
  location := at_
  vendorId := (env.pciRead4Bytes at_.bus at_.dev at_.func 0).setWidth 16
  deviceId := (env.pciRead4Bytes at_.bus at_.dev at_.func 0 >>> 16).setWidth 16
  cls := (env.pciRead4Bytes at_.bus at_.dev at_.func 0x8 >>> 24).setWidth 8
  subclass := (env.pciRead4Bytes at_.bus at_.dev at_.func 0x8 >>> 16).setWidth 8
  progif := (env.pciRead4Bytes at_.bus at_.dev at_.func 0x8 >>> 8).setWidth 8
  revisionId := (env.pciRead4Bytes at_.bus at_.dev at_.func 0x8).setWidth 8
  headerType := (env.pciRead4Bytes at_.bus at_.dev at_.func 0xC >>> 16).setWidth 8
  driver := driver

def pciRegisterDevice (bus dev func : Byte) (s : PciState κ) : Int × PciState κ :=
  match env.alloc s.allocs with
  | none => (-12, { s with allocs := s.allocs + 1 })
  | some driver => (0, ⟨s.devs ++ [env.describe ⟨bus, dev, func⟩ driver], s.allocs + 1⟩)

/-- The loop over the functions of a device from the second one on. -/
def pciEnumerateFuncs (enumerate : Byte → PciState κ → Exec (PciState κ)) (bus dev : Byte) :
    List Byte → PciState κ → Exec (PciState κ)
  | [], s => .ok s
  | func :: funcs, s =>
    if env.pciReadVendorId bus dev func = 0xFFFF then pciEnumerateFuncs enumerate bus dev funcs s
    else do
      let s := (env.pciRegisterDevice bus dev func s).2
      let s ← (if env.pciDeviceIsHostBridge bus dev func then enumerate func s else .ok s)
      pciEnumerateFuncs enumerate bus dev funcs s

/-- The functions of a device that are looked at where it has several. -/
def moreFuncs : List Byte := (List.range' 1 7).map (BitVec.ofNat 8)

def pciEnumerateDevs (enumerate : Byte → PciState κ → Exec (PciState κ)) (bus : Byte) :
    List Byte → PciState κ → Exec (PciState κ)
  | [], s => .ok s
  | dev :: devs, s =>
    if env.pciReadVendorId bus dev 0 = 0xFFFF then pciEnumerateDevs enumerate bus devs s
    else
      let (st, s) := env.pciRegisterDevice bus dev 0 s
      if st ≠ 0 then .ok s
      else if env.pciDeviceIsMultifunction bus dev = false then
        pciEnumerateDevs enumerate bus devs s
      else do
        let s ← env.pciEnumerateFuncs enumerate bus dev moreFuncs s
        pciEnumerateDevs enumerate bus devs s

def allDevs : List Byte := (List.range 32).map (BitVec.ofNat 8)

/-- The fuel is spent on calls inside one another. -/
def pciEnumerateBus : (fuel : Nat) → Byte → PciState κ → Exec (PciState κ)
  | 0, _, _ => .error .fuel
  | fuel + 1, bus, s => env.pciEnumerateDevs (pciEnumerateBus fuel) bus allDevs s

def pciEnumerateDevices (fuel : Nat) (s : PciState κ) : Exec (Int × PciState κ) :=
  if env.pciReadVendorId 0 0 0 = 0xFFFF then .ok (-19, s)
  else do
    let s ← env.pciEnumerateBus fuel 0 s
    pure (0, s)

/-- There is a function, and its device has one at 0 and says that it has more. -/
structure Present (at_ : PciLocation) : Prop where
  dev : at_.dev ∈ allDevs
  first : env.pciReadVendorId at_.bus at_.dev 0 ≠ 0xFFFF
  more : at_.func = 0 ∨ at_.func ∈ moreFuncs ∧ env.pciDeviceIsMultifunction at_.bus at_.dev = true ∧
    env.pciReadVendorId at_.bus at_.dev at_.func ≠ 0xFFFF

/-- A host bridge that is not the first function of its device is taken for one to the bus with the
    number of the function. -/
def Bridges (bus other : Byte) : Prop :=
  ∃ dev, env.Present ⟨bus, dev, other⟩ ∧ other ∈ moreFuncs ∧
    env.pciDeviceIsHostBridge bus dev other = true

/-- The functions on a bus and on what bridges lead to from it. -/
def Reached (bus : Byte) : Set PciLocation :=
  {at_ | ReflTransGen env.Bridges bus at_.bus ∧ env.Present at_}

/-- The devices that have been added are what the bus has at these places, all of them where there
    was memory for it. -/
def Adds (places : Set PciLocation) (s t : PciState κ) : Prop :=
  ∃ new, t.devs = s.devs ++ new ∧
    (∀ device ∈ new, ∃ at_ ∈ places, ∃ driver, device = env.describe at_ driver) ∧
    ((∀ n, (env.alloc n).isSome) → ∀ at_ ∈ places, ∃ device ∈ new, device.location = at_)

variable {env} {bus dev func : Byte} {s t u : PciState κ} {places more : Set PciLocation}
variable {enumerate : Byte → PciState κ → Exec (PciState κ)}

theorem adds_nothing (env : PciEnv κ) (s : PciState κ) : env.Adds ∅ s s :=
  ⟨[], by simp, nofun, fun _ _ => nofun⟩

theorem Adds.trans (first : env.Adds places s t) (second : env.Adds more t u) :
    env.Adds (places ∪ more) s u := by
  rcases first with ⟨new, devs, sound, all⟩
  rcases second with ⟨new', devs', sound', all'⟩
  refine ⟨new ++ new', by rw [devs', devs, List.append_assoc], fun device member => ?_,
    fun enough at_ inside => ?_⟩
  · rcases List.mem_append.mp member with here | there
    · rcases sound device here with ⟨at_, inside, described⟩
      exact ⟨at_, .inl inside, described⟩
    · rcases sound' device there with ⟨at_, inside, described⟩
      exact ⟨at_, .inr inside, described⟩
  · rcases inside with here | there
    · rcases all enough at_ here with ⟨device, member, same⟩
      exact ⟨device, by simp [member], same⟩
    · rcases all' enough at_ there with ⟨device, member, same⟩
      exact ⟨device, by simp [member], same⟩

/-- Where there was no memory for some device, fewer places may have been added. -/
theorem Adds.widen (adds : env.Adds places s t) (sub : places ⊆ more)
    (out : ∃ n, env.alloc n = none) : env.Adds more s t := by
  rcases adds with ⟨new, devs, sound, -⟩
  refine ⟨new, devs, fun device member => ?_, fun enough => ?_⟩
  · rcases sound device member with ⟨at_, inside, described⟩
    exact ⟨at_, sub inside, described⟩
  · rcases out with ⟨n, failed⟩
    have some_ := enough n
    rw [failed] at some_
    cases some_

theorem register_adds (env : PciEnv κ) (bus dev func : Byte) (s : PciState κ) :
    env.Adds {⟨bus, dev, func⟩} s (env.pciRegisterDevice bus dev func s).2 := by
  unfold pciRegisterDevice
  cases outcome : env.alloc s.allocs with
  | none =>
    refine ⟨[], by simp, nofun, fun enough => ?_⟩
    have some_ := enough s.allocs
    rw [outcome] at some_
    cases some_
  | some driver =>
    refine ⟨[env.describe ⟨bus, dev, func⟩ driver], rfl, ?_, ?_⟩
    · intro device member
      exact ⟨_, rfl, driver, List.mem_singleton.mp member⟩
    · intro _ at_ same
      exact ⟨_, List.mem_singleton_self _, same.symm⟩

/-- What the functions of a list add, where `below` is what a bus adds. -/
def funcPlaces (env : PciEnv κ) (below : Byte → Set PciLocation) (bus dev : Byte)
    (funcs : List Byte) : Set PciLocation :=
  {at_ | ∃ func ∈ funcs, env.pciReadVendorId bus dev func ≠ 0xFFFF ∧
    (at_ = ⟨bus, dev, func⟩ ∨ env.pciDeviceIsHostBridge bus dev func = true ∧ at_ ∈ below func)}

theorem funcPlaces_cons (below : Byte → Set PciLocation) (funcs : List Byte)
    (here : env.pciReadVendorId bus dev func ≠ 0xFFFF) :
    env.funcPlaces below bus dev (func :: funcs) =
      {⟨bus, dev, func⟩} ∪ {at_ | env.pciDeviceIsHostBridge bus dev func = true ∧ at_ ∈ below func} ∪
        env.funcPlaces below bus dev funcs := by
  ext at_
  simp only [funcPlaces, List.mem_cons, Set.mem_ofPred_eq, Set.mem_union, Set.mem_singleton_iff]
  constructor
  · rintro ⟨f, rfl | member, rest⟩
    · exact .inl rest.2
    · exact .inr ⟨f, member, rest⟩
  · rintro (own | ⟨f, member, rest⟩)
    · exact ⟨func, .inl rfl, here, own⟩
    · exact ⟨f, .inr member, rest⟩

theorem funcPlaces_absent (below : Byte → Set PciLocation) (funcs : List Byte)
    (here : env.pciReadVendorId bus dev func = 0xFFFF) :
    env.funcPlaces below bus dev (func :: funcs) = env.funcPlaces below bus dev funcs := by
  ext at_
  simp [funcPlaces, here]

theorem funcs_add {below : Byte → Set PciLocation}
    (each : ∀ bus s t, enumerate bus s = .ok t → env.Adds (below bus) s t) {funcs : List Byte}
    (done : env.pciEnumerateFuncs enumerate bus dev funcs s = .ok t) :
    env.Adds (env.funcPlaces below bus dev funcs) s t := by
  induction funcs generalizing s with
  | nil =>
    cases done
    have none_ : env.funcPlaces below bus dev [] = ∅ := by simp [funcPlaces]
    rw [none_]
    exact adds_nothing env _
  | cons func funcs ih =>
    by_cases here : env.pciReadVendorId bus dev func = 0xFFFF
    · rw [pciEnumerateFuncs, if_pos here] at done
      rw [funcPlaces_absent below funcs here]
      exact ih done
    · rw [pciEnumerateFuncs, if_neg here] at done
      rcases Exec.bind_ok.mp done with ⟨middle, inner, rest⟩
      rw [funcPlaces_cons below funcs here]
      refine ((register_adds env bus dev func s).trans ?_).trans (ih rest)
      by_cases bridge : env.pciDeviceIsHostBridge bus dev func = true
      · rw [if_pos bridge] at inner
        simpa [bridge] using each func _ middle inner
      · rw [if_neg bridge] at inner
        cases inner
        simpa [bridge] using adds_nothing env _

def devPlaces (env : PciEnv κ) (below : Byte → Set PciLocation) (bus : Byte) (devs : List Byte) :
    Set PciLocation :=
  {at_ | ∃ dev ∈ devs, env.pciReadVendorId bus dev 0 ≠ 0xFFFF ∧
    (at_ = ⟨bus, dev, 0⟩ ∨ env.pciDeviceIsMultifunction bus dev = true ∧
      at_ ∈ env.funcPlaces below bus dev moreFuncs)}

theorem devPlaces_cons (below : Byte → Set PciLocation) (devs : List Byte)
    (here : env.pciReadVendorId bus dev 0 ≠ 0xFFFF) :
    env.devPlaces below bus (dev :: devs) =
      {⟨bus, dev, 0⟩} ∪ {at_ | env.pciDeviceIsMultifunction bus dev = true ∧
        at_ ∈ env.funcPlaces below bus dev moreFuncs} ∪ env.devPlaces below bus devs := by
  ext at_
  simp only [devPlaces, List.mem_cons, Set.mem_ofPred_eq, Set.mem_union, Set.mem_singleton_iff]
  constructor
  · rintro ⟨d, rfl | member, rest⟩
    · exact .inl rest.2
    · exact .inr ⟨d, member, rest⟩
  · rintro (own | ⟨d, member, rest⟩)
    · exact ⟨dev, .inl rfl, here, own⟩
    · exact ⟨d, .inr member, rest⟩

theorem devPlaces_absent (below : Byte → Set PciLocation) (devs : List Byte)
    (here : env.pciReadVendorId bus dev 0 = 0xFFFF) :
    env.devPlaces below bus (dev :: devs) = env.devPlaces below bus devs := by
  ext at_
  simp only [BitVec.ofNat_eq_ofNat] at here
  simp [devPlaces, here]

/-- The first function of a device that is not registered ends the loop. -/
theorem register_st (env : PciEnv κ) (bus dev func : Byte) (s : PciState κ) :
    (env.pciRegisterDevice bus dev func s).1 ≠ 0 → ∃ n, env.alloc n = none := by
  unfold pciRegisterDevice
  cases outcome : env.alloc s.allocs with
  | none => exact fun _ => ⟨_, outcome⟩
  | some driver => exact fun failed => absurd rfl failed

theorem devs_add {below : Byte → Set PciLocation}
    (each : ∀ bus s t, enumerate bus s = .ok t → env.Adds (below bus) s t) {devs : List Byte}
    (done : env.pciEnumerateDevs enumerate bus devs s = .ok t) :
    env.Adds (env.devPlaces below bus devs) s t := by
  induction devs generalizing s with
  | nil =>
    cases done
    have none_ : env.devPlaces below bus [] = ∅ := by simp [devPlaces]
    rw [none_]
    exact adds_nothing env _
  | cons dev devs ih =>
    by_cases here : env.pciReadVendorId bus dev 0 = 0xFFFF
    · rw [pciEnumerateDevs, if_pos here] at done
      rw [devPlaces_absent below devs here]
      exact ih done
    · rw [pciEnumerateDevs, if_neg here] at done
      rw [devPlaces_cons below devs here]
      have first := register_adds env bus dev 0 s
      by_cases failed : (env.pciRegisterDevice bus dev 0 s).1 ≠ 0
      · simp only [if_pos failed] at done
        cases done
        apply first.widen _ (register_st env bus dev 0 s failed)
        exact fun at_ same => .inl (.inl same)
      · simp only [if_neg failed] at done
        by_cases single : env.pciDeviceIsMultifunction bus dev = false
        · rw [if_pos single] at done
          refine (first.trans ?_).trans (ih done)
          simpa [single] using adds_nothing env _
        · rw [if_neg single] at done
          rcases Exec.bind_ok.mp done with ⟨middle, funcs, rest⟩
          refine (first.trans ?_).trans (ih rest)
          rw [Bool.not_eq_false] at single
          simpa [single] using funcs_add each funcs

/-- What is reached from a bus is on it or is reached from what its bridges lead to. -/
theorem devPlaces_reached (env : PciEnv κ) (bus : Byte) :
    env.devPlaces env.Reached bus allDevs = env.Reached bus := by
  ext at_
  constructor
  · rintro ⟨dev, device, first, rfl | ⟨multi, func, member, responds, rfl | ⟨bridge, way, there⟩⟩⟩
    · exact ⟨.refl, device, first, .inl rfl⟩
    · exact ⟨.refl, device, first, .inr ⟨member, multi, responds⟩⟩
    · have leads : env.Bridges bus func :=
        ⟨dev, ⟨device, first, .inr ⟨member, multi, responds⟩⟩, member, bridge⟩
      exact ⟨.head leads way, there⟩
  · rintro ⟨way, there⟩
    rcases ReflTransGen.cases_head way with same | ⟨func, ⟨dev, present, member, bridge⟩, rest⟩
    · rcases at_ with ⟨b, dev, func⟩
      cases same
      refine ⟨dev, there.dev, there.first, ?_⟩
      rcases there.more with rfl | ⟨member, multi, responds⟩
      · exact .inl rfl
      · exact .inr ⟨multi, func, member, responds, .inl rfl⟩
    · have zero : func ≠ 0 := by
        rintro rfl
        revert member
        decide
      rcases present.more.resolve_left zero with ⟨-, multi, responds⟩
      exact ⟨dev, present.dev, present.first,
        .inr ⟨multi, func, member, responds, .inr ⟨bridge, rest, there⟩⟩⟩

theorem bus_adds {fuel : Nat} (done : env.pciEnumerateBus fuel bus s = .ok t) :
    env.Adds (env.Reached bus) s t := by
  induction fuel generalizing bus s t with
  | zero => cases done
  | succ fuel ih =>
    rw [← devPlaces_reached]
    exact devs_add (fun _ _ _ inner => ih inner) done

/-- An enumeration adds devices that are on the buses that are reached, each as the bus describes it,
    and no other. Where there is memory for every one of them, none is left out. -/
theorem enumerated {fuel : Nat} {st : Int}
    (done : env.pciEnumerateDevices fuel s = .ok (st, t)) :
    ∃ new, t.devs = s.devs ++ new ∧
      (∀ device ∈ new, device.location ∈ env.Reached 0 ∧
        device = env.describe device.location device.driver) ∧
      ((∀ n, (env.alloc n).isSome) → env.pciReadVendorId 0 0 0 ≠ 0xFFFF →
        ∀ at_ ∈ env.Reached 0, ∃ device ∈ new, device.location = at_) := by
  by_cases rootless : env.pciReadVendorId 0 0 0 = 0xFFFF
  · rw [pciEnumerateDevices, if_pos rootless] at done
    cases done
    exact ⟨[], by simp, nofun, fun _ root => absurd rootless root⟩
  · rw [pciEnumerateDevices, if_neg rootless] at done
    rcases Exec.bind_ok.mp done with ⟨left, bus, same⟩
    cases same
    rcases bus_adds bus with ⟨new, devs, sound, all⟩
    refine ⟨new, devs, fun device member => ?_, fun enough _ => all enough⟩
    rcases sound device member with ⟨at_, inside, driver, rfl⟩
    exact ⟨inside, rfl⟩

/-- A root bus with one device and one function. -/
def oneDevice : PciEnv Unit where
  config addr :=
    if addr = pciDeviceRegister 0 0 0 0 then 0x70108086
    else if addr = pciDeviceRegister 0 0 0 8 then 0x01018000
    else if addr = pciDeviceRegister 0 0 0 0xC then 0
    else 0xFFFFFFFF
  alloc _ := some none

def oneEnumerated : PciState Unit := ⟨[oneDevice.describe ⟨0, 0, 0⟩ none], 1⟩

theorem enumerated_one_device : ∃ new, oneEnumerated.devs = [] ++ new ∧
    (∀ device ∈ new, device.location ∈ oneDevice.Reached 0 ∧
      device = oneDevice.describe device.location device.driver) ∧
    ((∀ n, (oneDevice.alloc n).isSome) → oneDevice.pciReadVendorId 0 0 0 ≠ 0xFFFF →
      ∀ at_ ∈ oneDevice.Reached 0, ∃ device ∈ new, device.location = at_) :=
  have done : oneDevice.pciEnumerateDevices 1 ⟨[], 0⟩ = .ok (0, oneEnumerated) := rfl
  enumerated done

/-- The buses that a device leads to, in the order they are enumerated. -/
def nextOf (env : PciEnv κ) (bus dev : Byte) : List (Option Byte) :=
  if env.pciReadVendorId bus dev 0 ≠ 0xFFFF ∧ env.pciDeviceIsMultifunction bus dev = true then
    (moreFuncs.filter fun func => env.pciReadVendorId bus dev func ≠ 0xFFFF &&
      env.pciDeviceIsHostBridge bus dev func).map some
  else []

def nextBuses (env : PciEnv κ) (bus : Byte) : List (Option Byte) :=
  allDevs.flatMap (env.nextOf bus)

theorem leadsTo_nextBuses {other : Byte} : LeadsTo env.nextBuses bus other ↔ env.Bridges bus other := by
  simp only [LeadsTo, nextBuses, List.mem_flatMap]
  constructor
  · rintro ⟨dev, device, inside⟩
    unfold nextOf at inside
    split at inside
    next multi =>
      simp only [List.mem_map, List.mem_filter, Bool.and_eq_true, decide_eq_true_eq] at inside
      rcases inside with ⟨func, ⟨member, responds, bridge⟩, same⟩
      cases same
      exact ⟨dev, ⟨device, multi.1, .inr ⟨member, multi.2, responds⟩⟩, member, bridge⟩
    next => cases inside
  · rintro ⟨dev, present, member, bridge⟩
    have zero : other ≠ 0 := by
      rintro rfl
      revert member
      decide
    rcases present.more.resolve_left zero with ⟨-, multi, responds⟩
    refine ⟨dev, present.dev, ?_⟩
    rw [nextOf, if_pos ⟨present.first, multi⟩]
    exact List.mem_map_of_mem (List.mem_filter.mpr ⟨member, by simp_all⟩)

theorem funcs_outcome {visitor : Byte → Exec Unit}
    (each : ∀ bus s, outcome (enumerate bus s) = visitor bus) (funcs : List Byte)
    (s : PciState κ) : outcome (env.pciEnumerateFuncs enumerate bus dev funcs s) =
      visitAll visitor ((funcs.filter fun func => env.pciReadVendorId bus dev func ≠ 0xFFFF &&
        env.pciDeviceIsHostBridge bus dev func).map some) := by
  induction funcs generalizing s with
  | nil => rfl
  | cons func funcs ih =>
    by_cases here : env.pciReadVendorId bus dev func = 0xFFFF
    · rw [pciEnumerateFuncs, if_pos here, List.filter_cons_of_neg (by simp [here])]
      exact ih s
    · rw [pciEnumerateFuncs, if_neg here]
      by_cases bridge : env.pciDeviceIsHostBridge bus dev func = true
      · simp only [if_pos bridge]
        rw [List.filter_cons_of_pos (by simpa [bridge] using here)]
        exact (outcome_bind ih).trans (by rw [each]; rfl)
      · simp only [if_neg bridge]
        rw [List.filter_cons_of_neg (by simp [bridge])]
        exact ih _

theorem register_ok (enough : ∀ n, (env.alloc n).isSome) (bus dev func : Byte)
    (s : PciState κ) : (env.pciRegisterDevice bus dev func s).1 = 0 := by
  by_contra failed
  rcases register_st env bus dev func s failed with ⟨n, out⟩
  have some_ := enough n
  rw [out] at some_
  cases some_

theorem devs_outcome (enough : ∀ n, (env.alloc n).isSome) {visitor : Byte → Exec Unit}
    (each : ∀ bus s, outcome (enumerate bus s) = visitor bus) (devs : List Byte)
    (s : PciState κ) : outcome (env.pciEnumerateDevs enumerate bus devs s) =
      visitAll visitor (devs.flatMap (env.nextOf bus)) := by
  induction devs generalizing s with
  | nil => rfl
  | cons dev devs ih =>
    rw [List.flatMap_cons, visitAll_append_bind]
    by_cases here : env.pciReadVendorId bus dev 0 = 0xFFFF
    · rw [pciEnumerateDevs, if_pos here, nextOf, if_neg (fun both => both.1 here)]
      exact ih s
    · rw [pciEnumerateDevs, if_neg here]
      simp only [if_neg (not_not.mpr (register_ok enough bus dev 0 s))]
      by_cases single : env.pciDeviceIsMultifunction bus dev = false
      · rw [if_pos single, nextOf, if_neg (by simp [single])]
        exact ih _
      · rw [if_neg single, nextOf, if_pos ⟨here, by simpa using single⟩, ← funcs_outcome each]
        exact outcome_bind ih

theorem bus_outcome (enough : ∀ n, (env.alloc n).isSome) (fuel : Nat) (bus : Byte)
    (s : PciState κ) : outcome (env.pciEnumerateBus fuel bus s) = visit env.nextBuses fuel bus := by
  induction fuel generalizing bus s with
  | zero => rfl
  | succ fuel ih => exact devs_outcome enough ih allDevs s

/-- With enough memory, the enumeration of a bus ends exactly if no bridge leads back to a bus that
    it is reached from. -/
theorem enumeration_ends_iff (enough : ∀ n, (env.alloc n).isSome) (bus : Byte) (s : PciState κ) :
    (∃ fuel t, env.pciEnumerateBus fuel bus s = .ok t) ↔ NoReturn env.Bridges bus := by
  have same : LeadsTo env.nextBuses = env.Bridges := by
    funext b other
    exact propext leadsTo_nextBuses
  have present : ∀ b, none ∉ env.nextBuses b := by
    intro b
    simp only [nextBuses, List.mem_flatMap, not_exists, not_and]
    intro dev _ inside
    unfold nextOf at inside
    split at inside
    · simp at inside
    · cases inside
  rw [← same]
  constructor
  · rintro ⟨fuel, t, done⟩
    have visited := outcome_ok.mpr ⟨t, done⟩
    rw [bus_outcome enough] at visited
    exact (sound_of_visit visited).noReturn
  · intro noReturn
    have finite : Finite Byte := Finite.of_injective BitVec.toFin fun _ _ => BitVec.eq_of_toFin_eq
    rcases Sound.visit (Set.toFinite _) ⟨fun q _ => present q, noReturn⟩ with ⟨fuel, visited⟩
    rw [← bus_outcome enough fuel bus s] at visited
    exact ⟨fuel, outcome_ok.mp visited⟩

theorem enumeration_ends_iff_one :
    (∃ fuel t, oneDevice.pciEnumerateBus fuel 0 ⟨[], 0⟩ = .ok t) ↔
      NoReturn oneDevice.Bridges 0 :=
  enumeration_ends_iff (fun _ => rfl) 0 ⟨[], 0⟩

/-- A call ends, and takes no allocation back. -/
def Ends (x : Exec (PciState κ)) (s : PciState κ) : Prop := ∃ t, x = .ok t ∧ s.allocs ≤ t.allocs

theorem register_allocs (env : PciEnv κ) (bus dev func : Byte) (s : PciState κ) :
    (env.pciRegisterDevice bus dev func s).2.allocs = s.allocs + 1 := by
  unfold pciRegisterDevice
  cases env.alloc s.allocs <;> rfl

theorem funcs_end {floor : Nat}
    (each : ∀ bus s, floor ≤ s.allocs → Ends (enumerate bus s) s) (funcs : List Byte)
    (s : PciState κ) (above : floor ≤ s.allocs) :
    Ends (env.pciEnumerateFuncs enumerate bus dev funcs s) s := by
  induction funcs generalizing s with
  | nil => exact ⟨s, rfl, Nat.le_refl _⟩
  | cons func funcs ih =>
    by_cases here : env.pciReadVendorId bus dev func = 0xFFFF
    · rw [pciEnumerateFuncs, if_pos here]
      exact ih s above
    · rw [pciEnumerateFuncs, if_neg here]
      have more := register_allocs env bus dev func s
      by_cases bridge : env.pciDeviceIsHostBridge bus dev func = true
      · simp only [if_pos bridge]
        rcases each func (env.pciRegisterDevice bus dev func s).2 (by omega) with ⟨t, done, le⟩
        rcases ih t (by omega) with ⟨u, rest, le'⟩
        exact ⟨u, by rw [done]; exact rest, by omega⟩
      · simp only [if_neg bridge]
        rcases ih (env.pciRegisterDevice bus dev func s).2 (by omega) with ⟨u, rest, le'⟩
        exact ⟨u, rest, by omega⟩

theorem devs_end {floor limit : Nat} (out : ∀ n, limit ≤ n → env.alloc n = none)
    (each : floor < limit → ∀ bus s, floor + 1 ≤ s.allocs → Ends (enumerate bus s) s)
    (devs : List Byte) (s : PciState κ) (above : floor ≤ s.allocs) :
    Ends (env.pciEnumerateDevs enumerate bus devs s) s := by
  induction devs generalizing s with
  | nil => exact ⟨s, rfl, Nat.le_refl _⟩
  | cons dev devs ih =>
    by_cases here : env.pciReadVendorId bus dev 0 = 0xFFFF
    · rw [pciEnumerateDevs, if_pos here]
      exact ih s above
    · rw [pciEnumerateDevs, if_neg here]
      have more := register_allocs env bus dev 0 s
      by_cases failed : (env.pciRegisterDevice bus dev 0 s).1 ≠ 0
      · simp only [if_pos failed]
        exact ⟨_, rfl, by omega⟩
      · simp only [if_neg failed]
        rcases ih (env.pciRegisterDevice bus dev 0 s).2 (by omega) with ⟨t, plain, le⟩
        by_cases single : env.pciDeviceIsMultifunction bus dev = false
        · rw [if_pos single]
          exact ⟨t, plain, by omega⟩
        · rw [if_neg single]
          -- the allocation for the first function succeeded, so there was memory left
          have early : floor < limit := by
            by_contra late
            apply failed
            rw [pciRegisterDevice, out s.allocs (by omega)]
            exact (by decide : (-12 : Int) ≠ 0)
          rcases funcs_end (each early) moreFuncs (env.pciRegisterDevice bus dev 0 s).2
            (by omega) with ⟨u, funcs, le'⟩
          rcases ih u (by omega) with ⟨v, rest, le''⟩
          exact ⟨v, by rw [funcs]; exact rest, by omega⟩

theorem bus_ends {limit : Nat} (out : ∀ n, limit ≤ n → env.alloc n = none) (fuel : Nat)
    (bus : Byte) (s : PciState κ) (enough : limit < fuel + s.allocs) (some_ : 0 < fuel) :
    Ends (env.pciEnumerateBus fuel bus s) s := by
  induction fuel generalizing bus s with
  | zero => omega
  | succ fuel ih =>
    refine devs_end out (fun early b t more => ih b t ?_ ?_) allDevs s (Nat.le_refl _) <;> omega

/-- Every bus inside another one takes memory, so that the enumeration ends also where the bridges
    lead round in a circle, with calls inside one another as deep as the memory lasts. -/
theorem enumeration_ends_in_memory {limit : Nat} (out : ∀ n, limit ≤ n → env.alloc n = none)
    (bus : Byte) (s : PciState κ) :
    ∃ t, env.pciEnumerateBus (limit - s.allocs + 1) bus s = .ok t := by
  rcases bus_ends out (limit - s.allocs + 1) bus s (by omega) (by omega) with ⟨t, done, -⟩
  exact ⟨t, done⟩

/-- Every function of every bus is a host bridge, and there is memory for one device. -/
def bridgesOnly : PciEnv Unit where
  config addr := if addr.setWidth 8 = (8 : Byte) then 0x06000000 else 0x00800000
  alloc n := if n = 0 then some none else none

theorem enumeration_ends_in_memory_bridges :
    ∃ t, bridgesOnly.pciEnumerateBus 2 0 ⟨[], 0⟩ = .ok t :=
  have out : ∀ n, 1 ≤ n → bridgesOnly.alloc n = none := fun n le => if_neg (by omega)
  enumeration_ends_in_memory out 0 ⟨[], 0⟩

end PciEnv

end Dxgmx
