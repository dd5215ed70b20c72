import Dxgmx.Kstdlib.String
import Dxgmx.Library.Blocks
import Dxgmx.Library.Runs

open Library

namespace Dxgmx

/-- `SERIAL_NONAME` is `none`, `SERIAL_NOMAJ` is 0. -/
structure SerialIODevice where
  name : Option (List Byte)
  maj : BitVec 32
  min : BitVec 32
  driver : Nat
  data : Nat
  deriving DecidableEq

/-- The callbacks are not kept: what they return is an argument of the calls. -/
structure SerialIODriver where
  name : Option (List Byte)
  maj : BitVec 32
  deriving DecidableEq

/-- The two lists, each as the addresses in it, and the allocations behind them. -/
structure Serialio where
  drivers : Blocks SerialIODriver
  devices : Blocks SerialIODevice
  serialDrvs : List Nat
  serialDevs : List Nat

/-- The address that `kcalloc` answers, and whether the list gets its node. -/
structure SerialMem where
  block : Nat
  node : Bool
  deriving DecidableEq

/-- The loops that return the first entry of a list of which `hit` holds. -/
def firstEntry {β : Type} (hit : β → Bool) (blocks : Blocks β) : List Nat → Exec (Option Nat)
  | [] => .ok none
  | addr :: rest => do
    let entry ← blocks.load addr
    if hit entry then pure (some addr) else firstEntry hit blocks rest

namespace Serialio

/-- A zeroed entry that is put to a list, or nothing. -/
def serialioNew {β : Type} (mem : SerialMem) (zeroed : β) (blocks : Blocks β) (list : List Nat) :
    Exec (Nat × Blocks β × List Nat) :=
  if mem.block = 0 then .ok (0, blocks, list)
  else do
    let added ← blocks.alloc mem.block zeroed
    if mem.node = false then
      let freed ← added.free mem.block
      pure (0, freed, list)
    else pure (mem.block, added, list ++ [mem.block])

def serialioNewDriver (mem : SerialMem) (s : Serialio) : Exec (Nat × Serialio) := do
  let (drv, drivers, serialDrvs) ← serialioNew mem ⟨none, 0⟩ s.drivers s.serialDrvs
  pure (drv, { s with
    drivers := drivers
    serialDrvs := serialDrvs })

def serialioAllocNewDev (mem : SerialMem) (s : Serialio) : Exec (Nat × Serialio) := do
  let (dev, devices, serialDevs) ← serialioNew mem ⟨none, 0, 0, 0, 0⟩ s.devices s.serialDevs
  pure (dev, { s with
    devices := devices
    serialDevs := serialDevs })

def serialioCheckMatch (dev : SerialIODevice) (drv : SerialIODriver) : Exec Bool :=
  if dev.maj = 0 ∧ drv.maj = 0 then
    match dev.name, drv.name with
    | some devName, some drvName => .ok (devName = drvName)
    | _, _ => .error .panic
  else if dev.maj ≠ 0 ∧ drv.maj ≠ 0 then .ok (dev.maj = drv.maj)
  else .ok false

/-- `try_link` of a driver on a device that it matches, and what comes of it. -/
def serialioLink (tryLink : Int) (dev drv : Nat) (device : SerialIODevice) (s : Serialio) :
    Exec (Int × Serialio) :=
  if tryLink ≠ 0 then .ok (tryLink, s)
  else do
    let devices ← s.devices.store dev { device with driver := drv }
    pure (0, { s with devices := devices })

def serialioTryDevLoop (tryLink : Int) (dev : Nat) (device : SerialIODevice) (s : Serialio) :
    List Nat → Exec (Int × Serialio)
  | [] => .ok (0, s)
  | drv :: rest => do
    let driver ← s.drivers.load drv
    let hit ← serialioCheckMatch device driver
    if hit then serialioLink tryLink dev drv device s
    else serialioTryDevLoop tryLink dev device s rest

def serialioTryDev (tryLink : Int) (dev : Nat) (s : Serialio) : Exec (Int × Serialio) := do
  let device ← s.devices.load dev
  assert (device.driver = 0)
  serialioTryDevLoop tryLink dev device s s.serialDrvs

/-- Only the first device that the driver matches is tried. -/
def serialioTryDrvLoop (tryLink : Int) (drv : Nat) (driver : SerialIODriver) (s : Serialio) :
    List Nat → Exec (Int × Serialio)
  | [] => .ok (0, s)
  | dev :: rest => do
    let device ← s.devices.load dev
    if device.driver ≠ 0 then serialioTryDrvLoop tryLink drv driver s rest
    else
      let hit ← serialioCheckMatch device driver
      if hit then serialioLink tryLink dev drv device s
      else serialioTryDrvLoop tryLink drv driver s rest

def serialioTryDrv (tryLink : Int) (drv : Nat) (s : Serialio) : Exec (Int × Serialio) := do
  let driver ← s.drivers.load drv
  serialioTryDrvLoop tryLink drv driver s s.serialDevs

def serialioFindDrvByMajor (maj : BitVec 32) (s : Serialio) : Exec (Option Nat) :=
  firstEntry (fun drv => drv.maj = maj) s.drivers s.serialDrvs

def serialioFindDrvByName (name : List Byte) (s : Serialio) : Exec (Option Nat) :=
  firstEntry (fun drv => drv.name = some name) s.drivers s.serialDrvs

def serialioIsDevNameDup (name : List Byte) (min : BitVec 32) (s : Serialio) : Exec Bool :=
  (firstEntry (fun dev => dev.name = some name ∧ dev.min = min) s.devices s.serialDevs).map
    Option.isSome

def serialioIsDevMajDup (maj min : BitVec 32) (s : Serialio) : Exec Bool :=
  (firstEntry (fun dev => dev.maj = maj ∧ dev.min = min) s.devices s.serialDevs).map
    Option.isSome

/-- The driver is called through `dev->driver`. -/
def serialioUnlinkDev (unlink : Nat → Int) (dev : Nat) (s : Serialio) : Exec (Int × Serialio) := do
  let device ← s.devices.load dev
  assert (device.driver ≠ 0)
  let _ ← s.drivers.load device.driver
  if unlink dev ≠ 0 then pure (unlink dev, s)
  else
    let devices ← s.devices.store dev { device with driver := 0 }
    pure (0, { s with devices := devices })

/-- `serialio_new_drv_from` once nothing with the driver's major and name is registered. The driver
    stays when a device is not linked. -/
def serialioAddDrv (mem : SerialMem) (tryLink : Int) (drv : SerialIODriver) (s : Serialio) :
    Exec (Except Int Nat × Serialio) := do
  let (newDrv, s) ← serialioNewDriver mem s
  if newDrv = 0 then pure (.error (-12), s)
  else
    let drivers ← s.drivers.store newDrv drv
    let (st, s) ← serialioTryDrv tryLink newDrv { s with drivers := drivers }
    pure (if st ≠ 0 then .error st else .ok newDrv, s)

def serialioSameMaj (maj : BitVec 32) (s : Serialio) : Exec (Option Nat) :=
  if maj = 0 then .ok none else s.serialioFindDrvByMajor maj

def serialioSameName (name : Option (List Byte)) (s : Serialio) : Exec (Option Nat) :=
  match name with
  | none => .ok none
  | some name => s.serialioFindDrvByName name

def serialioNewDrvFrom (mem : SerialMem) (tryLink : Int) (drv : SerialIODriver) (s : Serialio) :
    Exec (Except Int Nat × Serialio) :=
  if drv.maj = 0 ∧ drv.name = none then .ok (.error (-22), s)
  else do
    let sameMaj ← s.serialioSameMaj drv.maj
    let sameName ← s.serialioSameName drv.name
    if sameMaj ≠ none ∨ sameName ≠ none then pure (.error (-17), s)
    else serialioAddDrv mem tryLink drv s

/-- The loop over the devices of a driver that goes: 0 once it has come to its end. -/
def serialioDeleteDrvLoop (unlink : Nat → Int) (drv : Nat) :
    List Nat → Serialio → Exec (Int × Serialio)
  | [], s => .ok (0, s)
  | dev :: rest, s => do
    let device ← s.devices.load dev
    if device.driver ≠ drv then serialioDeleteDrvLoop unlink drv rest s
    else
      let (st, s) ← serialioUnlinkDev unlink dev s
      if st < 0 then pure (-16, s) else serialioDeleteDrvLoop unlink drv rest s

/-- A driver that is not in the list is still looked at for the log. -/
def serialioRemoveDrv (drv : Nat) (s : Serialio) : Exec (List Nat) :=
  if drv ∈ s.serialDrvs then .ok (s.serialDrvs.erase drv)
  else do
    let _ ← s.drivers.load drv
    pure s.serialDrvs

def serialioDeleteDrv (unlink : Nat → Int) (drv : Nat) (s : Serialio) : Exec (Int × Serialio) := do
  let (st, s) ← serialioDeleteDrvLoop unlink drv s.serialDevs s
  if st < 0 then pure (st, s)
  else
    let serialDrvs ← s.serialioRemoveDrv drv
    let drivers ← s.drivers.free drv
    pure (0, { s with
      drivers := drivers
      serialDrvs := serialDrvs })

/-- `serialio_new_dev` once no device has these ids. The device stays when it is not linked. -/
def serialioAddDev (mem : SerialMem) (tryLink : Int) (name : Option (List Byte))
    (maj min : BitVec 32) (data : Nat) (s : Serialio) : Exec (Except Int Nat × Serialio) := do
  let (dev, s) ← serialioAllocNewDev mem s
  if dev = 0 then pure (.error (-12), s)
  else
    let devices ← s.devices.store dev ⟨name, maj, min, 0, data⟩
    let (st, s) ← serialioTryDev tryLink dev { s with devices := devices }
    pure (if st ≠ 0 then .error st else .ok dev, s)

def serialioNameDup (name : Option (List Byte)) (min : BitVec 32) (s : Serialio) : Exec Bool :=
  match name with
  | none => .ok false
  | some name => s.serialioIsDevNameDup name min

def serialioMajDup (maj min : BitVec 32) (s : Serialio) : Exec Bool :=
  if maj = 0 then .ok false else s.serialioIsDevMajDup maj min

def serialioNewDev (mem : SerialMem) (tryLink : Int) (name : Option (List Byte))
    (maj min : BitVec 32) (data : Nat) (s : Serialio) : Exec (Except Int Nat × Serialio) :=
  if maj = 0 ∧ name = none then .ok (.error (-22), s)
  else do
    let nameDup ← s.serialioNameDup name min
    let majDup ← s.serialioMajDup maj min
    if nameDup ∨ majDup then pure (.error (-17), s)
    else serialioAddDev mem tryLink name maj min data s

/-- The end of `serialio_delete_dev_by_name`. -/
def serialioFreeDev (dev : Nat) (s : Serialio) : Exec (Int × Serialio) :=
  if dev ∉ s.serialDevs then .ok (-12, s)
  else do
    let devices ← s.devices.free dev
    pure (0, { s with
      devices := devices
      serialDevs := s.serialDevs.erase dev })

def serialioDeleteDevByName (unlink : Nat → Int) (name : List Byte) (s : Serialio) :
    Exec (Int × Serialio) := do
  let found ← firstEntry (fun dev => dev.name = some name) s.devices s.serialDevs
  match found with
  | none => pure (-2, s)
  | some dev => do
    let device ← s.devices.load dev
    if device.driver = 0 then serialioFreeDev dev s
    else
      let (st, s) ← serialioUnlinkDev unlink dev s
      if st ≠ 0 then pure (st, s) else serialioFreeDev dev s

end Serialio

/-- A call with what the allocator and the callbacks answer to it. `unlink` is asked at most once
    for each device. -/
inductive SerialCall
  | newDrvFrom (mem : SerialMem) (tryLink : Int) (drv : SerialIODriver)
  | deleteDrv (unlink : Nat → Int) (drv : Nat)
  | newDev (mem : SerialMem) (tryLink : Int) (name : Option (List Byte)) (maj min : BitVec 32)
    (data : Nat)
  | deleteDevByName (unlink : Nat → Int) (name : List Byte)

/-- The result of the call is dropped. -/
def SerialCall.perform (s : Serialio) : SerialCall → Exec Serialio
  | .newDrvFrom mem tryLink drv => (s.serialioNewDrvFrom mem tryLink drv).map Prod.snd
  | .deleteDrv unlink drv => (s.serialioDeleteDrv unlink drv).map Prod.snd
  | .newDev mem tryLink name maj min data =>
    (s.serialioNewDev mem tryLink name maj min data).map Prod.snd
  | .deleteDevByName unlink name => (s.serialioDeleteDevByName unlink name).map Prod.snd

/-- Nothing is registered at first. -/
def noSerials : Serialio := ⟨fun _ => none, fun _ => none, [], []⟩

end Dxgmx
