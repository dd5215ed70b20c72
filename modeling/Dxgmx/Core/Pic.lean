import Mathlib.Data.BitVec
import Dxgmx.Library.Runs

open Library

namespace Dxgmx

/-- The initialization words that a controller expects on its data port. -/
inductive Icw
  | icw2
  | icw3
  | icw4
  deriving DecidableEq, Repr

/-- An 8259 interrupt controller. -/
structure Pic8259 where
  imr : BitVec 8
  irr : BitVec 8
  isr : BitVec 8
  vectors : BitVec 8
  cascade : BitVec 8
  mode : BitVec 8
  readsIsr : Bool
  expects : List Icw
  deriving DecidableEq, Repr

/-- Without its lowest bit, which has the highest priority. -/
def endHighest (isr : BitVec 8) : BitVec 8 := isr &&& (isr - 1)

namespace Pic8259

/-- ICW1, OCW3 and the OCW2 that ends the interrupt of the highest priority. -/
def writeCommand (value : BitVec 8) (pic : Pic8259) : Pic8259 :=
  if value.getLsbD 4 then
    { pic with
      imr := 0
      readsIsr := false
      expects := .icw2 :: (if value.getLsbD 1 then [] else [.icw3]) ++
        (if value.getLsbD 0 then [.icw4] else []) }
  else if value.getLsbD 3 then
    if value.getLsbD 1 then { pic with readsIsr := value.getLsbD 0 } else pic
  else if value = 0x20 then { pic with isr := endHighest pic.isr }
  else pic

def writeData (value : BitVec 8) (pic : Pic8259) : Pic8259 :=
  match pic.expects with
  | [] => { pic with imr := value }
  | .icw2 :: expects => { pic with vectors := value &&& 0xF8, expects }
  | .icw3 :: expects => { pic with cascade := value, expects }
  | .icw4 :: expects => { pic with mode := value, expects }

def readCommand (pic : Pic8259) : BitVec 8 := if pic.readsIsr then pic.isr else pic.irr

end Pic8259

structure Pics where
  master : Pic8259
  slave : Pic8259
  deriving DecidableEq, Repr

def picMasterPortCommand : BitVec 16 := 0x20

def picMasterPortData : BitVec 16 := 0x21

def picSlavePortCommand : BitVec 16 := 0xA0

def picSlavePortData : BitVec 16 := 0xA1

def portOutb (value : BitVec 8) (port : BitVec 16) (s : Pics) : Pics :=
  if port = picMasterPortCommand then { s with master := s.master.writeCommand value }
  else if port = picMasterPortData then { s with master := s.master.writeData value }
  else if port = picSlavePortCommand then { s with slave := s.slave.writeCommand value }
  else if port = picSlavePortData then { s with slave := s.slave.writeData value }
  else s

def portInb (port : BitVec 16) (s : Pics) : BitVec 8 :=
  if port = picMasterPortCommand then s.master.readCommand
  else if port = picMasterPortData then s.master.imr
  else if port = picSlavePortCommand then s.slave.readCommand
  else if port = picSlavePortData then s.slave.imr
  else 0

def picIcw1Icw4Needed : BitVec 8 := 1

def picIcw1Init : BitVec 8 := 0x10

def picIcw48086 : BitVec 8 := 1

def pic8259Remap (masterOffset slaveOffset : BitVec 8) (s : Pics) : Pics :=
  let masterMask := portInb picMasterPortData s
  let slaveMask := portInb picSlavePortData s
  let s := portOutb (picIcw1Init ||| picIcw1Icw4Needed) picMasterPortCommand s
  let s := portOutb (picIcw1Init ||| picIcw1Icw4Needed) picSlavePortCommand s
  let s := portOutb masterOffset picMasterPortData s
  let s := portOutb slaveOffset picSlavePortData s
  let s := portOutb 0b100 picMasterPortData s
  let s := portOutb 0b10 picSlavePortData s
  let s := portOutb picIcw48086 picMasterPortData s
  let s := portOutb picIcw48086 picSlavePortData s
  let s := portOutb masterMask picMasterPortData s
  portOutb slaveMask picSlavePortData s

/-- The data port of a line, and its number at that controller. -/
def irqLinePort (irqline : BitVec 8) : BitVec 16 × BitVec 8 :=
  if 8 ≤ irqline then (picSlavePortData, irqline - 8) else (picMasterPortData, irqline)

def pic8259MaskIrqLine (irqline : BitVec 8) (s : Pics) : Pics :=
  let (port, line) := irqLinePort irqline
  portOutb (portInb port s ||| (1#8 <<< line.toNat)) port s

def pic8259UnmaskIrqLine (irqline : BitVec 8) (s : Pics) : Pics :=
  let (port, line) := irqLinePort irqline
  portOutb (portInb port s &&& ~~~(1#8 <<< line.toNat)) port s

def pic8259SetMask (mask pic : BitVec 8) (s : Pics) : Pics :=
  if pic = 0 then portOutb mask picMasterPortData s else portOutb mask picSlavePortData s

/-- `PIC_OWC3_READ_ISR`, then a read. -/
def pic8259GetIsr (pic : BitVec 8) (s : Pics) : BitVec 8 × Pics :=
  let port := if pic = 0 then picMasterPortCommand else picSlavePortCommand
  let s := portOutb 0xB port s
  (portInb port s, s)

/-- `PIC_OWC3_READ_IRR`, then a read. -/
def pic8259GetIrr (pic : BitVec 8) (s : Pics) : BitVec 8 × Pics :=
  let port := if pic = 0 then picMasterPortCommand else picSlavePortCommand
  let s := portOutb 0xA port s
  (portInb port s, s)

def pic8259SignalEoi (pic : BitVec 8) (s : Pics) : Pics :=
  if pic = 0 then portOutb 0x20 picMasterPortCommand s
  else portOutb 0x20 picSlavePortCommand (portOutb 0x20 picMasterPortCommand s)

def pic8259Disable (pic : BitVec 8) (s : Pics) : Pics := pic8259SetMask 0xFF pic s

def interruptsIrqDone (s : Pics) : Pics :=
  let (isr, s) := pic8259GetIsr 1 s
  pic8259SignalEoi 0 (if isr ≠ 0 then pic8259SignalEoi 1 s else s)

def idtIsIrqSpurious (s : Pics) : Bool × Pics :=
  let (isr1, s) := pic8259GetIsr 0 s
  let (isr2, s) := pic8259GetIsr 1 s
  (decide (isr1 = 0) && decide (isr2 = 0), s)

/-- The pin of a line at its controller. -/
def irqPin (line : Fin 16) : Fin 8 := ⟨line.val % 8, Nat.mod_lt _ (by decide)⟩

/-- What the kernel asks of the controllers, apart from the end of an interrupt. -/
inductive PicCall
  | remap (masterOffset slaveOffset : BitVec 8)
  | mask (line : Fin 16)
  | unmask (line : Fin 16)
  | setMask (value pic : BitVec 8)
  | disable (pic : BitVec 8)
  deriving DecidableEq, Repr

def PicCall.run (s : Pics) : PicCall → Pics
  | .remap masterOffset slaveOffset => pic8259Remap masterOffset slaveOffset s
  | .mask line => pic8259MaskIrqLine (BitVec.ofNat 8 line.val) s
  | .unmask line => pic8259UnmaskIrqLine (BitVec.ofNat 8 line.val) s
  | .setMask value pic => pic8259SetMask value pic s
  | .disable pic => pic8259Disable pic s

/-- Whether a call masks a line, if it decides that. -/
def PicCall.masks (line : Fin 16) : PicCall → Option Bool
  | .remap _ _ => none
  | .mask other => if other = line then some true else none
  | .unmask other => if other = line then some false else none
  | .setMask value pic =>
    if pic = 0 ↔ line.val < 8 then some (value.getLsbD (irqPin line).val) else none
  | .disable pic => if pic = 0 ↔ line.val < 8 then some true else none

/-- The vector that a call gives to a line. -/
def PicCall.vector (line : Fin 16) : PicCall → Option (BitVec 8)
  | .remap masterOffset slaveOffset =>
    some (((if line.val < 8 then masterOffset else slaveOffset) &&& 0xF8) |||
      BitVec.ofNat 8 (irqPin line).val)
  | _ => none

/-- The controller that a line is wired to. -/
def Pics.picOf (s : Pics) (line : Fin 16) : Pic8259 := if line.val < 8 then s.master else s.slave

/-- The vector of a line's interrupts. -/
def Pics.vector (s : Pics) (line : Fin 16) : BitVec 8 :=
  (s.picOf line).vectors ||| BitVec.ofNat 8 (irqPin line).val

theorem set_bit (mask : BitVec 8) (i j : Fin 8) :
    (mask ||| 1#8 <<< i.val).getLsbD j.val = (mask.getLsbD j.val || decide (i = j)) := by
  rw [BitVec.getLsbD_or, ← BitVec.twoPow_eq, BitVec.getLsbD_twoPow]
  simp [i.isLt, Fin.ext_iff]

end Dxgmx
