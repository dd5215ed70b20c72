import Mathlib.Data.BitVec
import Mathlib.Logic.Function.Basic
import Dxgmx.Library.Exec

open Library

namespace Dxgmx

inductive AtaType
  | unknown
  | chs
  | lba28
  | lba48
  deriving DecidableEq, Repr

structure AtaStorageDevice where
  portio : BitVec 16
  master : Bool
  type : AtaType

/-- One past the last sector that a command of the type can name. -/
def AtaType.reach : AtaType → Nat
  | .lba28 => 2 ^ 28
  | .lba48 => 2 ^ 48
  | _ => 0

/-- A block device whose `extra` is an ATA device. -/
structure AtaBlockDevice where
  sectorCount : BitVec 64
  extra : AtaStorageDevice
  addressable : sectorCount.toNat ≤ extra.type.reach

/-- The ports and the timer of the machine. -/
structure Machine (σ : Type) where
  outb : BitVec 8 → BitVec 16 → σ → σ
  outw : BitVec 16 → BitVec 16 → σ → σ
  inb : BitVec 16 → σ → BitVec 8 × σ
  inw : BitVec 16 → σ → BitVec 16 × σ
  timerStart : σ → σ
  /-- The time since `timerStart`, in nanoseconds. -/
  timerElapsed : σ → Nat × σ

def ataRegData (x : BitVec 16) : BitVec 16 := x
def ataRegErr (x : BitVec 16) : BitVec 16 := x + 1
def ataRegSector (x : BitVec 16) : BitVec 16 := x + 2
def ataRegLbaLo (x : BitVec 16) : BitVec 16 := x + 3
def ataRegLbaMid (x : BitVec 16) : BitVec 16 := x + 4
def ataRegLbaHi (x : BitVec 16) : BitVec 16 := x + 5
def ataRegDriveSel (x : BitVec 16) : BitVec 16 := x + 6
def ataRegStatus (x : BitVec 16) : BitVec 16 := x + 7
def ataRegCommand (x : BitVec 16) : BitVec 16 := x + 7

def ataStatusErr : BitVec 8 := 0x01
def ataStatusDrq : BitVec 8 := 0x08
def ataStatusDf : BitVec 8 := 0x20
def ataStatusBsy : BitVec 8 := 0x80

def atapioInternalSectors (sectors : BitVec 64) : BitVec 16 :=
  if 256 ≤ sectors then 0 else sectors.setWidth 16

/-- `lba <= sector_count` rules out an underflow of the subtraction. -/
def atapioIsValidRange (lba sectors : BitVec 64) (dev : AtaBlockDevice) : Bool :=
  if dev.sectorCount < lba ∨ sectors = 0 then false else sectors ≤ dev.sectorCount - lba

section

variable {σ : Type} (io : Machine σ)

/-- The body that `atapio_send_read_cmd` and `atapio_send_write_cmd` share. Any nonzero value, the
    `-EINVAL` of an unknown type included, becomes `true`. -/
def atapioSendCmd (cmd28 cmd48 : BitVec 8) (lba : BitVec 64) (sectors : BitVec 16)
    (dev : AtaBlockDevice) (s : σ) : Exec (Bool × σ) :=
  let atadev := dev.extra
  let slave : BitVec 8 := if atadev.master then 0 else 1
  match atadev.type with
  | .lba48 =>
    let s := io.outb (0x40 ||| (slave <<< 4)) (ataRegDriveSel atadev.portio) s
    let s := io.outb ((sectors >>> 8).setWidth 8) (ataRegSector atadev.portio) s
    let s := io.outb ((lba >>> 24).setWidth 8) (ataRegLbaLo atadev.portio) s
    let s := io.outb ((lba >>> 32).setWidth 8) (ataRegLbaMid atadev.portio) s
    let s := io.outb ((lba >>> 40).setWidth 8) (ataRegLbaHi atadev.portio) s
    let s := io.outb (sectors.setWidth 8) (ataRegSector atadev.portio) s
    let s := io.outb (lba.setWidth 8) (ataRegLbaLo atadev.portio) s
    let s := io.outb ((lba >>> 8).setWidth 8) (ataRegLbaMid atadev.portio) s
    let s := io.outb ((lba >>> 16).setWidth 8) (ataRegLbaHi atadev.portio) s
    let s := io.outb cmd48 (ataRegCommand atadev.portio) s
    .ok (sectors ≠ 0, s)
  | .lba28 =>
    let top : BitVec 8 := ((lba >>> 24) &&& 0x0F).setWidth 8
    let s := io.outb (0xE0 ||| (slave <<< 4) ||| top) (ataRegDriveSel atadev.portio) s
    let s := io.outb (sectors.setWidth 8) (ataRegSector atadev.portio) s
    let s := io.outb (lba.setWidth 8) (ataRegLbaLo atadev.portio) s
    let s := io.outb ((lba >>> 8).setWidth 8) (ataRegLbaMid atadev.portio) s
    let s := io.outb ((lba >>> 16).setWidth 8) (ataRegLbaHi atadev.portio) s
    let s := io.outb cmd28 (ataRegCommand atadev.portio) s
    .ok (sectors ≠ 0, s)
  | .chs => .error .panic
  | .unknown => .ok (true, s)

def atapioSendReadCmd (lba : BitVec 64) (sectors : BitVec 16) (dev : AtaBlockDevice) (s : σ) :
    Exec (Bool × σ) :=
  atapioSendCmd io 0x20 0x24 lba sectors dev s

def atapioSendWriteCmd (lba : BitVec 64) (sectors : BitVec 16) (dev : AtaBlockDevice) (s : σ) :
    Exec (Bool × σ) :=
  atapioSendCmd io 0x30 0x34 lba sectors dev s

def atapioFlushLoop (timeoutMs : Nat) (dev : AtaBlockDevice) : (fuel : Nat) → σ → Exec (Bool × σ)
  | 0, _ => .error .fuel
  | fuel + 1, s =>
    let (status, s) := io.inb (ataRegStatus dev.extra.portio) s
    if status &&& ataStatusBsy ≠ 0 then
      let (elapsed, s) := io.timerElapsed s
      if timeoutMs * 1000000 < elapsed then .ok (false, s) else atapioFlushLoop timeoutMs dev fuel s
    else .ok (true, s)

def atapioFlushSectors (fuel timeoutMs : Nat) (dev : AtaBlockDevice) (s : σ) : Exec (Bool × σ) :=
  let s := io.outb 0xE7 (ataRegCommand dev.extra.portio) s
  atapioFlushLoop io timeoutMs dev fuel (io.timerStart s)

def atapioReadyLoop (timeoutMs : Nat) (dev : AtaBlockDevice) : (fuel : Nat) → σ → Exec (Bool × σ)
  | 0, _ => .error .fuel
  | fuel + 1, s =>
    let (elapsed, s) := io.timerElapsed s
    if timeoutMs * 1000000 < elapsed then .ok (false, s)
    else
      let (status, s) := io.inb (ataRegStatus dev.extra.portio) s
      if status &&& ataStatusBsy = 0 ∧ status &&& ataStatusDrq ≠ 0 then .ok (true, s)
      else if status &&& ataStatusErr ≠ 0 ∨ status &&& ataStatusDf ≠ 0 then
        .ok (false, (io.inb (ataRegErr dev.extra.portio) s).2)
      else atapioReadyLoop timeoutMs dev fuel s

def atapioWaitForReady (fuel timeoutMs : Nat) (dev : AtaBlockDevice) (s : σ) : Exec (Bool × σ) :=
  atapioReadyLoop io timeoutMs dev fuel (io.timerStart s)

/-- The word loop of `atapio_read`, over the words `256 - left` to 255. -/
def atapioReadWords (dev : AtaBlockDevice) :
    (left : Nat) → σ × (Nat → BitVec 8) → σ × (Nat → BitVec 8)
  | 0, state => state
  | left + 1, (s, dest) =>
    let i := 256 - (left + 1)
    let (w, s) := io.inw (ataRegData dev.extra.portio) s
    let dest := Function.update dest (i * 2) (w.setWidth 8)
    let dest := Function.update dest (i * 2 + 1) ((w >>> 8).setWidth 8)
    atapioReadWords dev left (s, dest)

/-- The sector loop of `atapio_read`. The sleep between sectors changes nothing here. `st` holds a
    `bool`, so the check for an error is never taken. -/
def atapioReadSectors (fuel : Nat) (dev : AtaBlockDevice) :
    (left : Nat) → σ × (Nat → BitVec 8) → Exec (Option Int × σ × (Nat → BitVec 8))
  | 0, state => .ok (none, state)
  | left + 1, (s, dest) => do
    let (ready, s) ← atapioWaitForReady io fuel 200 dev s
    let st : Int := ready.toNat
    if st < 0 then pure (some st, s, dest)
    else atapioReadSectors fuel dev left (atapioReadWords io dev 256 (s, dest))

/-- The command loop of `atapio_read`. -/
def atapioReadLoop (dev : AtaBlockDevice) : (fuel : Nat) → (lba sectors : BitVec 64) →
    σ × (Nat → BitVec 8) → Exec (Int × σ × (Nat → BitVec 8))
  | 0, _, _, _ => .error .fuel
  | fuel + 1, lba, sectors, (s, dest) =>
    if sectors = 0 then .ok (sectors.toInt, s, dest)
    else do
      let working : BitVec 16 := if 256 < sectors then 256 else sectors.setWidth 16
      let (sent, s) ← atapioSendReadCmd io lba (atapioInternalSectors (working.setWidth 64)) dev s
      let st : Int := sent.toNat
      if st < 0 then pure (st, s, dest)
      else
        let (ret, s, dest) ← atapioReadSectors io fuel dev working.toNat (s, dest)
        match ret with
        | some st => pure (st, s, dest)
        | none =>
          let lba := lba + working.setWidth 64
          atapioReadLoop dev fuel lba (sectors - working.setWidth 64) (s, dest)

def atapioRead (fuel : Nat) (dev : AtaBlockDevice) (lba sectors : BitVec 64)
    (dest : Nat → BitVec 8) (s : σ) : Exec (Int × σ × (Nat → BitVec 8)) :=
  if atapioIsValidRange lba sectors dev then atapioReadLoop io dev fuel lba sectors (s, dest)
  else .ok (-22, s, dest)

/-- The word loop of `atapio_write`, over the words `256 - left` to 255. -/
def atapioWriteWords (dev : AtaBlockDevice) (src : Nat → BitVec 8) : (left : Nat) → σ → σ
  | 0, s => s
  | left + 1, s =>
    let i := 256 - (left + 1)
    let w : BitVec 16 := ((src (i * 2 + 1)).setWidth 16 <<< 8) ||| (src (i * 2)).setWidth 16
    atapioWriteWords dev src left (io.outw w (ataRegData dev.extra.portio) s)

def atapioWriteSectors (fuel : Nat) (dev : AtaBlockDevice) (src : Nat → BitVec 8) :
    (left : Nat) → σ → Exec (Option Int × σ)
  | 0, s => .ok (none, s)
  | left + 1, s => do
    let (ready, s) ← atapioWaitForReady io fuel 200 dev s
    let st : Int := ready.toNat
    if st < 0 then pure (some st, s)
    else atapioWriteSectors fuel dev src left (atapioWriteWords io dev src 256 s)

def atapioWriteLoop (dev : AtaBlockDevice) (src : Nat → BitVec 8) :
    (fuel : Nat) → (lba sectors : BitVec 64) → σ → Exec (Int × σ)
  | 0, _, _, _ => .error .fuel
  | fuel + 1, lba, sectors, s =>
    if sectors = 0 then .ok (sectors.toInt, s)
    else do
      let working : BitVec 64 := if 256 < sectors then 256 else sectors
      let (sent, s) ← atapioSendWriteCmd io lba (atapioInternalSectors working) dev s
      let st : Int := sent.toNat
      if st < 0 then pure (st, s)
      else
        let (ret, s) ← atapioWriteSectors io fuel dev src working.toNat s
        match ret with
        | some st => pure (st, s)
        | none =>
          let (flushed, s) ← atapioFlushSectors io fuel 200 dev s
          let st : Int := flushed.toNat
          if st < 0 then pure (st, s)
          else atapioWriteLoop dev src fuel (lba + working) (sectors - working) s

def atapioWrite (fuel : Nat) (dev : AtaBlockDevice) (lba sectors : BitVec 64)
    (src : Nat → BitVec 8) (s : σ) : Exec (Int × σ) :=
  if atapioIsValidRange lba sectors dev then atapioWriteLoop io dev src fuel lba sectors s
  else .ok (-22, s)

end

/-- An ideal drive: an array of sectors and the transfer of the last accepted command. -/
structure AtaDrive where
  disk : Nat → Nat → BitVec 8
  /-- The task file. A register keeps the last two bytes written to it, the newer one low. -/
  count : BitVec 16
  lbaLo : BitVec 16
  lbaMid : BitVec 16
  lbaHi : BitVec 16
  driveSel : BitVec 8
  position : Nat
  word : Nat
  left : Nat

def pushByte (reg : BitVec 16) (value : BitVec 8) : BitVec 16 :=
  BitVec.ofNat 16 (reg.toNat * 256 + value.toNat)

def AtaDrive.lba28 (d : AtaDrive) : Nat :=
  d.driveSel.toNat % 16 * 2 ^ 24 + d.lbaHi.toNat % 256 * 2 ^ 16 + d.lbaMid.toNat % 256 * 2 ^ 8 +
    d.lbaLo.toNat % 256

def AtaDrive.count28 (d : AtaDrive) : Nat :=
  if d.count.toNat % 256 = 0 then 256 else d.count.toNat % 256

def AtaDrive.lba48 (d : AtaDrive) : Nat :=
  d.lbaHi.toNat / 256 * 2 ^ 40 + d.lbaMid.toNat / 256 * 2 ^ 32 + d.lbaLo.toNat / 256 * 2 ^ 24 +
    d.lbaHi.toNat % 256 * 2 ^ 16 + d.lbaMid.toNat % 256 * 2 ^ 8 + d.lbaLo.toNat % 256

def AtaDrive.count48 (d : AtaDrive) : Nat := if d.count.toNat = 0 then 65536 else d.count.toNat

def AtaDrive.begin (d : AtaDrive) (position left : Nat) : AtaDrive :=
  { d with position, word := 0, left }

/-- Every command ends the transfer before it. -/
def AtaDrive.command (d : AtaDrive) (cmd : BitVec 8) : AtaDrive :=
  if cmd = 0x20 ∨ cmd = 0x30 then d.begin d.lba28 d.count28
  else if cmd = 0x24 ∨ cmd = 0x34 then d.begin d.lba48 d.count48
  else { d with left := 0 }

def AtaDrive.outb (base : BitVec 16) (value : BitVec 8) (port : BitVec 16) (d : AtaDrive) :
    AtaDrive :=
  match (port - base).toNat with
  | 2 => { d with count := pushByte d.count value }
  | 3 => { d with lbaLo := pushByte d.lbaLo value }
  | 4 => { d with lbaMid := pushByte d.lbaMid value }
  | 5 => { d with lbaHi := pushByte d.lbaHi value }
  | 6 => { d with driveSel := value }
  | 7 => d.command value
  | _ => d

attribute [grind =] AtaDrive.outb

/-- Ready, and asking for a data transfer as long as there are sectors left. -/
def AtaDrive.status (d : AtaDrive) : BitVec 8 := if 0 < d.left then 0x48 else 0x40

def AtaDrive.inb (base : BitVec 16) (port : BitVec 16) (d : AtaDrive) : BitVec 8 × AtaDrive :=
  (if port - base = 7 then d.status else 0, d)

/-- The transfer after one more word. -/
def AtaDrive.advance (d : AtaDrive) : AtaDrive :=
  if d.word + 1 = 256 then { d with position := d.position + 1, word := 0, left := d.left - 1 }
  else { d with word := d.word + 1 }

def AtaDrive.inw (base : BitVec 16) (port : BitVec 16) (d : AtaDrive) : BitVec 16 × AtaDrive :=
  if port - base = 0 ∧ 0 < d.left then
    (BitVec.ofNat 16 ((d.disk d.position (d.word * 2 + 1)).toNat * 256 +
      (d.disk d.position (d.word * 2)).toNat), d.advance)
  else (0, d)

def AtaDrive.outw (base : BitVec 16) (value : BitVec 16) (port : BitVec 16) (d : AtaDrive) :
    AtaDrive :=
  if port - base = 0 ∧ 0 < d.left then
    let sector := Function.update (d.disk d.position) (d.word * 2) (value.setWidth 8)
    let sector := Function.update sector (d.word * 2 + 1) ((value >>> 8).setWidth 8)
    { d with disk := Function.update d.disk d.position sector }.advance
  else d

def AtaDrive.machine (base : BitVec 16) : Machine AtaDrive where
  outb := AtaDrive.outb base
  outw := AtaDrive.outw base
  inb := AtaDrive.inb base
  inw := AtaDrive.inw base
  timerStart := id
  timerElapsed := fun d => (0, d)

theorem pushByte_low (reg : BitVec 16) (value : BitVec 8) :
    (pushByte reg value).toNat % 256 = value.toNat := by
  have valueBound := value.isLt
  simp only [pushByte, BitVec.toNat_ofNat]
  omega

theorem pushByte_high (reg : BitVec 16) (value : BitVec 8) :
    (pushByte reg value).toNat / 256 = reg.toNat % 256 := by
  have valueBound := value.isLt
  simp only [pushByte, BitVec.toNat_ofNat]
  omega

theorem pushByte_twice (reg : BitVec 16) (high low : BitVec 8) :
    (pushByte (pushByte reg high) low).toNat = high.toNat * 256 + low.toNat := by
  have top := pushByte_high (pushByte reg high) low
  have bottom := pushByte_low (pushByte reg high) low
  have inner := pushByte_low reg high
  omega

theorem reg_offset (base k : BitVec 16) : base + k - base = k := by
  rw [BitVec.add_comm, BitVec.add_sub_cancel]

theorem driveSel_low (master : Bool) (top : BitVec 8) :
    (0xE0 ||| ((if master then 0 else 1 : BitVec 8) <<< 4) ||| top).toNat % 16 =
      top.toNat % 16 := by
  cases master <;> revert top <;> decide

theorem byte_toNat (x : BitVec 64) (k : Nat) :
    ((x >>> k).setWidth 8).toNat = x.toNat / 2 ^ k % 256 := by
  rw [BitVec.toNat_setWidth, BitVec.toNat_ushiftRight, Nat.shiftRight_eq_div_pow]

end Dxgmx
