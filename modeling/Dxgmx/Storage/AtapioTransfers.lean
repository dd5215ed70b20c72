import Dxgmx.Storage.Atapio

open Library

namespace Dxgmx

section

variable (base : BitVec 16) (value : BitVec 8) (d : AtaDrive)

theorem outb_count : AtaDrive.outb base value (ataRegSector base) d =
    { d with count := pushByte d.count value } := by
  rw [AtaDrive.outb, ataRegSector, reg_offset]
  rfl

theorem outb_lbaLo : AtaDrive.outb base value (ataRegLbaLo base) d =
    { d with lbaLo := pushByte d.lbaLo value } := by
  rw [AtaDrive.outb, ataRegLbaLo, reg_offset]
  rfl

theorem outb_lbaMid : AtaDrive.outb base value (ataRegLbaMid base) d =
    { d with lbaMid := pushByte d.lbaMid value } := by
  rw [AtaDrive.outb, ataRegLbaMid, reg_offset]
  rfl

theorem outb_lbaHi : AtaDrive.outb base value (ataRegLbaHi base) d =
    { d with lbaHi := pushByte d.lbaHi value } := by
  rw [AtaDrive.outb, ataRegLbaHi, reg_offset]
  rfl

theorem outb_driveSel : AtaDrive.outb base value (ataRegDriveSel base) d =
    { d with driveSel := value } := by
  rw [AtaDrive.outb, ataRegDriveSel, reg_offset]
  rfl

theorem outb_command : AtaDrive.outb base value (ataRegCommand base) d = d.command value := by
  rw [AtaDrive.outb, ataRegCommand, reg_offset]
  rfl

end

theorem lba28_eq {d : AtaDrive} {lba : BitVec 64} {master : Bool} {hi mid lo : BitVec 16}
    (bound : lba.toNat < 2 ^ 28)
    (sel : d.driveSel = 0xE0 ||| ((if master then 0 else 1 : BitVec 8) <<< 4) |||
      ((lba >>> 24) &&& 0x0F).setWidth 8)
    (hiReg : d.lbaHi = pushByte hi ((lba >>> 16).setWidth 8))
    (midReg : d.lbaMid = pushByte mid ((lba >>> 8).setWidth 8))
    (loReg : d.lbaLo = pushByte lo (lba.setWidth 8)) : d.lba28 = lba.toNat := by
  have top : (((lba >>> 24) &&& 0x0F).setWidth 8 : BitVec 8).toNat % 16 =
      lba.toNat / 2 ^ 24 % 16 := by
    have mask : (0x0F : BitVec 64).toNat = 2 ^ 4 - 1 := rfl
    rw [BitVec.toNat_setWidth, BitVec.toNat_and, BitVec.toNat_ushiftRight, mask,
      Nat.and_two_pow_sub_one_eq_mod, Nat.shiftRight_eq_div_pow]
    omega
  have low : (lba.setWidth 8).toNat = lba.toNat % 256 := BitVec.toNat_setWidth _ _
  simp only [AtaDrive.lba28, sel, hiReg, midReg, loReg, driveSel_low, top, pushByte_low,
    byte_toNat, low]
  omega

theorem lba48_eq {d : AtaDrive} {lba : BitVec 64} {hi mid lo : BitVec 16}
    (bound : lba.toNat < 2 ^ 48)
    (hiReg : d.lbaHi =
      pushByte (pushByte hi ((lba >>> 40).setWidth 8)) ((lba >>> 16).setWidth 8))
    (midReg : d.lbaMid =
      pushByte (pushByte mid ((lba >>> 32).setWidth 8)) ((lba >>> 8).setWidth 8))
    (loReg : d.lbaLo = pushByte (pushByte lo ((lba >>> 24).setWidth 8)) (lba.setWidth 8)) :
    d.lba48 = lba.toNat := by
  have low : (lba.setWidth 8).toNat = lba.toNat % 256 := BitVec.toNat_setWidth _ _
  simp only [AtaDrive.lba48, hiReg, midReg, loReg, pushByte_low, pushByte_high, byte_toNat, low]
  omega

/-- The transfer that follows an accepted command for `sectors` sectors from `lba` on. -/
structure AtaDrive.Serving (d t : AtaDrive) (lba sectors : Nat) : Prop where
  disk : t.disk = d.disk
  position : t.position = lba
  word : t.word = 0
  left : sectors ≤ t.left

theorem internalSectors_toNat {sectors : BitVec 64} (small : sectors.toNat ≤ 256) :
    (atapioInternalSectors sectors).toNat = sectors.toNat % 256 := by
  unfold atapioInternalSectors
  split
  · rename_i full
    have bound : 256 ≤ sectors.toNat := full
    have exactly : sectors.toNat = 256 := by omega
    rw [exactly]
    rfl
  · rename_i partial_
    have bound : ¬ 256 ≤ sectors.toNat := partial_
    rw [BitVec.toNat_setWidth]
    omega

theorem internalSectors_low {sectors : BitVec 64} (small : sectors.toNat ≤ 256) :
    ((atapioInternalSectors sectors).setWidth 8 : BitVec 8).toNat = sectors.toNat % 256 := by
  rw [BitVec.toNat_setWidth, internalSectors_toNat small]
  omega

theorem internalSectors_high {sectors : BitVec 64} (small : sectors.toNat ≤ 256) :
    (((atapioInternalSectors sectors) >>> 8).setWidth 8 : BitVec 8).toNat = 0 := by
  rw [BitVec.toNat_setWidth, BitVec.toNat_ushiftRight, internalSectors_toNat small,
    Nat.shiftRight_eq_div_pow]
  omega

theorem atapioSendCmd_serving (cmd28 cmd48 : BitVec 8) (lba sectors : BitVec 64)
    (dev : AtaBlockDevice) (d : AtaDrive) (bound : lba.toNat < dev.extra.type.reach)
    (small : sectors.toNat ≤ 256) (is28 : cmd28 = 0x20 ∨ cmd28 = 0x30)
    (is48 : cmd48 = 0x24 ∨ cmd48 = 0x34) :
    ∃ sent t, atapioSendCmd (AtaDrive.machine dev.extra.portio) cmd28 cmd48 lba
        (atapioInternalSectors sectors) dev d = .ok (sent, t) ∧
      d.Serving t lba.toNat sectors.toNat := by
  have low := internalSectors_low small
  cases type : dev.extra.type with
  | unknown =>
    rw [type] at bound
    exact absurd bound (Nat.not_lt_zero _)
  | chs =>
    rw [type] at bound
    exact absurd bound (Nat.not_lt_zero _)
  | lba28 =>
    rw [type] at bound
    simp only [atapioSendCmd, type, AtaDrive.machine, outb_count, outb_lbaLo, outb_lbaMid,
      outb_lbaHi, outb_driveSel, outb_command, AtaDrive.command, is28, ↓reduceIte]
    refine ⟨_, _, rfl, rfl, lba28_eq bound rfl rfl rfl rfl, rfl, ?_⟩
    simp only [AtaDrive.begin, AtaDrive.count28, pushByte_low, low]
    split <;> omega
  | lba48 =>
    rw [type] at bound
    have high := internalSectors_high small
    have not28 : ¬ (cmd48 = 0x20 ∨ cmd48 = 0x30) := by
      rcases is48 with rfl | rfl <;> decide
    simp only [atapioSendCmd, type, AtaDrive.machine, outb_count, outb_lbaLo, outb_lbaMid,
      outb_lbaHi, outb_driveSel, outb_command, AtaDrive.command, not28, is48, ↓reduceIte]
    refine ⟨_, _, rfl, rfl, lba48_eq bound rfl rfl rfl, rfl, ?_⟩
    simp only [AtaDrive.begin, AtaDrive.count48, pushByte_twice, high, low]
    split <;> omega

theorem inw_data {base : BitVec 16} {d : AtaDrive} (busy : 0 < d.left) :
    AtaDrive.inw base (ataRegData base) d =
      (BitVec.ofNat 16 ((d.disk d.position (d.word * 2 + 1)).toNat * 256 +
        (d.disk d.position (d.word * 2)).toNat), d.advance) := by
  simp [AtaDrive.inw, ataRegData, busy]

theorem outw_data {base value : BitVec 16} {d : AtaDrive} (busy : 0 < d.left) :
    AtaDrive.outw base value (ataRegData base) d =
      AtaDrive.advance { d with
        disk := Function.update d.disk d.position
          (Function.update
            (Function.update (d.disk d.position) (d.word * 2) (value.setWidth 8))
            (d.word * 2 + 1) ((value >>> 8).setWidth 8)) } := by
  simp [AtaDrive.outw, ataRegData, busy]

theorem word_low (high low : BitVec 8) :
    (BitVec.ofNat 16 (high.toNat * 256 + low.toNat)).setWidth 8 = low := by
  have highBound := high.isLt
  have lowBound := low.isLt
  apply BitVec.eq_of_toNat_eq
  simp only [BitVec.toNat_setWidth, BitVec.toNat_ofNat]
  omega

theorem word_high (high low : BitVec 8) :
    (BitVec.ofNat 16 (high.toNat * 256 + low.toNat) >>> 8).setWidth 8 = high := by
  have highBound := high.isLt
  have lowBound := low.isLt
  apply BitVec.eq_of_toNat_eq
  simp only [BitVec.toNat_setWidth, BitVec.toNat_ushiftRight, BitVec.toNat_ofNat,
    Nat.shiftRight_eq_div_pow]
  omega

theorem word_join (high low : BitVec 8) :
    ((high.setWidth 16 <<< 8) ||| low.setWidth 16 : BitVec 16) =
      BitVec.ofNat 16 (high.toNat * 256 + low.toNat) := by
  have highBound := high.isLt
  have lowBound := low.isLt
  have join := Nat.two_pow_add_eq_or_of_lt (i := 8) lowBound high.toNat
  apply BitVec.eq_of_toNat_eq
  simp only [BitVec.toNat_or, BitVec.toNat_shiftLeft, BitVec.toNat_setWidth, BitVec.toNat_ofNat,
    Nat.shiftLeft_eq]
  have noHigh : high.toNat % 2 ^ 16 * 2 ^ 8 % 2 ^ 16 = 2 ^ 8 * high.toNat := by omega
  have noLow : low.toNat % 2 ^ 16 = low.toNat := by omega
  rw [noHigh, noLow, ← join]
  omega

/-- `dest` with its first sector replaced. -/
def overlay (dest sector : Nat → BitVec 8) : Nat → BitVec 8 :=
  fun m => if m < 512 then sector m else dest m

theorem overlay_overlay (dest first second : Nat → BitVec 8) :
    overlay (overlay dest first) second = overlay dest second := by
  funext m
  unfold overlay
  split <;> rfl

/-- The words from `256 - left` on fill the rest of the first 512 bytes. -/
theorem atapioReadWords_spec {dev : AtaBlockDevice} {left : Nat} {d : AtaDrive}
    {dest : Nat → BitVec 8} (nonempty : 1 ≤ left) (fits : left ≤ 256) (word : d.word = 256 - left)
    (busy : 0 < d.left) :
    atapioReadWords (AtaDrive.machine dev.extra.portio) dev left (d, dest) =
      ({ d with position := d.position + 1, word := 0, left := d.left - 1 },
        fun m => if (256 - left) * 2 ≤ m ∧ m < 512 then d.disk d.position m else dest m) := by
  induction left generalizing d dest with
  | zero => omega
  | succ left ih =>
    have read : (AtaDrive.machine dev.extra.portio).inw (ataRegData dev.extra.portio) d = _ :=
      inw_data busy
    simp only [atapioReadWords, read, word_low, word_high, word]
    have bytes : ∀ m, Function.update (Function.update dest ((256 - (left + 1)) * 2)
          (d.disk d.position ((256 - (left + 1)) * 2))) ((256 - (left + 1)) * 2 + 1)
          (d.disk d.position ((256 - (left + 1)) * 2 + 1)) m =
        if (256 - (left + 1)) * 2 ≤ m ∧ m < (256 - left) * 2 then d.disk d.position m
        else dest m := by
      intro m
      simp only [Function.update_apply]
      grind
    by_cases last : left = 0
    · subst last
      simp only [atapioReadWords, AtaDrive.advance, word]
      refine Prod.ext rfl (funext fun m => ?_)
      exact bytes m
    · have more : ¬ d.word + 1 = 256 := by omega
      have next : d.advance = { d with word := d.word + 1 } := by
        simp only [AtaDrive.advance, more, ↓reduceIte]
      rw [next, ih (by omega) (by omega) (by simp only; omega) (by simpa using busy)]
      refine Prod.ext rfl (funext fun m => ?_)
      simp only [bytes]
      grind

theorem atapioWriteWords_spec {dev : AtaBlockDevice} {src : Nat → BitVec 8} {left : Nat}
    {d : AtaDrive} (nonempty : 1 ≤ left) (fits : left ≤ 256) (word : d.word = 256 - left)
    (busy : 0 < d.left) :
    atapioWriteWords (AtaDrive.machine dev.extra.portio) dev src left d =
      { d with
        disk := Function.update d.disk d.position fun m =>
          if (256 - left) * 2 ≤ m ∧ m < 512 then src m else d.disk d.position m
        position := d.position + 1
        word := 0
        left := d.left - 1 } := by
  induction left generalizing d with
  | zero => omega
  | succ left ih =>
    have write : ∀ value, (AtaDrive.machine dev.extra.portio).outw value
        (ataRegData dev.extra.portio) d = _ := fun value => outw_data busy
    simp only [atapioWriteWords, write, word_join, word_low, word_high, word]
    have bytes : ∀ m, Function.update (Function.update (d.disk d.position)
          ((256 - (left + 1)) * 2) (src ((256 - (left + 1)) * 2))) ((256 - (left + 1)) * 2 + 1)
          (src ((256 - (left + 1)) * 2 + 1)) m =
        if (256 - (left + 1)) * 2 ≤ m ∧ m < (256 - left) * 2 then src m
        else d.disk d.position m := by
      intro m
      simp only [Function.update_apply]
      grind
    by_cases last : left = 0
    · subst last
      simp only [atapioWriteWords, AtaDrive.advance]
      rw [funext bytes]
      rfl
    · have more : ¬ 256 - (left + 1) + 1 = 256 := by omega
      simp only [AtaDrive.advance, more, ↓reduceIte]
      rw [ih (by omega) (by omega) (by simp only; omega) (by simpa using busy)]
      simp only [Function.update_self, Function.update_idem, bytes]
      congr 2
      funext m
      grind

theorem atapioReadWords_sector {dev : AtaBlockDevice} {d : AtaDrive} {dest : Nat → BitVec 8}
    (word : d.word = 0) (busy : 0 < d.left) :
    atapioReadWords (AtaDrive.machine dev.extra.portio) dev 256 (d, dest) =
      ({ d with position := d.position + 1, word := 0, left := d.left - 1 },
        overlay dest (d.disk d.position)) := by
  rw [atapioReadWords_spec (by decide) (by decide) word busy]
  simp only [Nat.sub_self, Nat.zero_mul, Nat.zero_le, true_and]
  rfl

theorem atapioWriteWords_sector {dev : AtaBlockDevice} {src : Nat → BitVec 8} {d : AtaDrive}
    (word : d.word = 0) (busy : 0 < d.left) :
    atapioWriteWords (AtaDrive.machine dev.extra.portio) dev src 256 d =
      { d with
        disk := Function.update d.disk d.position (overlay (d.disk d.position) src)
        position := d.position + 1
        word := 0
        left := d.left - 1 } := by
  rw [atapioWriteWords_spec (by decide) (by decide) word busy]
  simp only [Nat.sub_self, Nat.zero_mul, Nat.zero_le, true_and]
  rfl

/-- A drive with a transfer in progress is ready at the first look. -/
theorem atapioWaitForReady_busy {dev : AtaBlockDevice} {d : AtaDrive} {fuel timeoutMs : Nat}
    (enough : 0 < fuel) (busy : 0 < d.left) :
    atapioWaitForReady (AtaDrive.machine dev.extra.portio) fuel timeoutMs dev d =
      .ok (true, d) := by
  obtain ⟨fuel, rfl⟩ := Nat.exists_eq_succ_of_ne_zero (Nat.ne_of_gt enough)
  have ready : (AtaDrive.machine dev.extra.portio).inb (ataRegStatus dev.extra.portio) d =
      (0x48, d) := by
    simp [AtaDrive.machine, AtaDrive.inb, ataRegStatus, AtaDrive.status, busy]
  have now : (AtaDrive.machine dev.extra.portio).timerElapsed d = (0, d) := rfl
  have started : (AtaDrive.machine dev.extra.portio).timerStart d = d := rfl
  simp [atapioWaitForReady, atapioReadyLoop, started, now, ready, ataStatusBsy, ataStatusDrq]

/-- The drive after `n` sectors of a transfer. -/
def AtaDrive.after (d : AtaDrive) (n : Nat) : AtaDrive :=
  { d with position := d.position + n, word := 0, left := d.left - n }

theorem after_zero {d : AtaDrive} (word : d.word = 0) : d.after 0 = d := by
  cases d
  simp only at word
  subst word
  rfl

theorem after_add (d : AtaDrive) (m n : Nat) : (d.after m).after n = d.after (m + n) := by
  unfold AtaDrive.after
  simp only [Nat.add_assoc, Nat.sub_sub]

theorem atapioReadSectors_spec {dev : AtaBlockDevice} {fuel n : Nat} {d : AtaDrive}
    {dest : Nat → BitVec 8} (enough : 0 < fuel) (word : d.word = 0) (busy : n ≤ d.left) :
    atapioReadSectors (AtaDrive.machine dev.extra.portio) fuel dev n (d, dest) =
      .ok (none, d.after n,
        if n = 0 then dest else overlay dest (d.disk (d.position + n - 1))) := by
  induction n generalizing d dest with
  | zero =>
    rw [after_zero word]
    rfl
  | succ n ih =>
    have notNegative : ¬ ((true.toNat : Nat) : Int) < 0 := by decide
    simp only [atapioReadSectors]
    rw [atapioWaitForReady_busy enough (by omega)]
    simp only [Bind.bind, Except.bind, notNegative, ↓reduceIte]
    rw [atapioReadWords_sector word (by omega)]
    have fewer : n ≤ (d.after 1).left := by
      simp only [AtaDrive.after]
      omega
    refine (ih rfl fewer).trans ?_
    have last : (d.after 1).position + n - 1 = d.position + (n + 1) - 1 := by
      simp only [AtaDrive.after]
      omega
    rw [after_add, Nat.add_comm 1 n, last, overlay_overlay]
    by_cases only : n = 0
    · subst only
      rfl
    · simp only [only, Nat.add_eq_zero_iff, false_and, ↓reduceIte]
      rfl

/-- The disk with the first block of `src` on `n` sectors from `first` on. -/
def writeSectors (disk : Nat → Nat → BitVec 8) (src : Nat → BitVec 8) (first n : Nat) :
    Nat → Nat → BitVec 8 :=
  fun sector => if first ≤ sector ∧ sector < first + n then overlay (disk sector) src
    else disk sector

theorem writeSectors_append (disk : Nat → Nat → BitVec 8) (src : Nat → BitVec 8)
    (first m n : Nat) :
    writeSectors (writeSectors disk src first m) src (first + m) n =
      writeSectors disk src first (m + n) := by
  funext sector
  unfold writeSectors
  grind

theorem writeSectors_one (disk : Nat → Nat → BitVec 8) (src : Nat → BitVec 8) (first : Nat) :
    writeSectors disk src first 1 =
      Function.update disk first (overlay (disk first) src) := by
  funext sector
  simp only [writeSectors, Function.update_apply]
  grind

theorem atapioWriteSectors_spec {dev : AtaBlockDevice} {fuel n : Nat} {d : AtaDrive}
    {src : Nat → BitVec 8} (enough : 0 < fuel) (word : d.word = 0) (busy : n ≤ d.left) :
    atapioWriteSectors (AtaDrive.machine dev.extra.portio) fuel dev src n d =
      .ok (none, { d.after n with disk := writeSectors d.disk src d.position n }) := by
  induction n generalizing d with
  | zero =>
    have same : writeSectors d.disk src d.position 0 = d.disk := by
      funext sector
      unfold writeSectors
      grind
    rw [same, after_zero word]
    rfl
  | succ n ih =>
    have notNegative : ¬ ((true.toNat : Nat) : Int) < 0 := by decide
    simp only [atapioWriteSectors]
    rw [atapioWaitForReady_busy enough (by omega)]
    simp only [Bind.bind, Except.bind, notNegative, ↓reduceIte]
    rw [atapioWriteWords_sector word (by omega), ← writeSectors_one]
    refine (ih rfl (by dsimp only; omega)).trans ?_
    simp only [writeSectors_append, Nat.add_comm 1 n]
    have drive := after_add d 1 n
    simp only [AtaDrive.after] at drive ⊢
    simp only [AtaDrive.mk.injEq] at drive
    simp only [drive, Nat.add_comm 1 n]

theorem reach_le (type : AtaType) : type.reach ≤ 2 ^ 48 := by
  cases type <;> decide

theorem readWorking_toNat (sectors : BitVec 64) :
    (if 256 < sectors then 256 else sectors.setWidth 16 : BitVec 16).toNat =
      min sectors.toNat 256 := by
  have bound := sectors.isLt
  split
  · rename_i more
    have large : 256 < sectors.toNat := more
    rw [Nat.min_eq_right (by omega)]
    rfl
  · rename_i less
    have small : ¬ 256 < sectors.toNat := less
    rw [BitVec.toNat_setWidth]
    omega

theorem writeWorking_toNat (sectors : BitVec 64) :
    (if 256 < sectors then 256 else sectors : BitVec 64).toNat = min sectors.toNat 256 := by
  split
  · rename_i more
    have large : 256 < sectors.toNat := more
    rw [Nat.min_eq_right (by omega)]
    rfl
  · rename_i less
    have small : ¬ 256 < sectors.toNat := less
    omega

theorem atapioReadLoop_spec (dev : AtaBlockDevice) (fuel : Nat) (lba sectors : BitVec 64)
    (d : AtaDrive) (dest : Nat → BitVec 8) (enough : sectors.toNat < fuel)
    (inside : lba.toNat + sectors.toNat ≤ dev.extra.type.reach) :
    ∃ t, atapioReadLoop (AtaDrive.machine dev.extra.portio) dev fuel lba sectors (d, dest) =
        .ok (0, t, if sectors = 0 then dest
          else overlay dest (d.disk (lba.toNat + sectors.toNat - 1))) ∧
      t.disk = d.disk := by
  induction fuel generalizing lba sectors d dest with
  | zero => omega
  | succ fuel ih =>
    have reach := reach_le dev.extra.type
    simp only [atapioReadLoop]
    by_cases done : sectors = 0
    · subst done
      exact ⟨d, rfl, rfl⟩
    · have positive : 0 < sectors.toNat := by
        rw [Nat.pos_iff_ne_zero]
        exact fun zero => done (BitVec.eq_of_toNat_eq zero)
      simp only [done, ↓reduceIte]
      generalize working : (if 256 < sectors then 256 else sectors.setWidth 16 : BitVec 16) = w
      have count : w.toNat = min sectors.toNat 256 := by rw [← working, readWorking_toNat]
      have wide : (w.setWidth 64).toNat = w.toNat := by
        rw [BitVec.toNat_setWidth]
        omega
      obtain ⟨sent, served, send, serving⟩ := atapioSendCmd_serving 0x20 0x24 lba
        (w.setWidth 64) dev d (by omega) (by omega) (.inl rfl) (.inl rfl)
      have notNegative : ¬ ((sent.toNat : Nat) : Int) < 0 := by omega
      have left := serving.left
      rw [atapioSendReadCmd, send]
      simp only [Bind.bind, Except.bind, notNegative, ↓reduceIte]
      rw [atapioReadSectors_spec (by omega) serving.word (by omega)]
      have nonempty : ¬ w.toNat = 0 := by omega
      simp only [nonempty, ↓reduceIte]
      have nextLba : (lba + w.setWidth 64).toNat = lba.toNat + w.toNat := by
        rw [BitVec.toNat_add, wide]
        omega
      have nextSectors : (sectors - w.setWidth 64).toNat = sectors.toNat - w.toNat := by
        rw [BitVec.toNat_sub_of_le (by rw [BitVec.le_def]; omega), wide]
      obtain ⟨t, rest, disk⟩ := ih (lba + w.setWidth 64) (sectors - w.setWidth 64)
        (served.after w.toNat) (overlay dest (served.disk (served.position + w.toNat - 1)))
        (by omega) (by omega)
      have same : (served.after w.toNat).disk = d.disk := serving.disk
      refine ⟨t, rest.trans ?_, disk.trans same⟩
      rw [same, serving.disk, serving.position, overlay_overlay, nextLba, nextSectors]
      by_cases last : sectors - w.setWidth 64 = 0
      · have exactly : sectors.toNat = w.toNat := by
          rw [last] at nextSectors
          have none : 0 = sectors.toNat - w.toNat := nextSectors
          omega
        simp only [last, exactly, ↓reduceIte]
      · have end_ : lba.toNat + w.toNat + (sectors.toNat - w.toNat) - 1 =
            lba.toNat + sectors.toNat - 1 := by omega
        simp only [last, end_, ↓reduceIte]

theorem atapioFlushSectors_idle {dev : AtaBlockDevice} {d : AtaDrive} {fuel timeoutMs : Nat}
    (enough : 0 < fuel) :
    atapioFlushSectors (AtaDrive.machine dev.extra.portio) fuel timeoutMs dev d =
      .ok (true, { d with left := 0 }) := by
  obtain ⟨fuel, rfl⟩ := Nat.exists_eq_succ_of_ne_zero (Nat.ne_of_gt enough)
  have flushed : (AtaDrive.machine dev.extra.portio).outb 0xE7 (ataRegCommand dev.extra.portio) d =
      { d with left := 0 } := outb_command _ _ _
  have idle : ∀ t : AtaDrive, t.left = 0 →
      (AtaDrive.machine dev.extra.portio).inb (ataRegStatus dev.extra.portio) t = (0x40, t) := by
    intro t none
    simp [AtaDrive.machine, AtaDrive.inb, ataRegStatus, AtaDrive.status, none]
  have started : ∀ t, (AtaDrive.machine dev.extra.portio).timerStart t = t := fun _ => rfl
  simp only [atapioFlushSectors, atapioFlushLoop, flushed, started, idle]
  rfl

theorem atapioWriteLoop_spec (dev : AtaBlockDevice) (src : Nat → BitVec 8) (fuel : Nat)
    (lba sectors : BitVec 64) (d : AtaDrive) (enough : sectors.toNat < fuel)
    (inside : lba.toNat + sectors.toNat ≤ dev.extra.type.reach) :
    ∃ t, atapioWriteLoop (AtaDrive.machine dev.extra.portio) dev src fuel lba sectors d =
        .ok (0, t) ∧ t.disk = writeSectors d.disk src lba.toNat sectors.toNat := by
  induction fuel generalizing lba sectors d with
  | zero => omega
  | succ fuel ih =>
    have reach := reach_le dev.extra.type
    simp only [atapioWriteLoop]
    by_cases done : sectors = 0
    · subst done
      refine ⟨d, rfl, funext fun sector => ?_⟩
      simp only [writeSectors]
      grind
    · have positive : 0 < sectors.toNat := by
        rw [Nat.pos_iff_ne_zero]
        exact fun zero => done (BitVec.eq_of_toNat_eq zero)
      simp only [done, ↓reduceIte]
      generalize working : (if 256 < sectors then 256 else sectors : BitVec 64) = w
      have count : w.toNat = min sectors.toNat 256 := by rw [← working, writeWorking_toNat]
      obtain ⟨sent, served, send, serving⟩ := atapioSendCmd_serving 0x30 0x34 lba w dev d
        (by omega) (by omega) (.inr rfl) (.inr rfl)
      have notNegative : ∀ b : Bool, ¬ ((b.toNat : Nat) : Int) < 0 := fun b => by omega
      have left := serving.left
      rw [atapioSendWriteCmd, send]
      simp only [Bind.bind, Except.bind, notNegative, ↓reduceIte]
      rw [atapioWriteSectors_spec (by omega) serving.word (by omega)]
      simp only
      rw [atapioFlushSectors_idle (by omega)]
      have nextLba : (lba + w).toNat = lba.toNat + w.toNat := by
        rw [BitVec.toNat_add]
        omega
      have nextSectors : (sectors - w).toNat = sectors.toNat - w.toNat := by
        rw [BitVec.toNat_sub_of_le (by rw [BitVec.le_def]; omega)]
      obtain ⟨t, rest, disk⟩ := ih (lba + w) (sectors - w)
        { served.after w.toNat with
          disk := writeSectors served.disk src served.position w.toNat
          left := 0 }
        (by omega) (by omega)
      have total : w.toNat + (sectors.toNat - w.toNat) = sectors.toNat := by omega
      refine ⟨t, rest, disk.trans ?_⟩
      simp only [serving.disk, serving.position, nextLba, nextSectors]
      rw [writeSectors_append, total]

theorem atapioIsValidRange_of {dev : AtaBlockDevice} {lba sectors : BitVec 64}
    (nonempty : sectors ≠ 0) (inside : lba.toNat + sectors.toNat ≤ dev.sectorCount.toNat) :
    atapioIsValidRange lba sectors dev = true := by
  have before : ¬ dev.sectorCount < lba := by
    rw [BitVec.lt_def]
    omega
  have room : sectors ≤ dev.sectorCount - lba := by
    rw [BitVec.le_def, BitVec.toNat_sub_of_le (by rw [BitVec.le_def]; omega)]
    omega
  unfold atapioIsValidRange
  rw [if_neg (not_or.mpr ⟨before, nonempty⟩)]
  exact decide_eq_true room

/-- All that a read leaves behind is its last sector, at the start of `dest`. -/
theorem atapioRead_spec {dev : AtaBlockDevice} {lba sectors : BitVec 64} {fuel : Nat}
    (nonempty : sectors ≠ 0) (inside : lba.toNat + sectors.toNat ≤ dev.sectorCount.toNat)
    (enough : sectors.toNat < fuel) (d : AtaDrive) (dest : Nat → BitVec 8) :
    ∃ t, atapioRead (AtaDrive.machine dev.extra.portio) fuel dev lba sectors dest d =
        .ok (0, t, overlay dest (d.disk (lba.toNat + sectors.toNat - 1))) ∧ t.disk = d.disk := by
  have reach := dev.addressable
  obtain ⟨t, read, disk⟩ := atapioReadLoop_spec dev fuel lba sectors d dest enough (by omega)
  rw [if_neg nonempty] at read
  refine ⟨t, ?_, disk⟩
  rw [atapioRead, atapioIsValidRange_of nonempty inside, if_pos rfl, read]

/-- A write puts the first block of `src` on all sectors of the range. -/
theorem atapioWrite_spec {dev : AtaBlockDevice} {lba sectors : BitVec 64} {fuel : Nat}
    (nonempty : sectors ≠ 0) (inside : lba.toNat + sectors.toNat ≤ dev.sectorCount.toNat)
    (enough : sectors.toNat < fuel) (d : AtaDrive) (src : Nat → BitVec 8) :
    ∃ t, atapioWrite (AtaDrive.machine dev.extra.portio) fuel dev lba sectors src d = .ok (0, t) ∧
      t.disk = writeSectors d.disk src lba.toNat sectors.toNat := by
  have reach := dev.addressable
  obtain ⟨t, written, disk⟩ := atapioWriteLoop_spec dev src fuel lba sectors d enough (by omega)
  refine ⟨t, ?_, disk⟩
  rw [atapioWrite, atapioIsValidRange_of nonempty inside, if_pos rfl, written]

/-- The buffer holds `sectors` sectors of the disk, from `lba` on. -/
def Holds (buffer : Nat → BitVec 8) (disk : Nat → Nat → BitVec 8) (lba sectors : Nat) : Prop :=
  ∀ k < sectors, ∀ j < 512, buffer (512 * k + j) = disk (lba + k) j

theorem overlay_first {dest sector : Nat → BitVec 8} {j : Nat} (within : j < 512) :
    overlay dest sector j = sector j := if_pos within

theorem overlay_rest {dest sector : Nat → BitVec 8} {k j : Nat} (later : 1 ≤ k) :
    overlay dest sector (512 * k + j) = dest (512 * k + j) := if_neg (by omega)

theorem overlay_holds_iff {dest : Nat → BitVec 8} {disk : Nat → Nat → BitVec 8}
    {lba sectors : Nat} (nonempty : 0 < sectors) :
    Holds (overlay dest (disk (lba + sectors - 1))) disk lba sectors ↔
      (∀ j < 512, disk lba j = disk (lba + sectors - 1) j) ∧
        ∀ k, 1 ≤ k → k < sectors → ∀ j < 512, dest (512 * k + j) = disk (lba + k) j := by
  constructor
  · intro holds
    refine ⟨fun j within => ?_, fun k later before j within => ?_⟩
    · have first := holds 0 nonempty j within
      rw [Nat.mul_zero, Nat.zero_add, overlay_first within] at first
      exact first.symm
    · rw [← holds k before j within, overlay_rest later]
  · rintro ⟨same, already⟩ k before j within
    by_cases first : k = 0
    · subst first
      rw [Nat.mul_zero, Nat.zero_add, overlay_first within]
      exact (same j within).symm
    · rw [overlay_rest (by omega)]
      exact already k (by omega) before j within

theorem writeSectors_outside {disk : Nat → Nat → BitVec 8} {src : Nat → BitVec 8}
    {first n sector : Nat} (outside : ¬ (first ≤ sector ∧ sector < first + n)) :
    writeSectors disk src first n sector = disk sector := if_neg outside

theorem writeSectors_inside {disk : Nat → Nat → BitVec 8} {src : Nat → BitVec 8}
    {first n k j : Nat} (inside : k < n) (within : j < 512) :
    writeSectors disk src first n (first + k) j = src j := by
  rw [writeSectors, if_pos ⟨by omega, by omega⟩, overlay_first within]

theorem writeSectors_holds_iff {disk : Nat → Nat → BitVec 8} {src : Nat → BitVec 8}
    {lba sectors : Nat} :
    Holds src (writeSectors disk src lba sectors) lba sectors ↔
      ∀ k < sectors, ∀ j < 512, src (512 * k + j) = src j := by
  constructor
  · intro holds k before j within
    rw [holds k before j within, writeSectors_inside before within]
  · intro same k before j within
    rw [same k before j within, writeSectors_inside before within]

/-- The buffers after a write and a read of the same range agree exactly when they did so before,
    but for the first sector. -/
theorem writeThenRead_iff {disk : Nat → Nat → BitVec 8} {src dest : Nat → BitVec 8}
    {lba sectors : Nat} (nonempty : 0 < sectors) :
    (∀ m < 512 * sectors,
        overlay dest (writeSectors disk src lba sectors (lba + sectors - 1)) m = src m) ↔
      ∀ m, 512 ≤ m → m < 512 * sectors → dest m = src m := by
  have last : lba + sectors - 1 = lba + (sectors - 1) := by omega
  constructor
  · intro same m later before
    rw [← same m before, overlay, if_neg (by omega)]
  · intro same m before
    by_cases within : m < 512
    · rw [overlay_first within, last, writeSectors_inside (by omega) within]
    · rw [overlay, if_neg within, same m (by omega) before]

/-- What a read, a write and a write followed by a read of the same range do, and exactly when that
    is the transfer they stand for. -/
theorem atapio_transfers_iff (dev : AtaBlockDevice) (d : AtaDrive) (lba sectors : BitVec 64)
    (src dest : Nat → BitVec 8) (fuel : Nat) (nonempty : sectors ≠ 0)
    (inside : lba.toNat + sectors.toNat ≤ dev.sectorCount.toNat) (enough : sectors.toNat < fuel) :
    (∃ t dest', atapioRead (AtaDrive.machine dev.extra.portio) fuel dev lba sectors dest d =
        .ok (0, t, dest') ∧
      (Holds dest' d.disk lba.toNat sectors.toNat ↔
        (∀ j < 512, d.disk lba.toNat j = d.disk (lba.toNat + sectors.toNat - 1) j) ∧
          ∀ k, 1 ≤ k → k < sectors.toNat → ∀ j < 512,
            dest (512 * k + j) = d.disk (lba.toNat + k) j)) ∧
    ∃ t, atapioWrite (AtaDrive.machine dev.extra.portio) fuel dev lba sectors src d =
        .ok (0, t) ∧
      ((Holds src t.disk lba.toNat sectors.toNat ∧
          ∀ sector, sector < lba.toNat ∨ lba.toNat + sectors.toNat ≤ sector →
            t.disk sector = d.disk sector) ↔
        ∀ k < sectors.toNat, ∀ j < 512, src (512 * k + j) = src j) ∧
      ∃ u dest', atapioRead (AtaDrive.machine dev.extra.portio) fuel dev lba sectors dest t =
          .ok (0, u, dest') ∧
        ((∀ m < 512 * sectors.toNat, dest' m = src m) ↔
          ∀ m, 512 ≤ m → m < 512 * sectors.toNat → dest m = src m) := by
  have positive : 0 < sectors.toNat := by
    rw [Nat.pos_iff_ne_zero]
    exact fun zero => nonempty (BitVec.eq_of_toNat_eq zero)
  constructor
  · obtain ⟨t, read, -⟩ := atapioRead_spec nonempty inside enough d dest
    exact ⟨t, _, read, overlay_holds_iff positive⟩
  · obtain ⟨t, written, disk⟩ := atapioWrite_spec nonempty inside enough d src
    obtain ⟨u, read, -⟩ := atapioRead_spec nonempty inside enough t dest
    rw [disk] at read
    refine ⟨t, written, ?_, u, _, read, writeThenRead_iff positive⟩
    rw [disk, writeSectors_holds_iff]
    refine and_iff_left fun sector outside => ?_
    exact writeSectors_outside (by omega)

/-- Eight sectors behind the primary bus, each filled with its own number. -/
def numberedDrive : AtaDrive where
  disk := fun sector _ => BitVec.ofNat 8 sector
  count := 0
  lbaLo := 0
  lbaMid := 0
  lbaHi := 0
  driveSel := 0
  position := 0
  word := 0
  left := 0

def eightSectors : AtaBlockDevice where
  sectorCount := 8
  extra := { portio := 0x1F0, master := true, type := .lba28 }
  addressable := by decide

theorem atapio_transfers_one :
    ∃ t dest', atapioRead (AtaDrive.machine 0x1F0) 2 eightSectors 3 1 (fun _ => 0) numberedDrive =
        .ok (0, t, dest') ∧ Holds dest' numberedDrive.disk 3 1 := by
  obtain ⟨⟨t, dest', read, iff⟩, -⟩ := atapio_transfers_iff eightSectors numberedDrive 3 1
    (fun _ => 0) (fun _ => 0) 2 (by decide) (by decide) (by decide)
  refine ⟨t, dest', read, iff.mpr ⟨fun _ _ => rfl, fun k later before => ?_⟩⟩
  simp only [BitVec.ofNat_eq_ofNat, BitVec.toNat_ofNat] at before
  omega

/-- Reading sectors 3 and 4 leaves the bytes of sector 4 where those of sector 3 belong. -/
theorem atapio_read_misplaces :
    ¬ ∀ (dev : AtaBlockDevice) (d : AtaDrive) (lba sectors : BitVec 64) (dest : Nat → BitVec 8)
      (fuel : Nat) (st : Int) (t : AtaDrive) (dest' : Nat → BitVec 8), sectors ≠ 0 →
      lba.toNat + sectors.toNat ≤ dev.sectorCount.toNat →
      atapioRead (AtaDrive.machine dev.extra.portio) fuel dev lba sectors dest d =
        .ok (st, t, dest') →
      Holds dest' d.disk lba.toNat sectors.toNat := by
  intro claim
  have nonempty : (2 : BitVec 64) ≠ 0 := by decide
  have inside : (3 : BitVec 64).toNat + (2 : BitVec 64).toNat ≤
    eightSectors.sectorCount.toNat := by decide
  have enough : (2 : BitVec 64).toNat < 3 := by decide
  obtain ⟨t, read, -⟩ := atapioRead_spec nonempty inside enough numberedDrive fun _ => 0
  have first := claim _ _ _ _ _ _ _ _ _ nonempty inside read 0 (by decide) 0 (by decide)
  exact absurd first (by decide)

end Dxgmx
