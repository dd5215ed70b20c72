import Dxgmx.Storage.AtapioTransfers

open Library

namespace Dxgmx

/-- A drive that keeps account of the sectors that are read or written. -/
structure TrackedDrive where
  drive : AtaDrive
  touched : List Nat

namespace TrackedDrive

/-- The sectors once a word was transferred. -/
def note (base port : BitVec 16) (t : TrackedDrive) : List Nat :=
  if port - base = 0 ∧ 0 < t.drive.left then t.touched ++ [t.drive.position] else t.touched

def machine (base : BitVec 16) : Machine TrackedDrive where
  outb value port t := ⟨t.drive.outb base value port, t.touched⟩
  outw value port t := ⟨t.drive.outw base value port, t.note base port⟩
  inb port t := ((t.drive.inb base port).1, ⟨(t.drive.inb base port).2, t.touched⟩)
  inw port t := ((t.drive.inw base port).1, ⟨(t.drive.inw base port).2, t.note base port⟩)
  timerStart := id
  timerElapsed t := (0, t)

variable {t t' t'' : TrackedDrive} {dev : AtaBlockDevice} {src dest : Nat → BitVec 8}
variable {fuel left m n : Nat}

/-- The next `n` sectors were transferred, and no others. -/
structure Transferred (t t' : TrackedDrive) (n : Nat) : Prop where
  position : t'.drive.position = t.drive.position + n
  word : t'.drive.word = 0
  left : t'.drive.left = t.drive.left - n
  touched : ∀ sector, sector ∈ t'.touched ↔
    sector ∈ t.touched ∨ t.drive.position ≤ sector ∧ sector < t.drive.position + n

theorem Transferred.none (word : t.drive.word = 0) : t.Transferred t 0 :=
  ⟨rfl, word, rfl, fun sector => by grind⟩

theorem Transferred.trans (first : t.Transferred t' m) (second : t'.Transferred t'' n) :
    t.Transferred t'' (m + n) := by
  refine ⟨?_, second.word, ?_, fun sector => ?_⟩
  · rw [second.position, first.position, Nat.add_assoc]
  · rw [second.left, first.left, Nat.sub_sub]
  · rw [second.touched, first.touched, first.position]
    grind

theorem note_data {base : BitVec 16} (busy : 0 < t.drive.left) :
    t.note base (ataRegData base) = t.touched ++ [t.drive.position] := by
  unfold note
  rw [if_pos ⟨by simp [ataRegData], busy⟩]

/-- One word was transferred. -/
structure WordDone (t t' : TrackedDrive) : Prop where
  position : t'.drive.position = t.drive.advance.position
  word : t'.drive.word = t.drive.advance.word
  left : t'.drive.left = t.drive.advance.left
  touched : t'.touched = t.touched ++ [t.drive.position]

theorem WordDone.last (done : t.WordDone t') (last : t.drive.word + 1 = 256) :
    t.Transferred t' 1 := by
  obtain ⟨position, word, left, touched⟩ := done
  simp only [AtaDrive.advance, last, ↓reduceIte] at position word left
  refine ⟨position, word, left, fun sector => ?_⟩
  rw [touched]
  grind

/-- Before the last word of a sector the drive stays at it. -/
theorem WordDone.more (done : t.WordDone t') (more : ¬ t.drive.word + 1 = 256) :
    t'.drive.word = t.drive.word + 1 ∧ t'.drive.left = t.drive.left ∧
      (t'.Transferred t'' 1 → t.Transferred t'' 1) := by
  obtain ⟨position, word, left, touched⟩ := done
  simp only [AtaDrive.advance, more, ↓reduceIte] at position word left
  refine ⟨word, left, fun rest => ⟨?_, rest.word, ?_, fun sector => ?_⟩⟩
  · rw [rest.position, position]
  · rw [rest.left, left]
  · rw [rest.touched, touched, position]
    grind

theorem inw_done {base : BitVec 16} (busy : 0 < t.drive.left) :
    t.WordDone ((machine base).inw (ataRegData base) t).2 := by
  have drive : ((machine base).inw (ataRegData base) t).2.drive = t.drive.advance :=
    congrArg Prod.snd (@inw_data base t.drive busy)
  have noted := @note_data t base busy
  exact ⟨congrArg _ drive, congrArg _ drive, congrArg _ drive, noted⟩

theorem outw_done {base value : BitVec 16} (busy : 0 < t.drive.left) :
    t.WordDone ((machine base).outw value (ataRegData base) t) := by
  have noted := @note_data t base busy
  have advanced : ∀ disk : Nat → Nat → BitVec 8,
      (AtaDrive.advance { t.drive with disk := disk }).position = t.drive.advance.position ∧
      (AtaDrive.advance { t.drive with disk := disk }).word = t.drive.advance.word ∧
      (AtaDrive.advance { t.drive with disk := disk }).left = t.drive.advance.left := by
    intro disk
    unfold AtaDrive.advance
    dsimp only
    split <;> exact ⟨rfl, rfl, rfl⟩
  obtain ⟨position, word, left⟩ := advanced (Function.update t.drive.disk t.drive.position
    (Function.update (Function.update (t.drive.disk t.drive.position) (t.drive.word * 2)
      (value.setWidth 8)) (t.drive.word * 2 + 1) ((value >>> 8).setWidth 8)))
  have wrote : (machine base).outw value (ataRegData base) t = ⟨_, _⟩ :=
    congrArg₂ TrackedDrive.mk (@outw_data base value t.drive busy) noted
  rw [wrote]
  exact ⟨position, word, left, rfl⟩

theorem readWords_transferred (nonempty : 1 ≤ left) (fits : left ≤ 256)
    (word : t.drive.word = 256 - left) (busy : 0 < t.drive.left) :
    t.Transferred (atapioReadWords (machine dev.extra.portio) dev left (t, dest)).1 1 := by
  induction left generalizing t dest with
  | zero => omega
  | succ left ih =>
    have done := @inw_done t dev.extra.portio busy
    rw [atapioReadWords]
    dsimp only
    by_cases last : left = 0
    · subst last
      exact done.last (by omega)
    · obtain ⟨next, still, rest⟩ := done.more (by omega)
      apply rest
      exact ih (by omega) (by omega) (by omega) (by omega)

theorem writeWords_transferred (nonempty : 1 ≤ left) (fits : left ≤ 256)
    (word : t.drive.word = 256 - left) (busy : 0 < t.drive.left) :
    t.Transferred (atapioWriteWords (machine dev.extra.portio) dev src left t) 1 := by
  induction left generalizing t with
  | zero => omega
  | succ left ih =>
    rw [atapioWriteWords]
    generalize (_ : BitVec 16) ||| _ = value
    have done := @outw_done t dev.extra.portio value busy
    by_cases last : left = 0
    · subst last
      exact done.last (by omega)
    · obtain ⟨next, still, rest⟩ := done.more (by omega)
      apply rest
      exact ih (by omega) (by omega) (by omega) (by omega)

/-- A drive with a transfer in progress is ready at the first look. -/
theorem waitForReady_busy {timeoutMs : Nat} (enough : 0 < fuel) (busy : 0 < t.drive.left) :
    atapioWaitForReady (machine dev.extra.portio) fuel timeoutMs dev t = .ok (true, t) := by
  obtain ⟨fuel, rfl⟩ := Nat.exists_eq_succ_of_ne_zero (Nat.ne_of_gt enough)
  have ready : (machine dev.extra.portio).inb (ataRegStatus dev.extra.portio) t = (0x48, t) := by
    simp [machine, AtaDrive.inb, ataRegStatus, AtaDrive.status, busy]
  have now : (machine dev.extra.portio).timerElapsed t = (0, t) := rfl
  have started : (machine dev.extra.portio).timerStart t = t := rfl
  simp [atapioWaitForReady, atapioReadyLoop, started, now, ready, ataStatusBsy, ataStatusDrq]

theorem readSectors_transferred (enough : 0 < fuel) (word : t.drive.word = 0)
    (busy : n ≤ t.drive.left) :
    ∃ t' dest', atapioReadSectors (machine dev.extra.portio) fuel dev n (t, dest) =
      .ok (none, t', dest') ∧ t.Transferred t' n := by
  induction n generalizing t dest with
  | zero => exact ⟨t, dest, rfl, .none word⟩
  | succ n ih =>
    have notNegative : ¬ ((true.toNat : Nat) : Int) < 0 := by decide
    have first := @readWords_transferred t dev dest 256 (by decide) (by decide) word (by omega)
    rw [atapioReadSectors, waitForReady_busy enough (by omega), Exec.ok_bind]
    dsimp only
    rw [if_neg notNegative]
    generalize atapioReadWords (machine dev.extra.portio) dev 256 (t, dest) = words at first ⊢
    obtain ⟨sector, buffer⟩ := words
    have left := first.left
    obtain ⟨t', dest', rest, transferred⟩ := @ih sector buffer first.word (by dsimp only at left; omega)
    exact ⟨t', dest', rest, Nat.add_comm 1 n ▸ first.trans transferred⟩

theorem writeSectors_transferred (enough : 0 < fuel) (word : t.drive.word = 0)
    (busy : n ≤ t.drive.left) :
    ∃ t', atapioWriteSectors (machine dev.extra.portio) fuel dev src n t = .ok (none, t') ∧
      t.Transferred t' n := by
  induction n generalizing t with
  | zero => exact ⟨t, rfl, .none word⟩
  | succ n ih =>
    have notNegative : ¬ ((true.toNat : Nat) : Int) < 0 := by decide
    have first := @writeWords_transferred t dev src 256 (by decide) (by decide) word (by omega)
    rw [atapioWriteSectors, waitForReady_busy enough (by omega), Exec.ok_bind]
    dsimp only
    rw [if_neg notNegative]
    generalize atapioWriteWords (machine dev.extra.portio) dev src 256 t = sector at first ⊢
    have left := first.left
    obtain ⟨t', rest, transferred⟩ := @ih sector first.word (by omega)
    exact ⟨t', rest, Nat.add_comm 1 n ▸ first.trans transferred⟩

/-- A command is nothing that the account knows of. -/
theorem sendCmd_tracked (cmd28 cmd48 : BitVec 8) (lba : BitVec 64) (sectors : BitVec 16)
    (dev : AtaBlockDevice) (t : TrackedDrive) :
    atapioSendCmd (machine dev.extra.portio) cmd28 cmd48 lba sectors dev t =
      (fun result => (result.1, ⟨result.2, t.touched⟩)) <$>
        atapioSendCmd (AtaDrive.machine dev.extra.portio) cmd28 cmd48 lba sectors dev t.drive := by
  unfold atapioSendCmd
  dsimp only
  cases dev.extra.type <;> rfl

theorem flushSectors_tracked {timeoutMs : Nat} (enough : 0 < fuel) :
    atapioFlushSectors (machine dev.extra.portio) fuel timeoutMs dev t =
      .ok (true, ⟨{ t.drive with left := 0 }, t.touched⟩) := by
  obtain ⟨fuel, rfl⟩ := Nat.exists_eq_succ_of_ne_zero (Nat.ne_of_gt enough)
  have flushed : (machine dev.extra.portio).outb 0xE7 (ataRegCommand dev.extra.portio) t =
      ⟨{ t.drive with left := 0 }, t.touched⟩ :=
    congrArg₂ TrackedDrive.mk (outb_command _ _ _) rfl
  have idle : ∀ t : TrackedDrive, t.drive.left = 0 →
      (machine dev.extra.portio).inb (ataRegStatus dev.extra.portio) t = (0x40, t) := by
    intro t none
    simp [machine, AtaDrive.inb, ataRegStatus, AtaDrive.status, none]
  have started : ∀ t, (machine dev.extra.portio).timerStart t = t := fun _ => rfl
  simp only [atapioFlushSectors, atapioFlushLoop, flushed, started, idle]
  rfl

theorem sendCmd_served (cmd28 cmd48 : BitVec 8) (lba sectors : BitVec 64) (dev : AtaBlockDevice)
    (t : TrackedDrive) (bound : lba.toNat < dev.extra.type.reach) (small : sectors.toNat ≤ 256)
    (is28 : cmd28 = 0x20 ∨ cmd28 = 0x30) (is48 : cmd48 = 0x24 ∨ cmd48 = 0x34) :
    ∃ sent t', atapioSendCmd (machine dev.extra.portio) cmd28 cmd48 lba
        (atapioInternalSectors sectors) dev t = .ok (sent, t') ∧ t'.touched = t.touched ∧
      t.drive.Serving t'.drive lba.toNat sectors.toNat := by
  obtain ⟨sent, served, send, serving⟩ :=
    atapioSendCmd_serving cmd28 cmd48 lba sectors dev t.drive bound small is28 is48
  refine ⟨sent, ⟨served, t.touched⟩, ?_, rfl, serving⟩
  rw [sendCmd_tracked, send]
  rfl

theorem Transferred.served {lba : Nat} (transferred : t'.Transferred t'' n)
    (same : t'.touched = t.touched) (serving : t.drive.Serving t'.drive lba m) (sector : Nat) :
    sector ∈ t''.touched ↔ sector ∈ t.touched ∨ lba ≤ sector ∧ sector < lba + n := by
  rw [transferred.touched, same, serving.position]

theorem readLoop_touched (dev : AtaBlockDevice) (fuel : Nat) (lba sectors : BitVec 64)
    (t : TrackedDrive) (dest : Nat → BitVec 8) (enough : sectors.toNat < fuel)
    (inside : lba.toNat + sectors.toNat ≤ dev.extra.type.reach) :
    ∃ t' dest', atapioReadLoop (machine dev.extra.portio) dev fuel lba sectors (t, dest) =
        .ok (0, t', dest') ∧
      ∀ sector, sector ∈ t'.touched ↔
        sector ∈ t.touched ∨ lba.toNat ≤ sector ∧ sector < lba.toNat + sectors.toNat := by
  induction fuel generalizing lba sectors t dest with
  | zero => omega
  | succ fuel ih =>
    have reach := reach_le dev.extra.type
    rw [atapioReadLoop]
    by_cases done : sectors = 0
    · subst done
      refine ⟨t, dest, rfl, fun sector => ?_⟩
      grind
    · have positive : 0 < sectors.toNat := by
        rw [Nat.pos_iff_ne_zero]
        exact fun zero => done (BitVec.eq_of_toNat_eq zero)
      rw [if_neg done]
      dsimp only
      generalize working : (if 256 < sectors then 256 else sectors.setWidth 16 : BitVec 16) = w
      have count : w.toNat = min sectors.toNat 256 := by rw [← working, readWorking_toNat]
      have wide : (w.setWidth 64).toNat = w.toNat := by
        rw [BitVec.toNat_setWidth]
        omega
      obtain ⟨sent, served, send, same, serving⟩ := sendCmd_served 0x20 0x24 lba
        (w.setWidth 64) dev t (by omega) (by omega) (.inl rfl) (.inl rfl)
      have notNegative : ¬ ((sent.toNat : Nat) : Int) < 0 := by omega
      have left := serving.left
      obtain ⟨next, buffer, read, transferred⟩ :=
        @readSectors_transferred served dev dest fuel w.toNat (by omega) serving.word (by omega)
      have nextLba : (lba + w.setWidth 64).toNat = lba.toNat + w.toNat := by
        rw [BitVec.toNat_add, wide]
        omega
      have nextSectors : (sectors - w.setWidth 64).toNat = sectors.toNat - w.toNat := by
        rw [BitVec.toNat_sub_of_le (by rw [BitVec.le_def]; omega), wide]
      obtain ⟨t', dest', rest, touched⟩ := ih (lba + w.setWidth 64) (sectors - w.setWidth 64)
        next buffer (by omega) (by omega)
      refine ⟨t', dest', ?_, fun sector => ?_⟩
      · rw [atapioSendReadCmd, send, Exec.ok_bind]
        dsimp only
        rw [if_neg notNegative, read, Exec.ok_bind]
        exact rest
      · rw [touched, transferred.served same serving, nextLba, nextSectors]
        grind

theorem writeLoop_touched (dev : AtaBlockDevice) (src : Nat → BitVec 8) (fuel : Nat)
    (lba sectors : BitVec 64) (t : TrackedDrive) (enough : sectors.toNat < fuel)
    (inside : lba.toNat + sectors.toNat ≤ dev.extra.type.reach) :
    ∃ t', atapioWriteLoop (machine dev.extra.portio) dev src fuel lba sectors t = .ok (0, t') ∧
      ∀ sector, sector ∈ t'.touched ↔
        sector ∈ t.touched ∨ lba.toNat ≤ sector ∧ sector < lba.toNat + sectors.toNat := by
  induction fuel generalizing lba sectors t with
  | zero => omega
  | succ fuel ih =>
    have reach := reach_le dev.extra.type
    rw [atapioWriteLoop]
    by_cases done : sectors = 0
    · subst done
      refine ⟨t, rfl, fun sector => ?_⟩
      grind
    · have positive : 0 < sectors.toNat := by
        rw [Nat.pos_iff_ne_zero]
        exact fun zero => done (BitVec.eq_of_toNat_eq zero)
      rw [if_neg done]
      dsimp only
      generalize working : (if 256 < sectors then 256 else sectors : BitVec 64) = w
      have count : w.toNat = min sectors.toNat 256 := by rw [← working, writeWorking_toNat]
      obtain ⟨sent, served, send, same, serving⟩ := sendCmd_served 0x30 0x34 lba w dev t
        (by omega) (by omega) (.inr rfl) (.inr rfl)
      have notNegative : ∀ b : Bool, ¬ ((b.toNat : Nat) : Int) < 0 := fun b => by omega
      have left := serving.left
      obtain ⟨next, written, transferred⟩ :=
        @writeSectors_transferred served dev src fuel w.toNat (by omega) serving.word (by omega)
      have nextLba : (lba + w).toNat = lba.toNat + w.toNat := by
        rw [BitVec.toNat_add]
        omega
      have nextSectors : (sectors - w).toNat = sectors.toNat - w.toNat := by
        rw [BitVec.toNat_sub_of_le (by rw [BitVec.le_def]; omega)]
      obtain ⟨t', rest, touched⟩ := ih (lba + w) (sectors - w)
        ⟨{ next.drive with left := 0 }, next.touched⟩ (by omega) (by omega)
      refine ⟨t', ?_, fun sector => ?_⟩
      · rw [atapioSendWriteCmd, send, Exec.ok_bind]
        dsimp only
        rw [if_neg (notNegative sent), written, Exec.ok_bind]
        dsimp only
        rw [flushSectors_tracked (by omega), Exec.ok_bind]
        dsimp only
        rw [if_neg (notNegative true)]
        exact rest
      · rw [touched, transferred.served same serving, nextLba, nextSectors]
        grind

end TrackedDrive

end Dxgmx
