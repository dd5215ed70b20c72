import Dxgmx.Storage.AtapioTransfers

open Library

namespace Dxgmx

/-- A byte and the port that it is written to. -/
abbrev RegisterWrite := BitVec 8 × BitVec 16

/-- The machine with a record of the bytes that are written to registers. -/
def Machine.recorded {σ : Type} (io : Machine σ) : Machine (σ × List RegisterWrite) where
  outb value port s := (io.outb value port s.1, s.2 ++ [(value, port)])
  outw value port s := (io.outw value port s.1, s.2)
  inb port s := ((io.inb port s.1).1, (io.inb port s.1).2, s.2)
  inw port s := ((io.inw port s.1).1, (io.inw port s.1).2, s.2)
  timerStart s := (io.timerStart s.1, s.2)
  timerElapsed s := ((io.timerElapsed s.1).1, (io.timerElapsed s.1).2, s.2)

/-- The first sector and the number of sectors of the transfer that a byte starts. -/
def AtaDrive.started (base : BitVec 16) (write : RegisterWrite) (d : AtaDrive) :
    Option (Nat × Nat) :=
  if write.2 - base ≠ 7 then none
  else if write.1 = 0x20 ∨ write.1 = 0x30 then some (d.lba28, d.count28)
  else if write.1 = 0x24 ∨ write.1 = 0x34 then some (d.lba48, d.count48)
  else none

/-- The transfers that a drive takes out of the bytes. -/
def AtaDrive.commands (base : BitVec 16) : List RegisterWrite → AtaDrive → List (Nat × Nat)
  | [], _ => []
  | write :: writes, d =>
    (d.started base write).toList ++ (d.outb base write.1 write.2).commands base writes

attribute [grind =] AtaDrive.started AtaDrive.commands

/-- Transfers of up to 256 sectors, one behind the other, that cover the `n` sectors from `lba` on. -/
def Covers : (lba n : Nat) → List (Nat × Nat) → Prop
  | _, n, [] => n = 0
  | lba, n, (first, count) :: rest =>
    first = lba ∧ count ≤ 256 ∧ count ≤ n ∧ Covers (lba + count) (n - count) rest

/-- Every wait and every flush ends, after no more than a fixed number of polls. -/
def Machine.Prompt {σ : Type} (io : Machine σ) (dev : AtaBlockDevice) : Prop :=
  ∃ polls, ∀ fuel, polls ≤ fuel → ∀ s,
    (∃ ended, atapioWaitForReady io fuel 200 dev s = .ok ended) ∧
      ∃ ended, atapioFlushSectors io fuel 200 dev s = .ok ended

section Decode

variable (base : BitVec 16) (value : BitVec 8) (d : AtaDrive) (writes : List RegisterWrite)

theorem commands_count : d.commands base ((value, ataRegSector base) :: writes) =
    AtaDrive.commands base writes { d with count := pushByte d.count value } := by
  rw [← outb_count base value d]
  simp only [AtaDrive.commands, AtaDrive.started, ataRegSector, reg_offset]
  rfl

theorem commands_lbaLo : d.commands base ((value, ataRegLbaLo base) :: writes) =
    AtaDrive.commands base writes { d with lbaLo := pushByte d.lbaLo value } := by
  rw [← outb_lbaLo base value d]
  simp only [AtaDrive.commands, AtaDrive.started, ataRegLbaLo, reg_offset]
  rfl

theorem commands_lbaMid : d.commands base ((value, ataRegLbaMid base) :: writes) =
    AtaDrive.commands base writes { d with lbaMid := pushByte d.lbaMid value } := by
  rw [← outb_lbaMid base value d]
  simp only [AtaDrive.commands, AtaDrive.started, ataRegLbaMid, reg_offset]
  rfl

theorem commands_lbaHi : d.commands base ((value, ataRegLbaHi base) :: writes) =
    AtaDrive.commands base writes { d with lbaHi := pushByte d.lbaHi value } := by
  rw [← outb_lbaHi base value d]
  simp only [AtaDrive.commands, AtaDrive.started, ataRegLbaHi, reg_offset]
  rfl

theorem commands_driveSel : d.commands base ((value, ataRegDriveSel base) :: writes) =
    AtaDrive.commands base writes { d with driveSel := value } := by
  rw [← outb_driveSel base value d]
  simp only [AtaDrive.commands, AtaDrive.started, ataRegDriveSel, reg_offset]
  rfl

theorem commands_28 (is28 : value = 0x20 ∨ value = 0x30) :
    d.commands base ((value, ataRegCommand base) :: writes) =
      (d.lba28, d.count28) :: AtaDrive.commands base writes (d.command value) := by
  rw [← outb_command base value d]
  simp only [AtaDrive.commands, AtaDrive.started, ataRegCommand, reg_offset, is28]
  rfl

theorem commands_48 (is48 : value = 0x24 ∨ value = 0x34) :
    d.commands base ((value, ataRegCommand base) :: writes) =
      (d.lba48, d.count48) :: AtaDrive.commands base writes (d.command value) := by
  have not28 : ¬ (value = 0x20 ∨ value = 0x30) := by
    rcases is48 with rfl | rfl <;> decide
  rw [← outb_command base value d]
  simp only [AtaDrive.commands, AtaDrive.started, ataRegCommand, reg_offset, not28, is48]
  rfl

theorem commands_flush : d.commands base ((0xE7, ataRegCommand base) :: writes) =
    AtaDrive.commands base writes (d.command 0xE7) := by
  rw [← outb_command base 0xE7 d]
  simp only [AtaDrive.commands, AtaDrive.started, ataRegCommand, reg_offset]
  rfl

end Decode

section Send

variable {σ : Type} {io : Machine σ} {dev : AtaBlockDevice}

/-- How many sectors a command transfers that is sent for `sectors` of them. -/
def AtaType.transferred (type : AtaType) (sectors : Nat) : Nat :=
  if type = .lba48 ∧ sectors = 256 then 65536 else sectors

theorem transferred_lba28 (n : Nat) : AtaType.lba28.transferred n = n := by
  simp [AtaType.transferred]

theorem transferred_lba48 (n : Nat) :
    AtaType.lba48.transferred n = if n = 256 then 65536 else n := by
  simp [AtaType.transferred]

theorem atapioSendCmd_recorded (cmd28 cmd48 : BitVec 8) {lba sectors : BitVec 64}
    (bound : lba.toNat < dev.extra.type.reach) (some_ : 0 < sectors.toNat)
    (small : sectors.toNat ≤ 256) (is28 : cmd28 = 0x20 ∨ cmd28 = 0x30)
    (is48 : cmd48 = 0x24 ∨ cmd48 = 0x34) (s : σ) (log : List RegisterWrite) :
    ∃ sent s' writes, atapioSendCmd io.recorded cmd28 cmd48 lba (atapioInternalSectors sectors) dev
        (s, log) = .ok (sent, (s', log ++ writes)) ∧
      ∀ (d : AtaDrive) (rest : List RegisterWrite), ∃ d' : AtaDrive,
        d.commands dev.extra.portio (writes ++ rest) =
          (lba.toNat, dev.extra.type.transferred sectors.toNat) ::
            d'.commands dev.extra.portio rest := by
  have low := internalSectors_low small
  cases type : dev.extra.type with
  | unknown =>
    rw [type] at bound
    exact absurd bound (Nat.not_lt_zero _)
  | chs =>
    rw [type] at bound
    exact absurd bound (Nat.not_lt_zero _)
  | lba28 =>
    rw [type] at bound
    simp only [atapioSendCmd, type, Machine.recorded, List.append_assoc, List.cons_append,
      List.nil_append]
    refine ⟨_, _, _, rfl, fun d rest => ?_⟩
    simp only [List.cons_append, List.nil_append, commands_driveSel, commands_count,
      commands_lbaLo, commands_lbaMid, commands_lbaHi, commands_28 _ _ _ _ is28]
    refine ⟨_, congrArg₂ List.cons (Prod.ext (lba28_eq bound rfl rfl rfl rfl) ?_) rfl⟩
    simp only [AtaDrive.count28, pushByte_low, low, transferred_lba28]
    split <;> omega
  | lba48 =>
    rw [type] at bound
    have high := internalSectors_high small
    simp only [atapioSendCmd, type, Machine.recorded, List.append_assoc, List.cons_append,
      List.nil_append]
    refine ⟨_, _, _, rfl, fun d rest => ?_⟩
    simp only [List.cons_append, List.nil_append, commands_driveSel, commands_count,
      commands_lbaLo, commands_lbaMid, commands_lbaHi, commands_48 _ _ _ _ is48]
    refine ⟨_, congrArg₂ List.cons (Prod.ext (lba48_eq bound rfl rfl rfl) ?_) rfl⟩
    simp only [AtaDrive.count48, pushByte_twice, high, low, transferred_lba48]
    split_ifs <;> omega

variable {fuel left timeoutMs : Nat} {src : Nat → BitVec 8} {s : σ} {log : List RegisterWrite}

theorem atapioReadyLoop_succ (io : Machine σ) (s : σ) :
    atapioReadyLoop io timeoutMs dev (fuel + 1) s =
      if timeoutMs * 1000000 < (io.timerElapsed s).1 then .ok (false, (io.timerElapsed s).2)
      else
        let polled := io.inb (ataRegStatus dev.extra.portio) (io.timerElapsed s).2
        if polled.1 &&& ataStatusBsy = 0 ∧ polled.1 &&& ataStatusDrq ≠ 0 then .ok (true, polled.2)
        else if polled.1 &&& ataStatusErr ≠ 0 ∨ polled.1 &&& ataStatusDf ≠ 0 then
          .ok (false, (io.inb (ataRegErr dev.extra.portio) polled.2).2)
        else atapioReadyLoop io timeoutMs dev fuel polled.2 := rfl

/-- A wait writes no register. -/
theorem atapioReadyLoop_recorded :
    atapioReadyLoop io.recorded timeoutMs dev fuel (s, log) =
      (atapioReadyLoop io timeoutMs dev fuel s).map fun ended => (ended.1, ended.2, log) := by
  induction fuel generalizing s with
  | zero => rfl
  | succ fuel ih =>
    rw [atapioReadyLoop_succ, atapioReadyLoop_succ]
    by_cases late : timeoutMs * 1000000 < (io.timerElapsed s).1
    · rw [if_pos late]
      exact if_pos late
    · rw [if_neg late]
      refine (if_neg late).trans ?_
      generalize polls : io.inb (ataRegStatus dev.extra.portio) (io.timerElapsed s).2 = polled
      have same : io.recorded.inb (ataRegStatus dev.extra.portio)
          (io.recorded.timerElapsed (s, log)).2 = (polled.1, polled.2, log) := by
        rw [← polls]
        rfl
      rw [same]
      dsimp only
      split_ifs
      · rfl
      · rfl
      · exact ih

theorem atapioWaitForReady_recorded :
    atapioWaitForReady io.recorded fuel timeoutMs dev (s, log) =
      (atapioWaitForReady io fuel timeoutMs dev s).map fun ended => (ended.1, ended.2, log) :=
  atapioReadyLoop_recorded

theorem atapioFlushLoop_succ (io : Machine σ) (s : σ) :
    atapioFlushLoop io timeoutMs dev (fuel + 1) s =
      let polled := io.inb (ataRegStatus dev.extra.portio) s
      if polled.1 &&& ataStatusBsy ≠ 0 then
        if timeoutMs * 1000000 < (io.timerElapsed polled.2).1 then
          .ok (false, (io.timerElapsed polled.2).2)
        else atapioFlushLoop io timeoutMs dev fuel (io.timerElapsed polled.2).2
      else .ok (true, polled.2) := rfl

theorem atapioFlushLoop_recorded :
    atapioFlushLoop io.recorded timeoutMs dev fuel (s, log) =
      (atapioFlushLoop io timeoutMs dev fuel s).map fun ended => (ended.1, ended.2, log) := by
  induction fuel generalizing s with
  | zero => rfl
  | succ fuel ih =>
    rw [atapioFlushLoop_succ, atapioFlushLoop_succ]
    by_cases busy : (io.inb (ataRegStatus dev.extra.portio) s).1 &&& ataStatusBsy ≠ 0
    · rw [if_pos busy]
      refine (if_pos busy).trans ?_
      generalize reads : io.timerElapsed (io.inb (ataRegStatus dev.extra.portio) s).2 = read
      have same : io.recorded.timerElapsed
          (io.recorded.inb (ataRegStatus dev.extra.portio) (s, log)).2 = (read.1, read.2, log) := by
        rw [← reads]
        rfl
      rw [same]
      dsimp only
      split_ifs
      · rfl
      · exact ih
    · rw [if_neg busy]
      exact if_neg busy

theorem atapioFlushSectors_recorded :
    atapioFlushSectors io.recorded fuel timeoutMs dev (s, log) =
      (atapioFlushSectors io fuel timeoutMs dev s).map fun ended =>
        (ended.1, ended.2, log ++ [(0xE7, ataRegCommand dev.extra.portio)]) :=
  atapioFlushLoop_recorded

theorem atapioReadWords_recorded (dest : Nat → BitVec 8) :
    ((atapioReadWords io.recorded dev left ((s, log), dest)).1).2 = log := by
  induction left generalizing s dest with
  | zero => rfl
  | succ left ih => exact ih _

theorem atapioWriteWords_recorded :
    (atapioWriteWords io.recorded dev src left (s, log)).2 = log := by
  induction left generalizing s with
  | zero => rfl
  | succ left ih => exact ih

theorem ok_map {α β : Type} (f : α → β) (a : α) : Except.map f (.ok a : Exec α) = .ok (f a) := rfl

theorem atapioReadSectors_recorded {state : (σ × List RegisterWrite) × (Nat → BitVec 8)}
    {done : Option Int × (σ × List RegisterWrite) × (Nat → BitVec 8)}
    (ended : atapioReadSectors io.recorded fuel dev left state = .ok done) :
    done.1 = none ∧ done.2.1.2 = state.1.2 := by
  induction left generalizing state with
  | zero =>
    cases ended
    exact ⟨rfl, rfl⟩
  | succ left ih =>
    obtain ⟨⟨s, log⟩, dest⟩ := state
    unfold atapioReadSectors at ended
    rw [atapioWaitForReady_recorded] at ended
    cases waited : atapioWaitForReady io fuel 200 dev s with
    | error stop =>
      rw [waited] at ended
      cases ended
    | ok polled =>
      rw [waited, ok_map, Exec.ok_bind] at ended
      dsimp only at ended
      rw [if_neg (Int.not_lt.mpr (Int.natCast_nonneg _))] at ended
      obtain ⟨none_, same⟩ := ih ended
      exact ⟨none_, same.trans (atapioReadWords_recorded dest)⟩

theorem atapioReadSectors_returns
    (prompt : ∀ s, ∃ ended, atapioWaitForReady io fuel 200 dev s = .ok ended)
    (state : (σ × List RegisterWrite) × (Nat → BitVec 8)) :
    ∃ done, atapioReadSectors io.recorded fuel dev left state = .ok done := by
  induction left generalizing state with
  | zero => exact ⟨_, rfl⟩
  | succ left ih =>
    obtain ⟨⟨s, log⟩, dest⟩ := state
    obtain ⟨polled, waited⟩ := prompt s
    unfold atapioReadSectors
    rw [atapioWaitForReady_recorded, waited, ok_map, Exec.ok_bind]
    dsimp only
    rw [if_neg (Int.not_lt.mpr (Int.natCast_nonneg _))]
    exact ih _

theorem atapioWriteSectors_recorded {state : σ × List RegisterWrite}
    {done : Option Int × σ × List RegisterWrite}
    (ended : atapioWriteSectors io.recorded fuel dev src left state = .ok done) :
    done.1 = none ∧ done.2.2 = state.2 := by
  induction left generalizing state with
  | zero =>
    cases ended
    exact ⟨rfl, rfl⟩
  | succ left ih =>
    obtain ⟨s, log⟩ := state
    unfold atapioWriteSectors at ended
    rw [atapioWaitForReady_recorded] at ended
    cases waited : atapioWaitForReady io fuel 200 dev s with
    | error stop =>
      rw [waited] at ended
      cases ended
    | ok polled =>
      rw [waited, ok_map, Exec.ok_bind] at ended
      dsimp only at ended
      rw [if_neg (Int.not_lt.mpr (Int.natCast_nonneg _))] at ended
      obtain ⟨none_, same⟩ := ih ended
      exact ⟨none_, same.trans atapioWriteWords_recorded⟩

theorem atapioWriteSectors_returns
    (prompt : ∀ s, ∃ ended, atapioWaitForReady io fuel 200 dev s = .ok ended)
    (state : σ × List RegisterWrite) :
    ∃ done, atapioWriteSectors io.recorded fuel dev src left state = .ok done := by
  induction left generalizing state with
  | zero => exact ⟨_, rfl⟩
  | succ left ih =>
    obtain ⟨s, log⟩ := state
    obtain ⟨polled, waited⟩ := prompt s
    unfold atapioWriteSectors
    rw [atapioWaitForReady_recorded, waited, ok_map, Exec.ok_bind]
    dsimp only
    rw [if_neg (Int.not_lt.mpr (Int.natCast_nonneg _))]
    exact ih _

/-- The commands for `n` sectors are right. -/
def CommandsRight (dev : AtaBlockDevice) (n : Nat) : Prop := dev.extra.type = .lba28 ∨ n < 256

/-- One command, and the commands for the rest. -/
theorem covers_first {lba n : Nat} (some_ : 0 < n) {rest : List (Nat × Nat)}
    (later : Covers (lba + min n 256) (n - min n 256) rest ↔ CommandsRight dev (n - min n 256))
    (reach : lba < dev.extra.type.reach) :
    Covers lba n ((lba, dev.extra.type.transferred (min n 256)) :: rest) ↔ CommandsRight dev n := by
  unfold CommandsRight at later ⊢
  cases type : dev.extra.type with
  | unknown =>
    rw [type] at reach
    exact absurd reach (Nat.not_lt_zero _)
  | chs =>
    rw [type] at reach
    exact absurd reach (Nat.not_lt_zero _)
  | lba28 =>
    rw [transferred_lba28]
    rw [type] at later
    refine iff_of_true ⟨rfl, by omega, by omega, later.mpr (.inl rfl)⟩ (.inl rfl)
  | lba48 =>
    rw [transferred_lba48]
    rw [type] at later
    by_cases full : min n 256 = 256
    · rw [if_pos full]
      refine iff_of_false (fun covers => ?_) fun right => ?_
      · have most := covers.2.1
        omega
      · rcases right with other | less
        · cases other
        · omega
    · rw [if_neg full]
      refine iff_of_true ⟨rfl, by omega, by omega, later.mpr (.inr ?_)⟩ (.inr ?_)
      · omega
      · omega

theorem working_next {lba sectors working : BitVec 64}
    (inside : lba.toNat + sectors.toNat ≤ dev.extra.type.reach)
    (count : working.toNat = min sectors.toNat 256) :
    (lba + working).toNat = lba.toNat + min sectors.toNat 256 ∧
      (sectors - working).toNat = sectors.toNat - min sectors.toNat 256 := by
  have reach := reach_le dev.extra.type
  constructor
  · rw [BitVec.toNat_add, count]
    omega
  · rw [BitVec.toNat_sub_of_le (by rw [BitVec.le_def]; omega), count]

/-- A round of the loop sends a command, transfers its sectors and goes on behind them. -/
theorem atapioReadLoop_round {lba sectors : BitVec 64} (some_ : 0 < sectors.toNat)
    (inside : lba.toNat + sectors.toNat ≤ dev.extra.type.reach) (s : σ) (log : List RegisterWrite)
    (dest : Nat → BitVec 8) :
    ∃ s₁ writes, ∃ working : BitVec 64, working.toNat = min sectors.toNat 256 ∧
      (∀ (d : AtaDrive) (rest : List RegisterWrite), ∃ d' : AtaDrive,
        d.commands dev.extra.portio (writes ++ rest) =
          (lba.toNat, dev.extra.type.transferred (min sectors.toNat 256)) ::
            d'.commands dev.extra.portio rest) ∧
      ∀ result, atapioReadLoop io.recorded dev (fuel + 1) lba sectors ((s, log), dest) = .ok result ↔
        ∃ done, atapioReadSectors io.recorded fuel dev (min sectors.toNat 256)
            ((s₁, log ++ writes), dest) = .ok done ∧
          atapioReadLoop io.recorded dev fuel (lba + working) (sectors - working) done.2 =
            .ok result := by
  have some_left : sectors ≠ 0 := by
    rintro rfl
    exact Nat.lt_irrefl 0 some_
  generalize working : (if 256 < sectors then 256 else sectors.setWidth 16 : BitVec 16) = w
  have count : w.toNat = min sectors.toNat 256 := by rw [← working, readWorking_toNat]
  have wide : (w.setWidth 64).toNat = min sectors.toNat 256 := by
    rw [BitVec.toNat_setWidth]
    omega
  obtain ⟨sent, s₁, writes, sending, decoded⟩ := @atapioSendCmd_recorded σ io dev 0x20 0x24 lba
    (w.setWidth 64) (by omega) (by omega) (by omega) (.inl rfl) (.inl rfl) s log
  rw [wide] at decoded
  refine ⟨s₁, writes, w.setWidth 64, wide, decoded, fun result => ?_⟩
  conv => lhs; unfold atapioReadLoop
  rw [if_neg some_left, working]
  dsimp only
  rw [atapioSendReadCmd, sending, Exec.ok_bind]
  dsimp only
  rw [if_neg (Int.not_lt.mpr (Int.natCast_nonneg _)), count, Exec.bind_ok]
  apply exists_congr
  rintro ⟨ret, s₂, dest₂⟩
  apply and_congr_right
  intro read
  obtain ⟨none_, -⟩ := atapioReadSectors_recorded read
  obtain rfl : ret = none := none_
  exact Iff.rfl

theorem atapioReadLoop_commands {lba sectors : BitVec 64}
    {state : (σ × List RegisterWrite) × (Nat → BitVec 8)}
    {result : Int × (σ × List RegisterWrite) × (Nat → BitVec 8)}
    (inside : lba.toNat + sectors.toNat ≤ dev.extra.type.reach)
    (ended : atapioReadLoop io.recorded dev fuel lba sectors state = .ok result) :
    ∃ writes, result.2.1.2 = state.1.2 ++ writes ∧ ∀ d : AtaDrive,
      Covers lba.toNat sectors.toNat (d.commands dev.extra.portio writes) ↔
        CommandsRight dev sectors.toNat := by
  induction fuel generalizing lba sectors state with
  | zero => cases ended
  | succ fuel ih =>
    obtain ⟨⟨s, log⟩, dest⟩ := state
    rcases Nat.eq_zero_or_pos sectors.toNat with none_left | some_
    · obtain rfl : sectors = 0 := BitVec.eq_of_toNat_eq none_left
      unfold atapioReadLoop at ended
      rw [if_pos rfl] at ended
      cases ended
      exact ⟨[], (List.append_nil log).symm, fun d => iff_of_true rfl (.inr (by decide))⟩
    · obtain ⟨s₁, writes, working, count, decoded, round⟩ :=
        atapioReadLoop_round some_ inside s log dest
      obtain ⟨done, read, rest⟩ := (round result).mp ended
      obtain ⟨nextLba, nextSectors⟩ := working_next inside count
      obtain ⟨more, log', later⟩ := ih (by omega) rest
      rw [(atapioReadSectors_recorded read).2] at log'
      rw [nextLba, nextSectors] at later
      refine ⟨writes ++ more, log'.trans (List.append_assoc _ _ _), fun d => ?_⟩
      obtain ⟨d', first⟩ := decoded d more
      rw [first]
      exact covers_first some_ (later d') (by omega)

theorem atapioReadLoop_returns {lba sectors : BitVec 64} {polls : Nat}
    (prompt : ∀ fuel, polls ≤ fuel → ∀ s,
      ∃ ended, atapioWaitForReady io fuel 200 dev s = .ok ended)
    (inside : lba.toNat + sectors.toNat ≤ dev.extra.type.reach)
    (enough : polls + sectors.toNat < fuel) (state : (σ × List RegisterWrite) × (Nat → BitVec 8)) :
    ∃ result, atapioReadLoop io.recorded dev fuel lba sectors state = .ok result := by
  induction fuel generalizing lba sectors state with
  | zero => omega
  | succ fuel ih =>
    obtain ⟨⟨s, log⟩, dest⟩ := state
    rcases Nat.eq_zero_or_pos sectors.toNat with none_left | some_
    · obtain rfl : sectors = 0 := BitVec.eq_of_toNat_eq none_left
      unfold atapioReadLoop
      rw [if_pos rfl]
      exact ⟨_, rfl⟩
    · obtain ⟨s₁, writes, working, count, -, round⟩ :=
        atapioReadLoop_round some_ inside s log dest
      obtain ⟨nextLba, nextSectors⟩ := working_next inside count
      obtain ⟨done, read⟩ := atapioReadSectors_returns (prompt fuel (by omega))
        ((s₁, log ++ writes), dest)
      obtain ⟨result, rest⟩ := @ih (lba + working) (sectors - working) (by omega) (by omega) done.2
      exact ⟨result, (round result).mpr ⟨done, read, rest⟩⟩

/-- The same for the loop of a write, which flushes before it goes on. -/
theorem atapioWriteLoop_round {lba sectors : BitVec 64} (some_ : 0 < sectors.toNat)
    (inside : lba.toNat + sectors.toNat ≤ dev.extra.type.reach) (s : σ) (log : List RegisterWrite) :
    ∃ s₁ writes, ∃ working : BitVec 64, working.toNat = min sectors.toNat 256 ∧
      (∀ (d : AtaDrive) (rest : List RegisterWrite), ∃ d' : AtaDrive,
        d.commands dev.extra.portio (writes ++ rest) =
          (lba.toNat, dev.extra.type.transferred (min sectors.toNat 256)) ::
            d'.commands dev.extra.portio rest) ∧
      ∀ result, atapioWriteLoop io.recorded dev src (fuel + 1) lba sectors (s, log) = .ok result ↔
        ∃ done, atapioWriteSectors io.recorded fuel dev src (min sectors.toNat 256)
            (s₁, log ++ writes) = .ok done ∧
          ∃ flushed, atapioFlushSectors io.recorded fuel 200 dev done.2 = .ok flushed ∧
            atapioWriteLoop io.recorded dev src fuel (lba + working) (sectors - working) flushed.2 =
              .ok result := by
  have some_left : sectors ≠ 0 := by
    rintro rfl
    exact Nat.lt_irrefl 0 some_
  generalize working : (if 256 < sectors then 256 else sectors : BitVec 64) = w
  have count : w.toNat = min sectors.toNat 256 := by rw [← working, writeWorking_toNat]
  obtain ⟨sent, s₁, writes, sending, decoded⟩ := @atapioSendCmd_recorded σ io dev 0x30 0x34 lba
    w (by omega) (by omega) (by omega) (.inr rfl) (.inr rfl) s log
  rw [count] at decoded
  refine ⟨s₁, writes, w, count, decoded, fun result => ?_⟩
  conv => lhs; unfold atapioWriteLoop
  rw [if_neg some_left, working]
  dsimp only
  rw [atapioSendWriteCmd, sending, Exec.ok_bind]
  dsimp only
  rw [if_neg (Int.not_lt.mpr (Int.natCast_nonneg _)), count, Exec.bind_ok]
  apply exists_congr
  rintro ⟨ret, s₂⟩
  apply and_congr_right
  intro written
  obtain ⟨none_, -⟩ := atapioWriteSectors_recorded written
  obtain rfl : ret = none := none_
  dsimp only
  rw [Exec.bind_ok]
  apply exists_congr
  intro flushed
  rw [if_neg (Int.not_lt.mpr (Int.natCast_nonneg _))]

theorem atapioFlushSectors_writes {state : σ × List RegisterWrite}
    {flushed : Bool × σ × List RegisterWrite}
    (ended : atapioFlushSectors io.recorded fuel 200 dev state = .ok flushed) :
    flushed.2.2 = state.2 ++ [(0xE7, ataRegCommand dev.extra.portio)] := by
  obtain ⟨s, log⟩ := state
  rw [atapioFlushSectors_recorded] at ended
  cases flushes : atapioFlushSectors io fuel 200 dev s with
  | error stop =>
    rw [flushes] at ended
    cases ended
  | ok done =>
    rw [flushes] at ended
    cases ended
    rfl

theorem atapioWriteLoop_commands {lba sectors : BitVec 64} {state : σ × List RegisterWrite}
    {result : Int × σ × List RegisterWrite}
    (inside : lba.toNat + sectors.toNat ≤ dev.extra.type.reach)
    (ended : atapioWriteLoop io.recorded dev src fuel lba sectors state = .ok result) :
    ∃ writes, result.2.2 = state.2 ++ writes ∧ ∀ d : AtaDrive,
      Covers lba.toNat sectors.toNat (d.commands dev.extra.portio writes) ↔
        CommandsRight dev sectors.toNat := by
  induction fuel generalizing lba sectors state with
  | zero => cases ended
  | succ fuel ih =>
    obtain ⟨s, log⟩ := state
    rcases Nat.eq_zero_or_pos sectors.toNat with none_left | some_
    · obtain rfl : sectors = 0 := BitVec.eq_of_toNat_eq none_left
      unfold atapioWriteLoop at ended
      rw [if_pos rfl] at ended
      cases ended
      exact ⟨[], (List.append_nil log).symm, fun d => iff_of_true rfl (.inr (by decide))⟩
    · obtain ⟨s₁, writes, working, count, decoded, round⟩ :=
        atapioWriteLoop_round some_ inside s log
      obtain ⟨done, written, flushed, flushes, rest⟩ := (round result).mp ended
      obtain ⟨nextLba, nextSectors⟩ := working_next inside count
      obtain ⟨more, log', later⟩ := ih (by omega) rest
      rw [atapioFlushSectors_writes flushes, (atapioWriteSectors_recorded written).2,
        List.append_assoc, List.append_assoc] at log'
      rw [nextLba, nextSectors] at later
      refine ⟨_, log', fun d => ?_⟩
      obtain ⟨d', first⟩ := decoded d ((0xE7, ataRegCommand dev.extra.portio) :: more)
      show Covers _ _ (d.commands dev.extra.portio
        (writes ++ (0xE7, ataRegCommand dev.extra.portio) :: more)) ↔ _
      rw [first, commands_flush]
      exact covers_first some_ (later _) (by omega)

theorem atapioWriteLoop_returns {lba sectors : BitVec 64} {polls : Nat}
    (prompt : ∀ fuel, polls ≤ fuel → ∀ s,
      (∃ ended, atapioWaitForReady io fuel 200 dev s = .ok ended) ∧
        ∃ ended, atapioFlushSectors io fuel 200 dev s = .ok ended)
    (inside : lba.toNat + sectors.toNat ≤ dev.extra.type.reach)
    (enough : polls + sectors.toNat < fuel) (state : σ × List RegisterWrite) :
    ∃ result, atapioWriteLoop io.recorded dev src fuel lba sectors state = .ok result := by
  induction fuel generalizing lba sectors state with
  | zero => omega
  | succ fuel ih =>
    obtain ⟨s, log⟩ := state
    rcases Nat.eq_zero_or_pos sectors.toNat with none_left | some_
    · obtain rfl : sectors = 0 := BitVec.eq_of_toNat_eq none_left
      unfold atapioWriteLoop
      rw [if_pos rfl]
      exact ⟨_, rfl⟩
    · obtain ⟨s₁, writes, working, count, -, round⟩ :=
        @atapioWriteLoop_round σ io dev fuel src lba sectors some_ inside s log
      obtain ⟨nextLba, nextSectors⟩ := working_next inside count
      obtain ⟨done, written⟩ := @atapioWriteSectors_returns σ io dev fuel (min sectors.toNat 256) src
        (fun s => (prompt fuel (by omega) s).1) (s₁, log ++ writes)
      obtain ⟨ended, flushes⟩ := (prompt fuel (by omega) done.2.1).2
      have recorded := @atapioFlushSectors_recorded σ io dev fuel 200 done.2.1 done.2.2
      rw [flushes, ok_map] at recorded
      obtain ⟨result, rest⟩ := @ih (lba + working) (sectors - working) (by omega) (by omega) _
      exact ⟨result, (round result).mpr ⟨done, written, _, recorded, rest⟩⟩

end Send

variable {σ : Type}

theorem valid_inside {dev : AtaBlockDevice} {lba sectors : BitVec 64}
    (valid : atapioIsValidRange lba sectors dev = true) :
    lba.toNat + sectors.toNat ≤ dev.extra.type.reach := by
  have addressable := dev.addressable
  unfold atapioIsValidRange at valid
  split at valid
  · cases valid
  · rename_i before
    have start : lba.toNat ≤ dev.sectorCount.toNat := Nat.not_lt.mp fun less => before (.inl less)
    have room := of_decide_eq_true valid
    rw [BitVec.le_def, BitVec.toNat_sub_of_le start] at room
    omega

section Calls

variable {io : Machine σ} {dev : AtaBlockDevice} {lba sectors : BitVec 64} {fuel : Nat} {ret : Int}
variable {dest dest' src : Nat → BitVec 8} {s s' : σ} {writes : List RegisterWrite}

theorem atapioRead_commands (valid : atapioIsValidRange lba sectors dev = true)
    (ended : atapioRead io.recorded fuel dev lba sectors dest (s, []) =
      .ok (ret, (s', writes), dest')) (d : AtaDrive) :
    Covers lba.toNat sectors.toNat (d.commands dev.extra.portio writes) ↔
      CommandsRight dev sectors.toNat := by
  unfold atapioRead at ended
  rw [if_pos valid] at ended
  obtain ⟨all, same, right⟩ := atapioReadLoop_commands (valid_inside valid) ended
  obtain rfl : writes = all := same
  exact right d

theorem atapioWrite_commands (valid : atapioIsValidRange lba sectors dev = true)
    (ended : atapioWrite io.recorded fuel dev lba sectors src (s, []) = .ok (ret, (s', writes)))
    (d : AtaDrive) :
    Covers lba.toNat sectors.toNat (d.commands dev.extra.portio writes) ↔
      CommandsRight dev sectors.toNat := by
  unfold atapioWrite at ended
  rw [if_pos valid] at ended
  obtain ⟨all, same, right⟩ := atapioWriteLoop_commands (valid_inside valid) ended
  obtain rfl : writes = all := same
  exact right d

theorem atapio_returns (valid : atapioIsValidRange lba sectors dev = true) (prompt : io.Prompt dev)
    (dest src : Nat → BitVec 8) (s : σ) :
    (∃ fuel ret s' writes dest', atapioRead io.recorded fuel dev lba sectors dest (s, []) =
      .ok (ret, (s', writes), dest')) ∧
    ∃ fuel ret s' writes, atapioWrite io.recorded fuel dev lba sectors src (s, []) =
      .ok (ret, (s', writes)) := by
  obtain ⟨polls, prompt⟩ := prompt
  have inside := valid_inside valid
  have enough : polls + sectors.toNat < polls + sectors.toNat + 1 := Nat.lt_succ_self _
  unfold atapioRead atapioWrite
  simp only [if_pos valid]
  constructor
  · obtain ⟨read, reads⟩ := atapioReadLoop_returns (fun fuel most s => (prompt fuel most s).1)
      inside enough ((s, []), dest)
    exact ⟨_, _, _, _, _, reads⟩
  · obtain ⟨written, writes⟩ := @atapioWriteLoop_returns σ io dev _ src lba sectors polls prompt
      inside enough (s, [])
    exact ⟨_, _, _, _, writes⟩

end Calls

/-- The commands of a read and of a write are right exactly if none of them is for 256 sectors of an
    LBA48 device. On a prompt machine both calls return. -/
theorem commands_right_iff (io : Machine σ) (dev : AtaBlockDevice) (d : AtaDrive)
    (lba sectors : BitVec 64) (dest src : Nat → BitVec 8) (s : σ)
    (valid : atapioIsValidRange lba sectors dev = true) :
    (∀ fuel ret s' writes dest',
      atapioRead io.recorded fuel dev lba sectors dest (s, []) = .ok (ret, (s', writes), dest') →
        (Covers lba.toNat sectors.toNat (d.commands dev.extra.portio writes) ↔
          dev.extra.type = .lba28 ∨ sectors.toNat < 256)) ∧
    (∀ fuel ret s' writes,
      atapioWrite io.recorded fuel dev lba sectors src (s, []) = .ok (ret, (s', writes)) →
        (Covers lba.toNat sectors.toNat (d.commands dev.extra.portio writes) ↔
          dev.extra.type = .lba28 ∨ sectors.toNat < 256)) ∧
    (io.Prompt dev →
      (∃ fuel ret s' writes dest', atapioRead io.recorded fuel dev lba sectors dest (s, []) =
        .ok (ret, (s', writes), dest')) ∧
      ∃ fuel ret s' writes, atapioWrite io.recorded fuel dev lba sectors src (s, []) =
        .ok (ret, (s', writes))) :=
  ⟨fun _ _ _ _ _ ended => atapioRead_commands valid ended d,
    fun _ _ _ _ ended => atapioWrite_commands valid ended d,
    fun prompt => atapio_returns valid prompt dest src s⟩

/-- A drive that is always ready. -/
def readyDrive : Machine Unit where
  outb _ _ := id
  outw _ _ := id
  inb _ s := (ataStatusDrq, s)
  inw _ s := (0, s)
  timerStart := id
  timerElapsed s := (0, s)

theorem readyDrive_prompt (dev : AtaBlockDevice) : readyDrive.Prompt dev := by
  refine ⟨1, fun fuel some_ s => ?_⟩
  obtain ⟨fuel, rfl⟩ := Nat.exists_eq_add_of_lt some_
  rw [Nat.zero_add]
  have idle : ¬ ataStatusDrq &&& ataStatusBsy ≠ 0 := by decide
  exact ⟨⟨_, rfl⟩, ⟨_, if_neg idle⟩⟩

theorem commands_right_five : ∃ fuel ret s' writes dest',
    atapioRead readyDrive.recorded fuel eightSectors 3 5 (fun _ => 0) ((), []) =
        .ok (ret, (s', writes), dest') ∧
      Covers 3 5 (numberedDrive.commands 0x1F0 writes) := by
  obtain ⟨right, -, returns⟩ := commands_right_iff readyDrive eightSectors numberedDrive 3 5
    (fun _ => 0) (fun _ => 0) () (by decide)
  obtain ⟨⟨fuel, ret, s', writes, dest', read⟩, -⟩ := returns (readyDrive_prompt eightSectors)
  exact ⟨fuel, ret, s', writes, dest', read, (right fuel ret s' writes dest' read).mpr (.inl rfl)⟩

def largeDisk : AtaBlockDevice where
  sectorCount := 1000
  extra := { portio := 0x1F0, master := true, type := .lba48 }
  addressable := by decide

/-- The command for 256 sectors of an LBA48 device is one for 65536. -/
theorem not_commands_right_large :
    (∃ fuel ret s' writes dest',
      atapioRead readyDrive.recorded fuel largeDisk 0 256 (fun _ => 0) ((), []) =
          .ok (ret, (s', writes), dest') ∧
        ¬ Covers 0 256 (numberedDrive.commands 0x1F0 writes)) ∧
    ∃ fuel ret s' writes,
      atapioWrite readyDrive.recorded fuel largeDisk 0 256 (fun _ => 0) ((), []) =
          .ok (ret, (s', writes)) ∧
        ¬ Covers 0 256 (numberedDrive.commands 0x1F0 writes) := by
  have valid : atapioIsValidRange 0 256 largeDisk = true := by decide
  have wrong : ¬ CommandsRight largeDisk (256 : BitVec 64).toNat := by
    unfold CommandsRight
    decide
  obtain ⟨⟨fuel, ret, s', writes, dest', read⟩, fuel', ret', s₂, writes', written⟩ :=
    atapio_returns valid (readyDrive_prompt largeDisk) (fun _ => 0) (fun _ => 0) ()
  exact ⟨⟨fuel, ret, s', writes, dest', read, mt (atapioRead_commands valid read numberedDrive).mp
    wrong⟩, fuel', ret', s₂, writes', written,
    mt (atapioWrite_commands valid written numberedDrive).mp wrong⟩

end Dxgmx
