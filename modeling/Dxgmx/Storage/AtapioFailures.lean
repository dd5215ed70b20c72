import Dxgmx.Library.Exec
import Dxgmx.Storage.AtapioTransfers

open Library

namespace Dxgmx

/-- What happens during a call. A wait and a flush are known by the state in which they begin. -/
inductive AtaEvent (σ : Type)
  | wait (start : σ)
  | sector
  | flush (start : σ)

def AtaEvent.isSector {σ : Type} : AtaEvent σ → Bool
  | .sector => true
  | _ => false

section Logged

variable {σ : Type} (io : Machine σ)

/-- `atapioReadSectors` with its events. -/
def atapioReadSectorsLogged (fuel : Nat) (dev : AtaBlockDevice) : (left : Nat) →
    σ × (Nat → BitVec 8) → Logged (AtaEvent σ) (Option Int × σ × (Nat → BitVec 8))
  | 0, state => pure (none, state)
  | left + 1, (s, dest) => do
    .emit (.wait s)
    let (ready, s) ← .lift (atapioWaitForReady io fuel 200 dev s)
    let st : Int := ready.toNat
    if st < 0 then pure (some st, s, dest)
    else
      .emit .sector
      atapioReadSectorsLogged fuel dev left (atapioReadWords io dev 256 (s, dest))

/-- `atapioReadLoop` with its events. -/
def atapioReadLoopLogged (dev : AtaBlockDevice) : (fuel : Nat) → (lba sectors : BitVec 64) →
    σ × (Nat → BitVec 8) → Logged (AtaEvent σ) (Int × σ × (Nat → BitVec 8))
  | 0, _, _, _ => .lift (.error .fuel)
  | fuel + 1, lba, sectors, (s, dest) =>
    if sectors = 0 then pure (sectors.toInt, s, dest)
    else do
      let working : BitVec 16 := if 256 < sectors then 256 else sectors.setWidth 16
      let (sent, s) ← .lift
        (atapioSendReadCmd io lba (atapioInternalSectors (working.setWidth 64)) dev s)
      let st : Int := sent.toNat
      if st < 0 then pure (st, s, dest)
      else
        let (ret, s, dest) ← atapioReadSectorsLogged io fuel dev working.toNat (s, dest)
        match ret with
        | some st => pure (st, s, dest)
        | none =>
          let lba := lba + working.setWidth 64
          atapioReadLoopLogged dev fuel lba (sectors - working.setWidth 64) (s, dest)

/-- `atapioRead` with its events. -/
def atapioReadLogged (fuel : Nat) (dev : AtaBlockDevice) (lba sectors : BitVec 64)
    (dest : Nat → BitVec 8) (s : σ) : Logged (AtaEvent σ) (Int × σ × (Nat → BitVec 8)) :=
  if atapioIsValidRange lba sectors dev then atapioReadLoopLogged io dev fuel lba sectors (s, dest)
  else pure (-22, s, dest)

def atapioWriteSectorsLogged (fuel : Nat) (dev : AtaBlockDevice) (src : Nat → BitVec 8) :
    (left : Nat) → σ → Logged (AtaEvent σ) (Option Int × σ)
  | 0, s => pure (none, s)
  | left + 1, s => do
    .emit (.wait s)
    let (ready, s) ← .lift (atapioWaitForReady io fuel 200 dev s)
    let st : Int := ready.toNat
    if st < 0 then pure (some st, s)
    else
      .emit .sector
      atapioWriteSectorsLogged fuel dev src left (atapioWriteWords io dev src 256 s)

def atapioWriteLoopLogged (dev : AtaBlockDevice) (src : Nat → BitVec 8) :
    (fuel : Nat) → (lba sectors : BitVec 64) → σ → Logged (AtaEvent σ) (Int × σ)
  | 0, _, _, _ => .lift (.error .fuel)
  | fuel + 1, lba, sectors, s =>
    if sectors = 0 then pure (sectors.toInt, s)
    else do
      let working : BitVec 64 := if 256 < sectors then 256 else sectors
      let (sent, s) ← .lift (atapioSendWriteCmd io lba (atapioInternalSectors working) dev s)
      let st : Int := sent.toNat
      if st < 0 then pure (st, s)
      else
        let (ret, s) ← atapioWriteSectorsLogged io fuel dev src working.toNat s
        match ret with
        | some st => pure (st, s)
        | none =>
          .emit (.flush s)
          let (flushed, s) ← .lift (atapioFlushSectors io fuel 200 dev s)
          let st : Int := flushed.toNat
          if st < 0 then pure (st, s)
          else atapioWriteLoopLogged dev src fuel (lba + working) (sectors - working) s

/-- `atapioWrite` with its events. -/
def atapioWriteLogged (fuel : Nat) (dev : AtaBlockDevice) (lba sectors : BitVec 64)
    (src : Nat → BitVec 8) (s : σ) : Logged (AtaEvent σ) (Int × σ) :=
  if atapioIsValidRange lba sectors dev then atapioWriteLoopLogged io dev src fuel lba sectors s
  else pure (-22, s)

variable {io : Machine σ} {dev : AtaBlockDevice} {src : Nat → BitVec 8} {fuel left : Nat}

/-- The events change nothing. -/
theorem atapioReadSectorsLogged_result (state : σ × (Nat → BitVec 8)) :
    (atapioReadSectorsLogged io fuel dev left state).result =
      atapioReadSectors io fuel dev left state := by
  induction left generalizing state with
  | zero => rfl
  | succ left ih =>
    unfold atapioReadSectorsLogged atapioReadSectors
    rw [Logged.emit_bind_result, Logged.bind_result, Logged.lift_result]
    congr 1
    funext waited
    obtain ⟨ready, s₁⟩ := waited
    dsimp only
    split
    · rfl
    · rw [Logged.emit_bind_result]
      exact ih _

theorem atapioReadLoopLogged_result (lba sectors : BitVec 64) (state : σ × (Nat → BitVec 8)) :
    (atapioReadLoopLogged io dev fuel lba sectors state).result =
      atapioReadLoop io dev fuel lba sectors state := by
  induction fuel generalizing lba sectors state with
  | zero => rfl
  | succ fuel ih =>
    unfold atapioReadLoopLogged atapioReadLoop
    split
    · rfl
    · simp only [Logged.bind_result, Logged.lift_result]
      congr 1
      funext sent
      split
      · rfl
      · rw [Logged.bind_result, atapioReadSectorsLogged_result]
        congr 1
        funext done
        obtain ⟨ret, s, dest⟩ := done
        cases ret with
        | some st => rfl
        | none => exact ih _ _ _

theorem atapioReadLogged_result (lba sectors : BitVec 64) (dest : Nat → BitVec 8) (s : σ) :
    (atapioReadLogged io fuel dev lba sectors dest s).result =
      atapioRead io fuel dev lba sectors dest s := by
  unfold atapioReadLogged atapioRead
  split
  · exact atapioReadLoopLogged_result lba sectors (s, dest)
  · rfl

theorem atapioWriteSectorsLogged_result (s : σ) :
    (atapioWriteSectorsLogged io fuel dev src left s).result =
      atapioWriteSectors io fuel dev src left s := by
  induction left generalizing s with
  | zero => rfl
  | succ left ih =>
    unfold atapioWriteSectorsLogged atapioWriteSectors
    rw [Logged.emit_bind_result, Logged.bind_result, Logged.lift_result]
    congr 1
    funext waited
    obtain ⟨ready, s₁⟩ := waited
    dsimp only
    split
    · rfl
    · rw [Logged.emit_bind_result]
      exact ih _

theorem atapioWriteLoopLogged_result (lba sectors : BitVec 64) (s : σ) :
    (atapioWriteLoopLogged io dev src fuel lba sectors s).result =
      atapioWriteLoop io dev src fuel lba sectors s := by
  induction fuel generalizing lba sectors s with
  | zero => rfl
  | succ fuel ih =>
    unfold atapioWriteLoopLogged atapioWriteLoop
    split
    · rfl
    · simp only [Logged.bind_result, Logged.lift_result]
      congr 1
      funext sent
      split
      · rfl
      · rw [Logged.bind_result, atapioWriteSectorsLogged_result]
        congr 1
        funext done
        obtain ⟨ret, s⟩ := done
        cases ret with
        | some st => rfl
        | none =>
          rw [Logged.emit_bind_result, Logged.bind_result, Logged.lift_result]
          congr 1
          funext flushed
          split
          · rfl
          · exact ih _ _ _

theorem atapioWriteLogged_result (lba sectors : BitVec 64) (s : σ) :
    (atapioWriteLogged io fuel dev lba sectors src s).result =
      atapioWrite io fuel dev lba sectors src s := by
  unfold atapioWriteLogged atapioWrite
  split
  · exact atapioWriteLoopLogged_result lba sectors s
  · rfl

end Logged

def statusReady (status : BitVec 8) : Prop :=
  status &&& ataStatusBsy = 0 ∧ status &&& ataStatusDrq ≠ 0

def statusError (status : BitVec 8) : Prop :=
  status &&& ataStatusErr ≠ 0 ∨ status &&& ataStatusDf ≠ 0

section Ends

variable {σ : Type} (io : Machine σ) (dev : AtaBlockDevice)

/-- 200 ms are over. -/
def Machine.late (s : σ) : Prop := 200 * 1000000 < (io.timerElapsed s).1

def Machine.status (s : σ) : BitVec 8 × σ := io.inb (ataRegStatus dev.extra.portio) s

/-- The polls of a wait for ready end with the drive ready, or with a timeout or an error. -/
inductive ReadyPolls : σ → Bool → Prop
  | late {s : σ} (late : io.late s) : ReadyPolls s false
  | ready {s : σ} (early : ¬ io.late s)
      (ready : statusReady (io.status dev (io.timerElapsed s).2).1) : ReadyPolls s true
  | failed {s : σ} (early : ¬ io.late s)
      (notReady : ¬ statusReady (io.status dev (io.timerElapsed s).2).1)
      (error : statusError (io.status dev (io.timerElapsed s).2).1) : ReadyPolls s false
  | again {s : σ} {ends : Bool} (early : ¬ io.late s)
      (notReady : ¬ statusReady (io.status dev (io.timerElapsed s).2).1)
      (fine : ¬ statusError (io.status dev (io.timerElapsed s).2).1)
      (rest : ReadyPolls (io.status dev (io.timerElapsed s).2).2 ends) : ReadyPolls s ends

/-- The same for the polls of a flush, which go on as long as the drive is busy. -/
inductive FlushPolls : σ → Bool → Prop
  | late {s : σ} (busy : (io.status dev s).1 &&& ataStatusBsy ≠ 0)
      (late : io.late (io.status dev s).2) : FlushPolls s false
  | done {s : σ} (idle : ¬ (io.status dev s).1 &&& ataStatusBsy ≠ 0)
      (fine : ¬ statusError (io.status dev s).1) : FlushPolls s true
  | failed {s : σ} (idle : ¬ (io.status dev s).1 &&& ataStatusBsy ≠ 0)
      (error : statusError (io.status dev s).1) : FlushPolls s false
  | again {s : σ} {ends : Bool} (busy : (io.status dev s).1 &&& ataStatusBsy ≠ 0)
      (early : ¬ io.late (io.status dev s).2)
      (rest : FlushPolls (io.timerElapsed (io.status dev s).2).2 ends) : FlushPolls s ends

/-- How the wait or the flush of an event ends. -/
def AtaEvent.Ends : AtaEvent σ → Bool → Prop
  | .wait s, ends => ReadyPolls io dev (io.timerStart s) ends
  | .sector, ends => ends = true
  | .flush s, ends =>
    FlushPolls io dev (io.timerStart (io.outb 0xE7 (ataRegCommand dev.extra.portio) s)) ends

/-- A wait or a flush fails before `n` sectors have been transferred. -/
def FailsEarly (n : Nat) (log : List (AtaEvent σ)) : Prop :=
  ∃ before event after, log = before ++ event :: after ∧
    before.countP AtaEvent.isSector < n ∧ event.Ends io dev false

/-- `n` sectors have been transferred, each one right after a wait that ended with the drive ready,
    and what was flushed before the last of them was flushed without an error. -/
structure SectorsServed (n : Nat) (log : List (AtaEvent σ)) : Prop where
  count : log.countP AtaEvent.isSector = n
  ready : ∀ before after, log = before ++ .sector :: after →
    ∃ earlier s, before = earlier ++ [.wait s] ∧ (AtaEvent.wait s).Ends io dev true
  flushed : ∀ before s after, log = before ++ .flush s :: after →
    before.countP AtaEvent.isSector < n → (AtaEvent.flush s).Ends io dev true

/-- A call that fails early returns a negative error, and one that returns no error has transferred
    all sectors. -/
structure Reports {α : Type} (n : Nat) (log : Nat → List (AtaEvent σ))
    (result : Nat → Exec (Int × α)) : Prop where
  failed : (∃ fuel, FailsEarly io dev n (log fuel)) →
    ∃ fuel ret left, result fuel = .ok (ret, left) ∧ ret < 0
  served : ∀ fuel ret left, result fuel = .ok (ret, left) → 0 ≤ ret →
    SectorsServed io dev n (log fuel)

/-- The log of `n` sectors, each one behind its wait. -/
inductive Transfers : Nat → List (AtaEvent σ) → Prop
  | none : Transfers 0 []
  | sector {n : Nat} {log : List (AtaEvent σ)} {s : σ} {ends : Bool}
      (waited : (AtaEvent.wait s).Ends io dev ends) (rest : Transfers n log) :
      Transfers (n + 1) (.wait s :: .sector :: log)
  | flush {n : Nat} {log : List (AtaEvent σ)} {s : σ} {ends : Bool}
      (flushed : (AtaEvent.flush s).Ends io dev ends) (rest : Transfers n log) :
      Transfers n (.flush s :: log)

variable {io : Machine σ} {dev : AtaBlockDevice} {n m fuel : Nat} {log log' : List (AtaEvent σ)}
variable {s s' : σ} {ends : Bool}

theorem Transfers.append (first : Transfers io dev n log) (second : Transfers io dev m log') :
    Transfers io dev (n + m) (log ++ log') := by
  induction first with
  | none =>
    rw [Nat.zero_add]
    exact second
  | sector waited rest ih =>
    rw [Nat.add_right_comm]
    exact .sector waited ih
  | flush flushed rest ih => exact .flush flushed ih

theorem countP_sector (s : σ) (log : List (AtaEvent σ)) :
    (.wait s :: .sector :: log : List (AtaEvent σ)).countP AtaEvent.isSector =
      log.countP AtaEvent.isSector + 1 := by
  rw [List.countP_cons_of_neg Bool.false_ne_true, List.countP_cons_of_pos rfl]

theorem FailsEarly.sector (fails : FailsEarly io dev n log) (s : σ) :
    FailsEarly io dev (n + 1) (.wait s :: .sector :: log) := by
  obtain ⟨before, event, after, rfl, early, ends⟩ := fails
  refine ⟨.wait s :: .sector :: before, event, after, rfl, ?_, ends⟩
  rw [countP_sector]
  exact Nat.succ_lt_succ early

theorem FailsEarly.flush (fails : FailsEarly io dev n log) (s : σ) :
    FailsEarly io dev n (.flush s :: log) := by
  obtain ⟨before, event, after, rfl, early, ends⟩ := fails
  exact ⟨.flush s :: before, event, after, rfl, early, ends⟩

theorem Transfers.served (transfers : Transfers io dev n log) (fine : ¬ FailsEarly io dev n log) :
    SectorsServed io dev n log := by
  induction transfers with
  | none => exact ⟨rfl, by simp, by simp⟩
  | @sector n log s ends waited rest ih =>
    obtain ⟨count, ready, flushed⟩ := ih fun fails => fine (fails.sector s)
    have ended : ends = true := by
      by_contra failed
      rw [Bool.not_eq_true] at failed
      subst failed
      exact fine ⟨[], _, _, rfl, Nat.zero_lt_succ n, waited⟩
    subst ended
    refine ⟨(countP_sector s log).trans (congrArg Nat.succ count), fun before after split => ?_,
      fun before s' after split => ?_⟩
    · rcases before with _ | ⟨_, _ | ⟨_, before⟩⟩
      · cases split
      · cases split
        exact ⟨[], s, rfl, waited⟩
      · cases split
        obtain ⟨earlier, start, rfl, its⟩ := ready before after rfl
        exact ⟨_ :: _ :: earlier, start, rfl, its⟩
    · rcases before with _ | ⟨_, _ | ⟨_, before⟩⟩
      · cases split
      · cases split
      · cases split
        rw [countP_sector]
        exact fun early => flushed before s' after rfl (Nat.lt_of_succ_lt_succ early)
  | @flush n log s ends ended rest ih =>
    obtain ⟨count, ready, flushed⟩ := ih fun fails => fine (fails.flush s)
    refine ⟨count, fun before after split => ?_, fun before s' after split early => ?_⟩
    · rcases before with _ | ⟨_, before⟩
      · cases split
      · cases split
        obtain ⟨earlier, start, rfl, its⟩ := ready before after rfl
        exact ⟨_ :: earlier, start, rfl, its⟩
    · rcases before with _ | ⟨_, before⟩
      · cases split
        cases ends with
        | true => exact ended
        | false => exact absurd ⟨[], _, _, rfl, early, ended⟩ fine
      · cases split
        exact flushed before s' after rfl early

theorem atapioReadyLoop_polls (ended : atapioReadyLoop io 200 dev fuel s = .ok (ends, s')) :
    ReadyPolls io dev s ends := by
  induction fuel generalizing s with
  | zero => cases ended
  | succ fuel ih =>
    unfold atapioReadyLoop at ended
    dsimp only at ended
    split at ended
    · rename_i late
      cases ended
      exact .late late
    · rename_i early
      split at ended
      · rename_i ready
        cases ended
        exact .ready early ready
      · rename_i notReady
        split at ended
        · rename_i error
          cases ended
          exact .failed early notReady error
        · rename_i fine
          exact .again early notReady fine (ih ended)

/-- A flush that ends without a timeout may still have seen an error. -/
theorem atapioFlushLoop_polls (ended : atapioFlushLoop io 200 dev fuel s = .ok (ends, s')) :
    ∃ ends, FlushPolls io dev s ends := by
  induction fuel generalizing s with
  | zero => cases ended
  | succ fuel ih =>
    unfold atapioFlushLoop at ended
    dsimp only at ended
    split at ended
    · rename_i busy
      split at ended
      · rename_i late
        exact ⟨false, .late busy late⟩
      · rename_i early
        obtain ⟨ends, rest⟩ := ih ended
        exact ⟨ends, .again busy early rest⟩
    · rename_i idle
      by_cases error : statusError (io.status dev s).1
      · exact ⟨false, .failed idle error⟩
      · exact ⟨true, .done idle error⟩

theorem toNat_nonneg (b : Bool) : ¬ ((b.toNat : Int) < 0) := Int.not_lt.mpr (Int.natCast_nonneg _)

theorem atapioReadSectorsLogged_transfers {left : Nat} {state : σ × (Nat → BitVec 8)}
    {done : Option Int × σ × (Nat → BitVec 8)}
    (ended : (atapioReadSectorsLogged io fuel dev left state).result = .ok done) :
    done.1 = none ∧ Transfers io dev left (atapioReadSectorsLogged io fuel dev left state).log := by
  induction left generalizing state with
  | zero =>
    cases ended
    exact ⟨rfl, .none⟩
  | succ left ih =>
    obtain ⟨s, dest⟩ := state
    unfold atapioReadSectorsLogged at ended ⊢
    rw [Logged.emit_bind_result] at ended
    obtain ⟨⟨ready, s₁⟩, waited, rest⟩ := Logged.lift_bind_ok.mp ended
    rw [Logged.emit_bind_log, Logged.lift_bind_log waited]
    dsimp only at rest ⊢
    rw [if_neg (toNat_nonneg ready)] at rest ⊢
    rw [Logged.emit_bind_result] at rest
    rw [Logged.emit_bind_log]
    obtain ⟨none_, transfers⟩ := ih rest
    exact ⟨none_, .sector (atapioReadyLoop_polls waited) transfers⟩

theorem readWorking_left (sectors : BitVec 64) :
    (if 256 < sectors then 256 else sectors.setWidth 16 : BitVec 16).toNat +
      (sectors - (if 256 < sectors then 256 else sectors.setWidth 16 : BitVec 16).setWidth 64).toNat =
        sectors.toNat := by
  have wide : ((if 256 < sectors then 256 else sectors.setWidth 16 : BitVec 16).setWidth 64).toNat =
      min sectors.toNat 256 := by
    rw [BitVec.toNat_setWidth, readWorking_toNat]
    omega
  rw [readWorking_toNat, BitVec.toNat_sub_of_le (by rw [BitVec.le_def]; omega)]
  omega

theorem writeWorking_left (sectors : BitVec 64) :
    (if 256 < sectors then 256 else sectors : BitVec 64).toNat +
      (sectors - if 256 < sectors then 256 else sectors).toNat = sectors.toNat := by
  have count := writeWorking_toNat sectors
  rw [BitVec.toNat_sub_of_le (by rw [BitVec.le_def]; omega)]
  omega

/-- The loop returns no error, whatever the waits answered. -/
theorem atapioReadLoopLogged_transfers {lba sectors : BitVec 64} {state : σ × (Nat → BitVec 8)}
    {ret : Int} {after : σ × (Nat → BitVec 8)}
    (ended : (atapioReadLoopLogged io dev fuel lba sectors state).result = .ok (ret, after)) :
    ¬ ret < 0 ∧
      Transfers io dev sectors.toNat (atapioReadLoopLogged io dev fuel lba sectors state).log := by
  induction fuel generalizing lba sectors state with
  | zero => cases ended
  | succ fuel ih =>
    obtain ⟨s, dest⟩ := state
    unfold atapioReadLoopLogged at ended ⊢
    by_cases none_left : sectors = 0
    · rw [if_pos none_left] at ended ⊢
      cases ended
      rw [none_left]
      exact ⟨by decide, .none⟩
    · rw [if_neg none_left] at ended ⊢
      dsimp only at ended ⊢
      obtain ⟨⟨sent, s₁⟩, sending, rest⟩ := Logged.lift_bind_ok.mp ended
      rw [Logged.lift_bind_log sending]
      dsimp only at rest ⊢
      rw [if_neg (toNat_nonneg sent)] at rest ⊢
      obtain ⟨⟨ret₁, s₂, dest₂⟩, read, rest⟩ := Logged.bind_ok.mp rest
      obtain ⟨none_, first⟩ := atapioReadSectorsLogged_transfers read
      obtain rfl : ret₁ = none := none_
      rw [Logged.bind_log read]
      obtain ⟨nonneg, later⟩ := ih rest
      refine ⟨nonneg, ?_⟩
      have both := first.append later
      rw [readWorking_left] at both
      exact both

theorem atapioWriteSectorsLogged_transfers {src : Nat → BitVec 8} {left : Nat}
    {done : Option Int × σ}
    (ended : (atapioWriteSectorsLogged io fuel dev src left s).result = .ok done) :
    done.1 = none ∧ Transfers io dev left (atapioWriteSectorsLogged io fuel dev src left s).log := by
  induction left generalizing s with
  | zero =>
    cases ended
    exact ⟨rfl, .none⟩
  | succ left ih =>
    unfold atapioWriteSectorsLogged at ended ⊢
    rw [Logged.emit_bind_result] at ended
    obtain ⟨⟨ready, s₁⟩, waited, rest⟩ := Logged.lift_bind_ok.mp ended
    rw [Logged.emit_bind_log, Logged.lift_bind_log waited]
    dsimp only at rest ⊢
    rw [if_neg (toNat_nonneg ready)] at rest ⊢
    rw [Logged.emit_bind_result] at rest
    rw [Logged.emit_bind_log]
    obtain ⟨none_, transfers⟩ := ih rest
    exact ⟨none_, .sector (atapioReadyLoop_polls waited) transfers⟩

theorem atapioWriteLoopLogged_transfers {src : Nat → BitVec 8} {lba sectors : BitVec 64}
    {ret : Int} {after : σ}
    (ended : (atapioWriteLoopLogged io dev src fuel lba sectors s).result = .ok (ret, after)) :
    ¬ ret < 0 ∧
      Transfers io dev sectors.toNat (atapioWriteLoopLogged io dev src fuel lba sectors s).log := by
  induction fuel generalizing lba sectors s with
  | zero => cases ended
  | succ fuel ih =>
    unfold atapioWriteLoopLogged at ended ⊢
    by_cases none_left : sectors = 0
    · rw [if_pos none_left] at ended ⊢
      cases ended
      rw [none_left]
      exact ⟨by decide, .none⟩
    · rw [if_neg none_left] at ended ⊢
      dsimp only at ended ⊢
      obtain ⟨⟨sent, s₁⟩, sending, rest⟩ := Logged.lift_bind_ok.mp ended
      rw [Logged.lift_bind_log sending]
      dsimp only at rest ⊢
      rw [if_neg (toNat_nonneg sent)] at rest ⊢
      obtain ⟨⟨ret₁, s₂⟩, written, rest⟩ := Logged.bind_ok.mp rest
      obtain ⟨none_, first⟩ := atapioWriteSectorsLogged_transfers written
      obtain rfl : ret₁ = none := none_
      rw [Logged.bind_log written]
      dsimp only at rest ⊢
      rw [Logged.emit_bind_result] at rest
      obtain ⟨⟨flushed, s₃⟩, flushing, rest⟩ := Logged.lift_bind_ok.mp rest
      rw [Logged.emit_bind_log, Logged.lift_bind_log flushing]
      dsimp only at rest ⊢
      rw [if_neg (toNat_nonneg flushed)] at rest ⊢
      obtain ⟨ends, polls⟩ := atapioFlushLoop_polls flushing
      obtain ⟨nonneg, later⟩ := ih rest
      refine ⟨nonneg, ?_⟩
      have both := first.append (.flush polls later)
      rw [writeWorking_left] at both
      exact both

/-- A call that never returns an error reports failures only if there are none. -/
theorem reports_iff {α : Type} {call : Nat → Logged (AtaEvent σ) (Int × α)}
    (transfers : ∀ fuel ret after, (call fuel).result = .ok (ret, after) →
      ¬ ret < 0 ∧ Transfers io dev n (call fuel).log) :
    Reports io dev n (fun fuel => (call fuel).log) (fun fuel => (call fuel).result) ↔
      ¬ ∃ fuel, FailsEarly io dev n (call fuel).log := by
  constructor
  · intro reports fails
    obtain ⟨fuel, ret, after, ended, negative⟩ := reports.failed fails
    exact (transfers fuel ret after ended).1 negative
  · intro fine
    refine ⟨fun fails => absurd fails fine, fun fuel ret after ended _ => ?_⟩
    exact (transfers fuel ret after ended).2.served fun fails => fine ⟨fuel, fails⟩

/-- A call that does nothing but return an error. -/
theorem reports_refused {α : Type} {call : Nat → Logged (AtaEvent σ) (Int × α)} {a : α}
    (refused : ∀ fuel, call fuel = pure (-22, a)) :
    Reports io dev n (fun fuel => (call fuel).log) (fun fuel => (call fuel).result) ↔
      ¬ ∃ fuel, FailsEarly io dev n (call fuel).log := by
  have fine : ¬ ∃ fuel, FailsEarly io dev n (call fuel).log := by
    rintro ⟨fuel, before, event, after, split, -⟩
    rw [refused] at split
    exact absurd split.symm (List.append_ne_nil_of_right_ne_nil _ (List.cons_ne_nil _ _))
  refine iff_of_true ⟨fun fails => absurd fails fine, fun fuel ret after ended nonneg => ?_⟩ fine
  rw [refused] at ended
  cases ended
  exact absurd nonneg (by decide)

end Ends

variable {σ : Type}

/-- No failure is ever reported: both calls do what they should exactly if no wait and no flush fails
    before all sectors are transferred. -/
theorem atapio_reports_iff (io : Machine σ) (dev : AtaBlockDevice) (lba sectors : BitVec 64)
    (dest src : Nat → BitVec 8) (s : σ) :
    (Reports io dev sectors.toNat
        (fun fuel => (atapioReadLogged io fuel dev lba sectors dest s).log)
        (fun fuel => atapioRead io fuel dev lba sectors dest s) ↔
      ¬ ∃ fuel, FailsEarly io dev sectors.toNat
        (atapioReadLogged io fuel dev lba sectors dest s).log) ∧
    (Reports io dev sectors.toNat
        (fun fuel => (atapioWriteLogged io fuel dev lba sectors src s).log)
        (fun fuel => atapioWrite io fuel dev lba sectors src s) ↔
      ¬ ∃ fuel, FailsEarly io dev sectors.toNat
        (atapioWriteLogged io fuel dev lba sectors src s).log) := by
  simp only [← atapioReadLogged_result, ← atapioWriteLogged_result]
  by_cases valid : atapioIsValidRange lba sectors dev = true
  · refine ⟨reports_iff fun fuel ret after ended => ?_, reports_iff fun fuel ret after ended => ?_⟩
    · unfold atapioReadLogged at ended ⊢
      rw [if_pos valid] at ended ⊢
      exact atapioReadLoopLogged_transfers ended
    · unfold atapioWriteLogged at ended ⊢
      rw [if_pos valid] at ended ⊢
      exact atapioWriteLoopLogged_transfers ended
  · refine ⟨reports_refused (a := (s, dest)) fun fuel => ?_,
      reports_refused (a := s) fun fuel => ?_⟩
    · unfold atapioReadLogged
      exact if_neg valid
    · unfold atapioWriteLogged
      exact if_neg valid

/-- A drive that answers every command with an error. -/
def failingDrive : Machine Unit where
  outb _ _ := id
  outw _ _ := id
  inb _ s := (ataStatusErr, s)
  inw _ s := (0, s)
  timerStart := id
  timerElapsed s := (0, s)

theorem failingDrive_ends (dev : AtaBlockDevice) :
    (AtaEvent.wait ()).Ends failingDrive dev false := by
  have notReady : ¬ statusReady ataStatusErr := by
    unfold statusReady
    decide
  exact .failed (Nat.not_lt_zero _) notReady (.inl (show ataStatusErr &&& ataStatusErr ≠ 0 by decide))

/-- The failure of the only wait is not reported. -/
theorem not_reports_error :
    ¬ Reports failingDrive eightSectors 1
        (fun fuel => (atapioReadLogged failingDrive fuel eightSectors 0 1 (fun _ => 0) ()).log)
        (fun fuel => atapioRead failingDrive fuel eightSectors 0 1 (fun _ => 0) ()) ∧
      ¬ Reports failingDrive eightSectors 1
        (fun fuel => (atapioWriteLogged failingDrive fuel eightSectors 0 1 (fun _ => 0) ()).log)
        (fun fuel => atapioWrite failingDrive fuel eightSectors 0 1 (fun _ => 0) ()) := by
  simp only [← atapioReadLogged_result, ← atapioWriteLogged_result]
  constructor
  · intro reports
    refine (reports_iff fun fuel ret after ended => ?_).mp reports
      ⟨2, [], .wait (), _, rfl, Nat.zero_lt_one, failingDrive_ends _⟩
    exact atapioReadLoopLogged_transfers ended
  · intro reports
    refine (reports_iff fun fuel ret after ended => ?_).mp reports
      ⟨2, [], .wait (), _, rfl, Nat.zero_lt_one, failingDrive_ends _⟩
    exact atapioWriteLoopLogged_transfers ended

end Dxgmx
