import Dxgmx.Proc.Ringsched

open Library

namespace Dxgmx

variable {μ : Type}

/-- How far behind `cur` the index comes in a ring of `length`. The index itself comes last. -/
def ringDistance (length cur idx : Nat) : Nat :=
  if cur < idx then idx - cur - 1 else idx + length - cur - 1

/-- The first process behind `cur` that is not a zombie. -/
structure NextLive (procs : List (Option Process)) (cur idx : Nat) (next : Process) : Prop where
  here : procs[idx]? = some (some next)
  live : next.zombie = false
  first : ∀ (j : Nat) (other : Process), procs[j]? = some (some other) → other.zombie = false →
    ringDistance procs.length cur idx ≤ ringDistance procs.length cur j

theorem ringDistance_inj {length cur i j : Nat} (inside : i < length) (inside' : j < length)
    (insideCur : cur < length) (same : ringDistance length cur i = ringDistance length cur j) :
    i = j := by
  unfold ringDistance at same
  split at same <;> split at same <;> omega

theorem NextLive.unique {procs : List (Option Process)} {cur i j : Nat} {next other : Process}
    (one : NextLive procs cur i next) (two : NextLive procs cur j other)
    (inside : cur < procs.length) : other = next := by
  have same := Nat.le_antisymm (one.first j other two.here two.live)
    (two.first i next one.here one.live)
  have here := (List.getElem?_eq_some_iff.mp one.here).1
  have there := (List.getElem?_eq_some_iff.mp two.here).1
  have index := ringDistance_inj here there inside same
  have slot := two.here
  rw [← index, one.here] at slot
  exact (Option.some.inj (Option.some.inj slot)).symm

section Search

variable {procs : List (Option Process)} {fuel newidx i : Nat} {proc : Process}

/-- What the search finds: the first process ahead, or the first one of all. -/
theorem ringschedNextLoop_ok (found : ringschedNextLoop procs fuel newidx = .ok (i, proc)) :
    procs[i]? = some (some proc) ∧
      ((newidx ≤ i ∧ ∀ j other, newidx ≤ j → procs[j]? = some (some other) → i ≤ j) ∨
        (∀ j other, newidx ≤ j → procs[j]? ≠ some (some other)) ∧
          ∀ j other, procs[j]? = some (some other) → i ≤ j) := by
  induction fuel generalizing newidx with
  | zero => cases found
  | succ fuel ih =>
    rw [ringschedNextLoop] at found
    cases slot : procs[newidx]? with
    | none =>
      rw [slot] at found
      obtain ⟨here, order⟩ := ih found
      have outside := List.getElem?_eq_none_iff.mp slot
      refine ⟨here, .inr ⟨fun j other above there => ?_, fun j other there => ?_⟩⟩
      · have inside := (List.getElem?_eq_some_iff.mp there).1
        omega
      · rcases order with ⟨-, first⟩ | ⟨-, first⟩
        · exact first j other (Nat.zero_le j) there
        · exact first j other there
    | some occupied =>
      rw [slot] at found
      cases occupied with
      | some first =>
        cases found
        exact ⟨slot, .inl ⟨Nat.le_refl _, fun j other above _ => above⟩⟩
      | none =>
        obtain ⟨here, order⟩ := ih found
        have later : ∀ j other, newidx ≤ j → procs[j]? = some (some other) → newidx + 1 ≤ j := by
          intro j other above there
          apply Nat.lt_of_le_of_ne above
          rintro rfl
          rw [slot] at there
          cases there
        refine ⟨here, ?_⟩
        rcases order with ⟨above, first⟩ | ⟨empty, first⟩
        · exact .inl ⟨by omega, fun j other low there => first j other (later j other low there) there⟩
        · exact .inr ⟨fun j other low there => empty j other (later j other low there) there, first⟩

/-- No process comes before the one that is found. -/
theorem ringschedNextProc_ok {sched sched' : Ringsched μ} {next : Process}
    (found : ringschedNextProc fuel sched = .ok (next, sched')) :
    sched' = { sched with currentProcIdx := sched'.currentProcIdx } ∧
      sched.sys.procs[sched'.currentProcIdx]? = some (some next) ∧
      ∀ j other, sched.sys.procs[j]? = some (some other) →
        ringDistance sched.sys.procs.length sched.currentProcIdx sched'.currentProcIdx ≤
          ringDistance sched.sys.procs.length sched.currentProcIdx j := by
  obtain ⟨⟨idx, proc⟩, search, rest⟩ := Exec.bind_ok.mp found
  cases rest
  obtain ⟨here, order⟩ := ringschedNextLoop_ok search
  refine ⟨rfl, here, fun j other there => ?_⟩
  have inside := (List.getElem?_eq_some_iff.mp here).1
  have inside' := (List.getElem?_eq_some_iff.mp there).1
  dsimp only
  rcases order with ⟨above, first⟩ | ⟨empty, first⟩
  · have after := first j other
    unfold ringDistance
    split <;> split <;> grind
  · have low : idx ≤ sched.currentProcIdx := by
      by_contra high
      exact empty idx next (by omega) here
    have low' : j ≤ sched.currentProcIdx := by
      by_contra high
      exact empty j other (by omega) there
    have after := first j other there
    unfold ringDistance
    rw [if_neg (by omega), if_neg (by omega)]
    omega

end Search

section Yields

variable {before : List (Option Process)} {current : Process} {yield : Yield μ} {cur fuel : Nat}

/-- The scheduler has come by zombies only since it left `cur`. -/
structure Yield.Ahead (before : List (Option Process)) (cur : Nat) (yield : Yield μ) : Prop where
  inside : yield.sched.currentProcIdx < before.length
  spared : ∀ (j : Nat) (other : Process), before[j]? = some (some other) → other.zombie = false →
    yield.sched.sys.procs[j]? = some (some other)
  behind : ∀ (j : Nat) (other : Process), before[j]? = some (some other) → other.zombie = false →
    yield.sched.currentProcIdx = cur ∨ ringDistance before.length cur
      yield.sched.currentProcIdx < ringDistance before.length cur j

theorem ringDistance_ahead {length cur c i j : Nat} (inside : i < length) (inside' : j < length)
    (insideCur : cur < length) (insideC : c < length)
    (behind : ringDistance length cur c < ringDistance length cur j)
    (first : ringDistance length c i ≤ ringDistance length c j) :
    ringDistance length cur i ≤ ringDistance length cur j := by
  unfold ringDistance at *
  split at behind <;> split at behind <;> split at first <;> split at first <;> split <;> omega

theorem Yield.Ahead.first (ahead : yield.Ahead before cur) (insideCur : cur < before.length)
    {i j : Nat} {other : Process} (inside : i < before.length)
    (there : before[j]? = some (some other)) (live : other.zombie = false)
    (first : ringDistance before.length yield.sched.currentProcIdx i ≤
      ringDistance before.length yield.sched.currentProcIdx j) :
    ringDistance before.length cur i ≤ ringDistance before.length cur j := by
  have inside' := (List.getElem?_eq_some_iff.mp there).1
  rcases ahead.behind j other there live with start | behind
  · rw [start] at first
    exact first
  · exact ringDistance_ahead inside inside' insideCur ahead.inside behind first

/-- The switch at the end of a yield is to the next process that is not a zombie. -/
theorem procmSchedYieldLoop_switch {rounds : Nat} {next : Process} {after : Yield μ}
    (sound : yield.Sound before current) (ahead : yield.Ahead before cur)
    (insideCur : cur < before.length)
    (ended : procmSchedYieldLoop fuel current rounds yield = (.switch next, after)) :
    after.Sound before current ∧
      after.sched.sys.procs[after.sched.currentProcIdx]? = some (some next) ∧
      NextLive before cur after.sched.currentProcIdx next := by
  induction rounds generalizing yield with
  | zero => cases ended
  | succ rounds ih =>
    rw [procmSchedYieldLoop] at ended
    cases search : ringschedNextProc fuel yield.sched with
    | error stop =>
      rw [search] at ended
      cases ended
    | ok found =>
      obtain ⟨passed, sched⟩ := found
      obtain ⟨same, here, first⟩ := ringschedNextProc_ok search
      rw [search] at ended
      rw [same] at ended
      dsimp only at ended
      have origin := ((sound.kept _ _).mp here).1
      have inside := (List.getElem?_eq_some_iff.mp origin).1
      rw [sound.length] at first
      have firstLive : ∀ j other, before[j]? = some (some other) → other.zombie = false →
          ringDistance before.length cur sched.currentProcIdx ≤
            ringDistance before.length cur j := fun j other there live =>
        ahead.first insideCur inside there live (first j other (ahead.spared j other there live))
      by_cases zombie : passed.zombie = false
      · rw [if_pos zombie] at ended
        cases ended
        exact ⟨sound.pass _ fun isZombie => absurd isZombie (by rw [zombie]; decide), here,
          origin, zombie, firstLive⟩
      · rw [if_neg zombie] at ended
        have behind : ∀ j other, before[j]? = some (some other) → other.zombie = false →
            ringDistance before.length cur sched.currentProcIdx <
              ringDistance before.length cur j := by
          intro j other there live
          apply Nat.lt_of_le_of_ne (firstLive j other there live)
          intro distance
          have index := ringDistance_inj inside (List.getElem?_eq_some_iff.mp there).1 insideCur
            distance
          rw [← index, origin] at there
          cases there
          exact zombie live
        cases tried : procmTryKillProc passed current yield.sched.sys with
        | error stop =>
          rw [tried] at ended
          cases ended
        | ok result =>
          rw [tried] at ended
          unfold procmTryKillProc at tried
          by_cases acting : current.pid = passed.pid
          · rw [if_pos acting] at tried
            split at tried
            · cases tried
            · cases tried
              refine ih (sound.pass _ fun _ => sound.same_pid here acting) ?_ ended
              exact ⟨inside, ahead.spared, fun j other there live =>
                .inr (behind j other there live)⟩
          · rw [if_neg acting] at tried
            cases tried
            have isZombie : passed.zombie = true := by simpa using zombie
            refine ih (sound.kill here isZombie acting) ?_ ended
            refine ⟨inside, fun j other there live => ?_, fun j other there live =>
              .inr (behind j other there live)⟩
            apply (sound.filled.procs_kill here j other).mpr
            refine ⟨ahead.spared j other there live, ?_⟩
            rintro rfl
            exact zombie live

theorem procmSchedYieldLoop_keeps (good : System μ → Prop) {rounds : Nat} {yieldEnd : YieldEnd}
    {after : Yield μ}
    (kill : ∀ sys proc, good sys → some proc ∈ sys.procs → good (procmKill proc sys))
    (start : good yield.sched.sys)
    (ended : procmSchedYieldLoop fuel current rounds yield = (yieldEnd, after)) :
    good after.sched.sys := by
  induction rounds generalizing yield with
  | zero =>
    cases ended
    exact start
  | succ rounds ih =>
    rw [procmSchedYieldLoop] at ended
    cases search : ringschedNextProc fuel yield.sched with
    | error stop =>
      rw [search] at ended
      cases ended
      exact start
    | ok found =>
      obtain ⟨passed, sched⟩ := found
      obtain ⟨same, here, -⟩ := ringschedNextProc_ok search
      rw [search] at ended
      rw [same] at ended
      dsimp only at ended
      split at ended
      · cases ended
        exact start
      · cases tried : procmTryKillProc passed current yield.sched.sys with
        | error stop =>
          rw [tried] at ended
          cases ended
          exact start
        | ok result =>
          rw [tried] at ended
          unfold procmTryKillProc at tried
          apply ih _ ended
          split at tried
          · split at tried <;> cases tried
            exact start
          · cases tried
            exact kill _ _ start (List.mem_of_getElem? here)

end Yields

end Dxgmx
