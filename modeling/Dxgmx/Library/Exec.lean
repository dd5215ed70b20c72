import Mathlib.Tactic.Common

namespace Library

/-- Why an execution ends without a value: the kernel stopped itself, it did what the language does
    not define, or a loop outlived its fuel. -/
inductive Stop
  | panic
  | fault
  | fuel
  deriving DecidableEq, Repr

abbrev Exec := Except Stop

def assert (p : Prop) [Decidable p] : Exec Unit := if p then .ok () else .error .panic

theorem Exec.bind_ok {α β : Type} {x : Exec α} {f : α → Exec β} {b : β} :
    (x >>= f) = .ok b ↔ ∃ a, x = .ok a ∧ f a = .ok b := by
  cases x with
  | error e => simp [Bind.bind, Except.bind]
  | ok a => simp [Bind.bind, Except.bind]

theorem Exec.ok_bind {α β : Type} (a : α) (f : α → Exec β) :
    ((.ok a : Exec α) >>= f) = f a := rfl

/-- An execution that is known to return `st` has a state to return with it. -/
theorem Exec.of_status {α σ : Type} {x : Exec (α × σ)} {st : α} (status : x.map Prod.fst = .ok st) :
    ∃ s, x = .ok (st, s) := by
  cases x with
  | error stop => cases status
  | ok result => exact ⟨result.2, by rw [← Except.ok.inj status]⟩

theorem Exec.pure_ok {α : Type} {a b : α} : (pure a : Exec α) = .ok b ↔ a = b := by
  simp [Pure.pure, Except.pure]

theorem assert_ok {p : Prop} [Decidable p] {u : Unit} : assert p = .ok u ↔ p := by
  unfold assert
  split <;> simp_all

theorem assert_bind_ok {p : Prop} [Decidable p] {α : Type} {f : Unit → Exec α} {a : α} :
    (assert p >>= f) = .ok a ↔ p ∧ f () = .ok a := by
  rw [Exec.bind_ok]
  constructor
  · rintro ⟨u, holds, rest⟩
    exact ⟨assert_ok.mp holds, rest⟩
  · rintro ⟨holds, rest⟩
    exact ⟨(), assert_ok.mpr holds, rest⟩

/-- The execution ends by itself, whatever it ends with. -/
def Terminates {α : Type} (x : Exec α) : Prop := x ≠ .error .fuel

theorem terminates_ok {α : Type} (a : α) : Terminates (.ok a : Exec α) := nofun

theorem terminates_pure {α : Type} (a : α) : Terminates (pure a : Exec α) := nofun

theorem terminates_fault {α : Type} : Terminates (.error .fault : Exec α) := nofun

theorem terminates_panic {α : Type} : Terminates (.error .panic : Exec α) := nofun

theorem Terminates.bind {α β : Type} {x : Exec α} {f : α → Exec β} (first : Terminates x)
    (rest : ∀ a, x = .ok a → Terminates (f a)) : Terminates (x >>= f) := by
  cases x with
  | error stop =>
    intro stopped
    cases stopped
    exact first rfl
  | ok a => exact rest a rfl

/-- With enough fuel the execution ends, and more of it changes nothing. -/
def Settles {α : Type} (run : Nat → Exec α) : Prop :=
  ∃ enough x, Terminates x ∧ ∀ fuel, enough ≤ fuel → run fuel = x

theorem Settles.terminates {α : Type} {run : Nat → Exec α} (settles : Settles run) :
    ∃ fuel, Terminates (run fuel) := by
  obtain ⟨enough, x, ends, same⟩ := settles
  exact ⟨enough, by rwa [same enough (Nat.le_refl _)]⟩

theorem Settles.succ {α : Type} {run next : Nat → Exec α} (settles : Settles next)
    (step : ∀ fuel, run (fuel + 1) = next fuel) : Settles run := by
  obtain ⟨enough, x, ends, same⟩ := settles
  refine ⟨enough + 1, x, ends, fun fuel above => ?_⟩
  obtain ⟨fuel, rfl⟩ : ∃ left, fuel = left + 1 := ⟨fuel - 1, by omega⟩
  rw [step, same fuel (by omega)]

theorem Settles.bind {α β : Type} {run : Nat → Exec α} {rest : α → Nat → Exec β}
    (settles : Settles run) (later : ∀ a, Settles (rest a)) :
    Settles fun fuel => run fuel >>= fun a => rest a fuel := by
  obtain ⟨enough, x, ends, same⟩ := settles
  cases x with
  | error stop =>
    have stops : Terminates (.error stop : Exec β) := by
      rintro ⟨⟩
      exact ends rfl
    refine ⟨enough, .error stop, stops, fun fuel above => ?_⟩
    show run fuel >>= _ = _
    rw [same fuel above]
    rfl
  | ok a =>
    obtain ⟨more, y, ends, equal⟩ := later a
    refine ⟨max enough more, y, ends, fun fuel above => ?_⟩
    show run fuel >>= _ = _
    rw [same fuel (Nat.le_trans (Nat.le_max_left _ _) above), Exec.ok_bind,
      equal fuel (Nat.le_trans (Nat.le_max_right _ _) above)]

/-- An execution with the events up to its end, however it ends. -/
structure Logged (ε α : Type) where
  log : List ε
  result : Exec α

namespace Logged

variable {ε α β : Type}

def andThen (x : Logged ε α) (f : α → Logged ε β) : Logged ε β :=
  match x.result with
  | .error stop => ⟨x.log, .error stop⟩
  | .ok a => ⟨x.log ++ (f a).log, (f a).result⟩

instance : Monad (Logged ε) where
  pure a := ⟨[], .ok a⟩
  bind := andThen

def emit (event : ε) : Logged ε Unit := ⟨[event], .ok ()⟩

/-- An execution without events. -/
def lift (x : Exec α) : Logged ε α := ⟨[], x⟩

@[simp]
theorem emit_result (event : ε) : (emit event).result = .ok () := rfl

@[simp]
theorem lift_result (x : Exec α) : (lift x : Logged ε α).result = x := rfl

@[simp]
theorem pure_result (a : α) : (pure a : Logged ε α).result = pure a := rfl

@[simp]
theorem bind_result (x : Logged ε α) (f : α → Logged ε β) :
    (x >>= f).result = x.result >>= fun a => (f a).result := by
  show (andThen x f).result = _
  unfold andThen
  cases x.result <;> rfl

theorem bind_log {x : Logged ε α} {f : α → Logged ε β} {a : α} (ok : x.result = .ok a) :
    (x >>= f).log = x.log ++ (f a).log := by
  show (andThen x f).log = _
  unfold andThen
  rw [ok]

theorem bind_ok {x : Logged ε α} {f : α → Logged ε β} {b : β} :
    (x >>= f).result = .ok b ↔ ∃ a, x.result = .ok a ∧ (f a).result = .ok b := by
  rw [bind_result]
  exact Exec.bind_ok

theorem lift_bind_ok {x : Exec α} {f : α → Logged ε β} {b : β} :
    ((lift x : Logged ε α) >>= f).result = .ok b ↔ ∃ a, x = .ok a ∧ (f a).result = .ok b := bind_ok

@[simp]
theorem emit_bind_result (event : ε) (f : Unit → Logged ε β) :
    (emit event >>= f).result = (f ()).result := rfl

theorem emit_bind_log (event : ε) (f : Unit → Logged ε β) :
    (emit event >>= f).log = event :: (f ()).log := rfl

theorem lift_bind_log {x : Exec α} {f : α → Logged ε β} {a : α} (ok : x = .ok a) :
    (lift x >>= f).log = (f a).log := bind_log ok

end Logged

end Library
