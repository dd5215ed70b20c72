import Mathlib.Data.List.Basic
import Mathlib.Tactic.Common

namespace Library

/-- A finite run of a labelled step relation. The labels are kept in the order they happened. -/
inductive Run {σ : Type*} {α : Type*} (step : σ → α → σ → Prop) : σ → List α → σ → Prop
  | refl (s : σ) : Run step s [] s
  | snoc {s t u : σ} {trace : List α} {a : α} (run : Run step s trace t) (last : step t a u) :
      Run step s (trace ++ [a]) u

variable {σ : Type*} {α : Type*} {step : σ → α → σ → Prop}

theorem Run.single {s t : σ} {a : α} (h : step s a t) : Run step s [a] t := .snoc (.refl s) h

theorem Run.of_nil {s t : σ} (run : Run step s [] t) : t = s := by
  generalize none : ([] : List α) = trace at run
  cases run with
  | refl => rfl
  | snoc run last => simp at none

theorem Run.append {s t u : σ} {first second : List α} (left : Run step s first t)
    (right : Run step t second u) : Run step s (first ++ second) u := by
  induction right with
  | refl => simpa using left
  | snoc run last ih =>
    rw [← List.append_assoc]
    exact .snoc ih last

theorem Run.mono {wider : σ → α → σ → Prop} (sub : ∀ s a t, step s a t → wider s a t)
    {s t : σ} {trace : List α} (run : Run step s trace t) : Run wider s trace t := by
  induction run with
  | refl => exact .refl _
  | snoc _ last ih => exact .snoc ih (sub _ _ _ last)

/-- What is known of every label of a run is known at every step. -/
theorem Run.labelled {known : α → Prop} {s t : σ} {trace : List α} (run : Run step s trace t)
    (all : ∀ a ∈ trace, known a) : Run (fun s a t => step s a t ∧ known a) s trace t := by
  induction run with
  | refl => exact .refl _
  | snoc _ last ih =>
    have here := all _ (List.mem_append_right _ (List.mem_singleton_self _))
    exact .snoc (ih fun a member => all a (List.mem_append_left _ member)) ⟨last, here⟩

/-- What every step says of its label is known of all labels of a run. -/
theorem Run.labels {known : α → Prop} (each : ∀ s a t, step s a t → known a) {s t : σ}
    {trace : List α} (run : Run step s trace t) : ∀ a ∈ trace, known a := by
  induction run with
  | refl => nofun
  | snoc _ last ih =>
    intro a member
    rcases List.mem_append.mp member with before | here
    · exact ih a before
    · cases List.mem_singleton.mp here
      exact each _ _ _ last

/-- A run of an executable step is found by executing it. -/
theorem Run.of_foldlM (next : σ → α → Option σ) {s t : σ} {trace : List α}
    (done : trace.foldlM next s = some t) : Run (fun s a t => next s a = some t) s trace t := by
  induction trace generalizing s with
  | nil =>
    cases done
    exact .refl _
  | cons a trace ih =>
    rw [List.foldlM_cons] at done
    obtain ⟨middle, first, rest⟩ := Option.bind_eq_some_iff.mp done
    exact (Run.single first).append (ih rest)

theorem Run.of_foldlM_ok {ε : Type*} {next : σ → α → Except ε σ} {s t : σ} {trace : List α}
    (done : trace.foldlM next s = .ok t) : Run (fun s a t => next s a = .ok t) s trace t := by
  induction trace generalizing s with
  | nil =>
    cases done
    exact .refl _
  | cons a trace ih =>
    rw [List.foldlM_cons] at done
    cases first : next s a with
    | error e =>
      rw [first] at done
      cases done
    | ok middle =>
      rw [first] at done
      exact (Run.single first).append (ih done)

/-- Steps that are runs of smaller steps make a run of these. -/
theorem Run.flatMap {β : Type*} {small : σ → β → σ → Prop} {parts : α → List β}
    (each : ∀ s a t, step s a t → Run small s (parts a) t) {s t : σ} {trace : List α}
    (run : Run step s trace t) : Run small s (trace.flatMap parts) t := by
  induction run with
  | refl => exact .refl _
  | snoc _ last ih =>
    rw [List.flatMap_append, List.flatMap_singleton]
    exact ih.append (each _ _ _ last)

/-- A run of an executable step, each one `safe`, is found by executing it. -/
theorem Run.of_replay {σ α : Type} (next : σ → α → Option σ) (safe : σ → α → Prop)
    [∀ s a, Decidable (safe s a)] (s : σ) (trace : List α)
    (done : (trace.foldlM (fun s a => if safe s a then next s a else none) s).isSome) :
    ∃ t, Run (fun s a t => next s a = some t ∧ safe s a) s trace t := by
  induction trace generalizing s with
  | nil => exact ⟨s, .refl s⟩
  | cons a trace ih =>
    obtain ⟨t, replayed⟩ := Option.isSome_iff_exists.mp done
    rw [List.foldlM_cons] at replayed
    obtain ⟨middle, first, rest⟩ := Option.bind_eq_some_iff.mp replayed
    simp only [Option.ite_none_right_eq_some] at first
    obtain ⟨t', run⟩ := ih middle (by rw [rest]; rfl)
    exact ⟨t', (Run.single first.symm).append run⟩

/-- What holds at the start and is kept by every step holds at the end of every run. -/
theorem Run.invariant (inv : σ → Prop) (keep : ∀ s a t, step s a t → inv s → inv t)
    {s t : σ} {trace : List α} (run : Run step s trace t) (start : inv s) : inv t := by
  induction run with
  | refl => exact start
  | snoc _ last ih => exact keep _ _ _ last ih

/-- The same for an invariant that also speaks of the labels so far. -/
theorem Run.history (inv : List α → σ → Prop)
    (keep : ∀ trace s a t, inv trace s → step s a t → inv (trace ++ [a]) t)
    {s t : σ} {trace : List α} (run : Run step s trace t) (start : inv [] s) : inv trace t := by
  induction run with
  | refl => exact start
  | snoc _ last ih => exact keep _ _ _ _ ih last

/-- An invariant of the run may be assumed of the two states of every step. -/
theorem Run.strengthen (inv : σ → Prop) (keep : ∀ s a t, step s a t → inv s → inv t)
    {s t : σ} {trace : List α} (run : Run step s trace t) (start : inv s) :
    Run (fun s a t => step s a t ∧ inv s ∧ inv t) s trace t := by
  induction run with
  | refl => exact .refl _
  | snoc run last ih =>
    have before := run.invariant inv keep start
    exact .snoc ih ⟨last, before, keep _ _ _ last before⟩

/-- Where a step keeps `good` exactly if it `meets` a condition, the runs whose steps all meet it are
    the runs that are good at every point. -/
theorem Run.good_iff (inv good : σ → Prop) (meets : σ → α → Prop)
    (keep : ∀ s a t, step s a t → inv s → inv t)
    (decides : ∀ s a t, step s a t → inv s → good s → (good t ↔ meets s a)) {s t : σ}
    {trace : List α} (start : inv s) (right : good s) :
    (Run (fun s a t => step s a t ∧ meets s a) s trace t → good t) ∧
      (Run (fun s a t => step s a t ∧ meets s a) s trace t ↔
        Run (fun s a t => step s a t ∧ good t) s trace t) := by
  have kept : ∀ t trace, Run (fun s a t => step s a t ∧ meets s a) s trace t →
      (inv t ∧ good t) ∧ Run (fun s a t => step s a t ∧ good t) s trace t := by
    intro t trace run
    induction run with
    | refl => exact ⟨⟨start, right⟩, .refl _⟩
    | snoc _ last ih =>
      have next := (decides _ _ _ last.1 ih.1.1 ih.1.2).mpr last.2
      exact ⟨⟨keep _ _ _ last.1 ih.1.1, next⟩, .snoc ih.2 ⟨last.1, next⟩⟩
  have met : ∀ t trace, Run (fun s a t => step s a t ∧ good t) s trace t →
      (inv t ∧ good t) ∧ Run (fun s a t => step s a t ∧ meets s a) s trace t := by
    intro t trace run
    induction run with
    | refl => exact ⟨⟨start, right⟩, .refl _⟩
    | snoc _ last ih =>
      have here := (decides _ _ _ last.1 ih.1.1 ih.1.2).mp last.2
      exact ⟨⟨keep _ _ _ last.1 ih.1.1, last.2⟩, .snoc ih.2 ⟨last.1, here⟩⟩
  exact ⟨fun run => (kept _ _ run).1.2, fun run => (kept _ _ run).2, fun run => (met _ _ run).2⟩

section Removal

variable {κ ρ : Type*} {holds : σ → κ → ρ → Prop} {takes : α → κ → ρ → Prop}

/-- A step that takes from what is held exactly what its label says. -/
def TakesAway (holds : σ → κ → ρ → Prop) (takes : α → κ → ρ → Prop) (s : σ) (a : α) (t : σ) : Prop :=
  ∀ k r, holds t k r ↔ holds s k r ∧ ¬takes a k r

/-- What has been taken away stays away, and nothing else goes. -/
theorem Run.takesAway (each : ∀ s a t, step s a t → TakesAway holds takes s a t) {s t : σ}
    {trace : List α} (run : Run step s trace t) (k : κ) (r : ρ) :
    holds t k r ↔ holds s k r ∧ ∀ a ∈ trace, ¬takes a k r := by
  induction run with
  | refl => exact ⟨fun held => ⟨held, nofun⟩, And.left⟩
  | snoc _ last ih =>
    rw [each _ _ _ last k r, ih, List.forall_mem_append, List.forall_mem_singleton, and_assoc]

end Removal

section Lending

variable {κ : Type*}

/-- Between two labels that take the same thing there is one that gives it back. -/
def Exclusive (takes gives : α → κ → Prop) (trace : List α) : Prop :=
  ∀ before first between second after k,
    trace = before ++ first :: (between ++ second :: after) →
      takes first k → takes second k → ∃ back ∈ between, gives back k

/-- Where nothing is given back, what two labels take is disjoint. -/
theorem Exclusive.pairwise {takes : α → κ → Prop} {trace : List α}
    (exclusive : Exclusive takes (fun _ _ => False) trace) :
    trace.Pairwise fun first second => ∀ k, takes first k → ¬ takes second k := by
  induction trace with
  | nil => exact .nil
  | cons first rest ih =>
    refine .cons (fun second member k took again => ?_) (ih fun before a between b after k split =>
      exclusive (first :: before) a between b after k (by rw [split]; rfl))
    obtain ⟨between, after, split⟩ := List.append_of_mem member
    obtain ⟨back, -, gives⟩ := exclusive [] first between second after k (by rw [split]; rfl)
      took again
    exact gives

/-- `k` was taken and has not been given back since. -/
def Outstanding (takes gives : α → κ → Prop) (trace : List α) (k : κ) : Prop :=
  ∃ before first between, trace = before ++ first :: between ∧ takes first k ∧
    ∀ back ∈ between, ¬ gives back k

theorem outstanding_cons {takes gives : α → κ → Prop} {trace : List α} {a : α} {k : κ} :
    Outstanding takes gives (a :: trace) k ↔
      (takes a k ∧ ∀ back ∈ trace, ¬ gives back k) ∨ Outstanding takes gives trace k := by
  constructor
  · rintro ⟨before, first, between, split, took, kept⟩
    rcases before with _ | ⟨_, before⟩
    · cases split
      exact .inl ⟨took, kept⟩
    · cases split
      exact .inr ⟨before, first, between, rfl, took, kept⟩
  · rintro (⟨took, kept⟩ | ⟨before, first, between, rfl, took, kept⟩)
    · exact ⟨[], a, trace, rfl, took, kept⟩
    · exact ⟨a :: before, first, between, rfl, took, kept⟩

theorem not_outstanding_nil {takes gives : α → κ → Prop} {k : κ} :
    ¬ Outstanding takes gives [] k := by
  rintro ⟨before, first, between, split, -⟩
  simp at split

theorem outstanding_snoc {takes gives : α → κ → Prop} {trace : List α} {a : α} {k : κ}
    (h : Outstanding takes gives (trace ++ [a]) k) :
    takes a k ∨ (Outstanding takes gives trace k ∧ ¬ gives a k) := by
  obtain ⟨before, first, between, split, took, kept⟩ := h
  rcases List.eq_nil_or_concat between with rfl | ⟨init, last, rfl⟩
  · have same := List.append_inj' split rfl
    simp only [List.cons.injEq, and_true] at same
    left
    rw [same.2]
    exact took
  · rw [List.concat_eq_append, ← List.cons_append, ← List.append_assoc] at split
    have same := List.append_inj' split rfl
    simp only [List.cons.injEq, and_true] at same
    right
    refine ⟨⟨before, first, init, same.1, took, fun back member => ?_⟩, ?_⟩
    · exact kept back (by simp [member])
    · rw [same.2]
      exact kept last (by simp)

theorem Outstanding.snoc {takes gives : α → κ → Prop} {trace : List α} {k : κ}
    (h : Outstanding takes gives trace k) {a : α} (kept : ¬ gives a k) :
    Outstanding takes gives (trace ++ [a]) k := by
  obtain ⟨before, first, between, rfl, took, none⟩ := h
  refine ⟨before, first, between ++ [a], by simp, took, fun back member => ?_⟩
  rcases List.mem_append.mp member with member | member
  · exact none back member
  · rw [List.mem_singleton.mp member]
    exact kept

theorem Outstanding.taken {takes : α → κ → Prop} (gives : α → κ → Prop) (trace : List α) {a : α}
    {k : κ} (took : takes a k) : Outstanding takes gives (trace ++ [a]) k :=
  ⟨trace, a, [], rfl, took, by simp⟩

/-- What breaks a hold only where nothing is held does not break any. -/
theorem Outstanding.unbroken {takes gives breaks : α → κ → Prop} {trace : List α} {k : κ}
    (h : Outstanding takes gives trace k)
    (harmless : ∀ before b after, trace = before ++ b :: after → breaks b k →
      ¬ Outstanding takes gives before k) :
    Outstanding takes (fun a k => gives a k ∨ breaks a k) trace k := by
  obtain ⟨before, first, between, rfl, took, none⟩ := h
  refine ⟨before, first, between, rfl, took, fun back member ended => ?_⟩
  rcases ended with gave | broke
  · exact none back member gave
  · obtain ⟨kept, rest, rfl⟩ := List.append_of_mem member
    refine harmless (before ++ first :: kept) back rest (by simp) broke ?_
    exact ⟨before, first, kept, rfl, took, fun b inside => none b (by simp [inside])⟩

theorem exclusive_snoc {takes gives : α → κ → Prop} {trace : List α} {a : α}
    (start : Exclusive takes gives trace)
    (fresh : ∀ k, takes a k → ¬ Outstanding takes gives trace k) :
    Exclusive takes gives (trace ++ [a]) := by
  intro before first between second after k split took again
  rcases List.eq_nil_or_concat after with rfl | ⟨init, last, rfl⟩
  · have regroup : before ++ first :: (between ++ [second]) =
        (before ++ first :: between) ++ [second] := by simp
    rw [regroup] at split
    have same := List.append_inj' split rfl
    simp only [List.cons.injEq, and_true] at same
    by_contra none
    push Not at none
    rw [← same.2] at again
    exact fresh k again ⟨before, first, between, same.1, took, none⟩
  · have regroup : before ++ first :: (between ++ second :: init.concat last) =
        (before ++ first :: (between ++ second :: init)) ++ [last] := by simp
    rw [regroup] at split
    have same := List.append_inj' split rfl
    exact start before first between second init k same.1 took again

/-- A system lends exclusively when it takes only what is available, what it takes stops being
    available, and nothing becomes available again except by being given back. -/
theorem Run.exclusive {takes gives : α → κ → Prop} (available : σ → κ → Prop)
    (fromAvailable : ∀ s a t k, step s a t → takes a k → available s k)
    (thenUsed : ∀ s a t k, step s a t → takes a k → ¬ available t k)
    (stays : ∀ s a t k, step s a t → ¬ gives a k → ¬ available s k → ¬ available t k)
    {s t : σ} {trace : List α} (run : Run step s trace t) : Exclusive takes gives trace := by
  have both : Exclusive takes gives trace ∧
      ∀ k, Outstanding takes gives trace k → ¬ available t k := by
    refine run.history (fun trace state => Exclusive takes gives trace ∧
      ∀ k, Outstanding takes gives trace k → ¬ available state k) ?_ ?_
    · rintro trace s a t ⟨exclusive, used⟩ last
      refine ⟨exclusive_snoc exclusive fun k took lent =>
        used k lent (fromAvailable s a t k last took), fun k lent => ?_⟩
      rcases outstanding_snoc lent with took | ⟨lent, kept⟩
      · exact thenUsed s a t k last took
      · exact stays s a t k last kept (used k lent)
    · constructor
      · intro before first between second after k split
        simp at split
      · rintro k ⟨before, first, between, split, -⟩
        simp at split
  exact both.1

end Lending

end Library
