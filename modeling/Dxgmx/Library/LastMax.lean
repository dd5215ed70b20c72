import Mathlib.Data.List.Induction
import Mathlib.Tactic.Common

namespace Library

variable {α : Type*}

/-- `a` is among the elements of a list that satisfy `p` one of the biggest, and the last of
    them. -/
def IsLastMax (measure : α → Nat) (p : α → Prop) (list : List α) (a : α) : Prop :=
  ∃ before after, list = before ++ a :: after ∧ p a ∧
    (∀ b ∈ before, p b → measure b ≤ measure a) ∧ ∀ b ∈ after, p b → measure b < measure a

variable {measure : α → Nat} {p : α → Prop}

theorem IsLastMax.hit {list : List α} {a : α} (max : IsLastMax measure p list a) : p a := by
  obtain ⟨before, after, -, hit, -⟩ := max
  exact hit

theorem IsLastMax.mem {list : List α} {a : α} (max : IsLastMax measure p list a) : a ∈ list := by
  obtain ⟨before, after, rfl, -⟩ := max
  simp

theorem IsLastMax.le {list : List α} {a b : α} (max : IsLastMax measure p list a)
    (member : b ∈ list) (hit : p b) : measure b ≤ measure a := by
  obtain ⟨before, after, rfl, -, earlier, later⟩ := max
  rcases List.mem_append.mp member with inside | inside
  · exact earlier b inside hit
  · rcases List.mem_cons.mp inside with rfl | inside
    · exact Nat.le_refl _
    · exact Nat.le_of_lt (later b inside hit)

theorem IsLastMax.concat {list : List α} {a b : α} (max : IsLastMax measure p list a)
    (smaller : p b → measure b < measure a) : IsLastMax measure p (list ++ [b]) a := by
  obtain ⟨before, after, rfl, hit, earlier, later⟩ := max
  refine ⟨before, after ++ [b], by simp, hit, earlier, fun c member => ?_⟩
  rcases List.mem_append.mp member with inside | inside
  · exact later c inside
  · rw [List.mem_singleton.mp inside]
    exact smaller

theorem isLastMax_concat_self {list : List α} {a : α} (hit : p a)
    (bigger : ∀ b ∈ list, p b → measure b ≤ measure a) : IsLastMax measure p (list ++ [a]) a :=
  ⟨list, [], rfl, hit, bigger, nofun⟩

variable [DecidablePred p]

section

variable (measure p)

def lastMaxStep (best : Option α) (a : α) : Option α :=
  if p a then
    match best with
    | none => some a
    | some b => if measure b ≤ measure a then some a else some b
  else best

def lastMax (list : List α) : Option α := list.foldl (lastMaxStep measure p) none

theorem lastMax_concat (list : List α) (a : α) :
    lastMax measure p (list ++ [a]) = lastMaxStep measure p (lastMax measure p list) a := by
  unfold lastMax
  rw [List.foldl_append]
  rfl

theorem lastMax_spec (list : List α) :
    (lastMax measure p list = none ∧ ∀ a ∈ list, ¬ p a) ∨
      ∃ a, lastMax measure p list = some a ∧ IsLastMax measure p list a := by
  induction list using List.reverseRecOn with
  | nil => exact .inl ⟨rfl, nofun⟩
  | append_singleton list b ih =>
    rw [lastMax_concat]
    unfold lastMaxStep
    by_cases hit : p b
    · rw [if_pos hit]
      right
      rcases ih with ⟨none, missed⟩ | ⟨a, found, max⟩
      · rw [none]
        exact ⟨b, rfl, isLastMax_concat_self hit fun c member other => absurd other (missed c member)⟩
      · rw [found]
        dsimp only
        by_cases smaller : measure a ≤ measure b
        · rw [if_pos smaller]
          exact ⟨b, rfl, isLastMax_concat_self hit fun c member other =>
            Nat.le_trans (max.le member other) smaller⟩
        · rw [if_neg smaller]
          exact ⟨a, rfl, max.concat fun _ => Nat.lt_of_not_le smaller⟩
    · rw [if_neg hit]
      rcases ih with ⟨none, missed⟩ | ⟨a, found, max⟩
      · refine .inl ⟨none, fun c member => ?_⟩
        rcases List.mem_append.mp member with inside | inside
        · exact missed c inside
        · rw [List.mem_singleton.mp inside]
          exact hit
      · exact .inr ⟨a, found, max.concat fun other => absurd other hit⟩

end

theorem lastMax_none {list : List α} :
    lastMax measure p list = none ↔ ∀ a ∈ list, ¬ p a := by
  rcases lastMax_spec measure p list with ⟨none, missed⟩ | ⟨a, found, max⟩
  · exact iff_of_true none missed
  · rw [found]
    exact iff_of_false nofun fun missed => missed a max.mem max.hit

theorem lastMax_foldl_of_lt {list : List α} {a : α}
    (smaller : ∀ b ∈ list, p b → measure b < measure a) :
    list.foldl (lastMaxStep measure p) (some a) = some a := by
  induction list with
  | nil => rfl
  | cons b rest ih =>
    have kept : lastMaxStep measure p (some a) b = some a := by
      unfold lastMaxStep
      by_cases hit : p b
      · have less := smaller b List.mem_cons_self hit
        rw [if_pos hit]
        show (if measure a ≤ measure b then some b else some a) = some a
        rw [if_neg (Nat.not_le_of_lt less)]
      · rw [if_neg hit]
    rw [List.foldl_cons, kept]
    exact ih fun c inside => smaller c (List.mem_cons_of_mem _ inside)

theorem lastMax_some {list : List α} {a : α} :
    lastMax measure p list = some a ↔ IsLastMax measure p list a := by
  constructor
  · intro found
    rcases lastMax_spec measure p list with ⟨none, -⟩ | ⟨b, other, max⟩
    · rw [none] at found
      cases found
    · rw [other] at found
      cases found
      exact max
  · rintro ⟨before, after, rfl, hit, earlier, later⟩
    have taken : lastMaxStep measure p (lastMax measure p before) a = some a := by
      unfold lastMaxStep
      rw [if_pos hit]
      cases best : lastMax measure p before with
      | none => rfl
      | some b =>
        rcases lastMax_spec measure p before with ⟨none, -⟩ | ⟨c, same, max⟩
        · rw [none] at best
          cases best
        · rw [same] at best
          cases best
          exact if_pos (earlier b max.mem max.hit)
    unfold lastMax at taken ⊢
    rw [List.foldl_append, List.foldl_cons, taken]
    exact lastMax_foldl_of_lt later

/-- Only what satisfies the predicate counts. -/
theorem lastMax_congr {q : α → Prop} [DecidablePred q] {list : List α}
    (same : ∀ a ∈ list, p a ↔ q a) : lastMax measure p list = lastMax measure q list := by
  induction list using List.reverseRecOn with
  | nil => rfl
  | append_singleton list b ih =>
    rw [lastMax_concat, lastMax_concat, ih fun a member => same a (List.mem_append_left _ member)]
    unfold lastMaxStep
    simp only [same b (List.mem_append_right _ (List.mem_singleton_self b))]

/-- What a bigger one before would have been replaced by replaces what was best without it. -/
theorem foldl_lastMaxStep {list : List α} {a : α} {best : Option α}
    (worse : ∀ b, best = some b → measure b ≤ measure a) :
    list.foldl (lastMaxStep measure p) (some a) = some a ∨
      list.foldl (lastMaxStep measure p) (some a) = list.foldl (lastMaxStep measure p) best := by
  induction list generalizing best with
  | nil => exact .inl rfl
  | cons b rest ih =>
    rw [List.foldl_cons, List.foldl_cons]
    by_cases hit : p b
    · by_cases smaller : measure a ≤ measure b
      · right
        have replaced : lastMaxStep measure p (some a) b = some b := by
          unfold lastMaxStep
          rw [if_pos hit]
          exact if_pos smaller
        have too : lastMaxStep measure p best b = some b := by
          unfold lastMaxStep
          rw [if_pos hit]
          cases best with
          | none => rfl
          | some c => exact if_pos (Nat.le_trans (worse c rfl) smaller)
        rw [replaced, too]
      · have kept : lastMaxStep measure p (some a) b = some a := by
          unfold lastMaxStep
          rw [if_pos hit]
          exact if_neg smaller
        rw [kept]
        apply ih
        intro c taken
        unfold lastMaxStep at taken
        rw [if_pos hit] at taken
        cases best with
        | none =>
          cases taken
          exact Nat.le_of_not_le smaller
        | some old =>
          dsimp only at taken
          split at taken
          · cases taken
            exact Nat.le_of_not_le smaller
          · cases taken
            exact worse _ rfl
    · have kept (best : Option α) : lastMaxStep measure p best b = best := if_neg hit
      rw [kept, kept]
      exact ih worse

/-- Taking out what is not the result does not change the result. -/
theorem lastMax_remove {before after : List α} {a : α}
    (other : lastMax measure p (before ++ a :: after) ≠ some a) :
    lastMax measure p (before ++ after) = lastMax measure p (before ++ a :: after) := by
  unfold lastMax at other ⊢
  rw [List.foldl_append, List.foldl_cons] at other
  rw [List.foldl_append, List.foldl_append, List.foldl_cons]
  generalize before.foldl (lastMaxStep measure p) none = best at other ⊢
  by_cases hit : p a
  · by_cases worse : ∀ b, best = some b → measure b ≤ measure a
    · have replaced : lastMaxStep measure p best a = some a := by
        unfold lastMaxStep
        rw [if_pos hit]
        cases best with
        | none => rfl
        | some b => exact if_pos (worse b rfl)
      rw [replaced] at other ⊢
      rcases foldl_lastMaxStep (p := p) worse with same | same
      · exact absurd same other
      · exact same.symm
    · obtain ⟨b, here⟩ := not_forall.mp worse
      obtain ⟨rfl, bigger⟩ := Classical.not_imp.mp here
      have kept : lastMaxStep measure p (some b) a = some b := by
        unfold lastMaxStep
        rw [if_pos hit]
        exact if_neg bigger
      rw [kept]
  · have kept : lastMaxStep measure p best a = best := if_neg hit
    rw [kept]

end Library
