import Mathlib.Data.List.Basic
import Mathlib.Tactic.Common

namespace Library

variable {α : Type*} (sep : α)

/-- The text is empty or has a separator at its end. -/
def Ended (text : List α) : Prop := text = [] ∨ ∃ init, text = init ++ [sep]

variable {sep}

theorem Ended.append {first second : List α} (left : Ended sep first) (right : Ended sep second) :
    Ended sep (first ++ second) := by
  rcases right with rfl | ⟨init, rfl⟩
  · rw [List.append_nil]
    exact left
  · exact .inr ⟨first ++ init, (List.append_assoc first init [sep]).symm⟩

theorem Ended.flatMap {β : Type*} {f : β → List α} {xs : List β} (each : ∀ x ∈ xs, Ended sep (f x)) :
    Ended sep (xs.flatMap f) := by
  induction xs with
  | nil => exact .inl rfl
  | cons x rest ih =>
    rw [List.flatMap_cons]
    apply (each x List.mem_cons_self).append
    exact ih fun y member => each y (List.mem_cons_of_mem x member)

theorem prefix_before_sep {text first rest : List α} (absent : sep ∉ text)
    (starts : text <+: first ++ sep :: rest) : text <+: first := by
  rcases List.prefix_or_prefix_of_prefix starts (List.prefix_append first (sep :: rest)) with
    shorter | ⟨more, rfl⟩
  · exact shorter
  · rw [List.prefix_append_right_inj] at starts
    cases more with
    | nil => simp
    | cons c more =>
      obtain ⟨rfl, -⟩ := List.cons_prefix_cons.mp starts
      exact absurd (List.mem_append_right first List.mem_cons_self) absent

variable [DecidableEq α] (sep)

/-- The lines of a text, read one by one up to its end. What follows the last separator is a line
    where it is not empty. -/
def getLines : List α → List (List α)
  | [] => []
  | c :: rest =>
    if c = sep then [] :: getLines rest
    else
      match getLines rest with
      | [] => [[c]]
      | line :: lines => (c :: line) :: lines

attribute [grind =] getLines

variable {sep}

theorem getLines_line {line : List α} (whole : sep ∉ line) : getLines sep (line ++ [sep]) = [line] := by
  induction line with
  | nil => simp [getLines]
  | cons c rest ih =>
    obtain ⟨here, later⟩ := List.ne_and_not_mem_of_not_mem_cons whole
    rw [List.cons_append, getLines, if_neg here.symm, ih later]

theorem getLines_append_sep (first second : List α) :
    getLines sep (first ++ sep :: second) = getLines sep (first ++ [sep]) ++ getLines sep second := by
  induction first with
  | nil => simp [getLines]
  | cons c rest ih =>
    rw [List.cons_append, List.cons_append, getLines, getLines, ih]
    by_cases here : c = sep
    · rw [if_pos here, if_pos here]
      rfl
    · rw [if_neg here, if_neg here]
      cases lines : getLines sep (rest ++ [sep]) with
      | nil =>
        cases rest with
        | nil => simp [getLines] at lines
        | cons d rest =>
          rw [List.cons_append, getLines] at lines
          split at lines
          · cases lines
          · split at lines <;> cases lines
      | cons line lines => rfl

theorem getLines_append {first : List α} (ended : Ended sep first) (second : List α) :
    getLines sep (first ++ second) = getLines sep first ++ getLines sep second := by
  rcases ended with rfl | ⟨init, rfl⟩
  · rfl
  · rw [List.append_assoc, List.singleton_append, getLines_append_sep]

theorem getLines_flatMap {β : Type*} {f : β → List α} {xs : List β}
    (each : ∀ x ∈ xs, Ended sep (f x)) :
    getLines sep (xs.flatMap f) = xs.flatMap fun x => getLines sep (f x) := by
  induction xs with
  | nil => rfl
  | cons x rest ih =>
    rw [List.flatMap_cons, List.flatMap_cons, getLines_append (each x List.mem_cons_self),
      ih fun y member => each y (List.mem_cons_of_mem x member)]

/-- What stands before the first separator of a text goes into its first line. -/
theorem getLines_whole {first rest line : List α} {lines : List (List α)} (whole : sep ∉ first)
    (read : getLines sep rest = line :: lines) :
    getLines sep (first ++ rest) = (first ++ line) :: lines := by
  induction first with
  | nil => exact read
  | cons c first ih =>
    obtain ⟨here, later⟩ := List.ne_and_not_mem_of_not_mem_cons whole
    rw [List.cons_append, getLines, if_neg here.symm, ih later]
    rfl

theorem takeWhile_sep {first : List α} (absent : sep ∉ first) (rest : List α) :
    (first ++ sep :: rest).takeWhile (· ≠ sep) = first ∧
      (first ++ sep :: rest).dropWhile (· ≠ sep) = sep :: rest := by
  induction first with
  | nil => simp
  | cons c first ih =>
    obtain ⟨here, later⟩ := List.ne_and_not_mem_of_not_mem_cons absent
    have other : c ≠ sep := here.symm
    simpa [other] using ih later

theorem split_at_sep {text : List α} (member : sep ∈ text) :
    sep ∉ text.takeWhile (· ≠ sep) ∧
      text = text.takeWhile (· ≠ sep) ++ sep :: (text.dropWhile (· ≠ sep)).drop 1 := by
  obtain ⟨first, rest, rfl, absent⟩ := List.eq_append_cons_of_mem member
  obtain ⟨taken, dropped⟩ := takeWhile_sep absent rest
  rw [taken, dropped]
  exact ⟨absent, rfl⟩

section Assignments

variable {κ ν : Type*} [DecidableEq κ]

/-- The value that a key is given last. -/
def lastOf (key : κ) : List (κ × ν) → Option ν
  | [] => none
  | (other, value) :: rest => (lastOf key rest).or (if other = key then some value else none)

attribute [grind =] lastOf

theorem lastOf_append (key : κ) (first second : List (κ × ν)) :
    lastOf key (first ++ second) = (lastOf key second).or (lastOf key first) := by
  induction first with
  | nil => simp [lastOf]
  | cons pair rest ih => rw [List.cons_append, lastOf, ih, lastOf, Option.or_assoc]

theorem lastOf_mem {key : κ} {value : ν} {pairs : List (κ × ν)} (last : lastOf key pairs = some value) :
    (key, value) ∈ pairs := by
  induction pairs with
  | nil => cases last
  | cons pair rest ih =>
    rw [lastOf, Option.or_eq_some_iff] at last
    rcases last with later | ⟨-, here⟩
    · exact List.mem_cons_of_mem _ (ih later)
    · split at here
      · rename_i same
        cases same
        cases here
        exact List.mem_cons_self
      · cases here

theorem lastOf_none {key : κ} {pairs : List (κ × ν)} :
    lastOf key pairs = none ↔ ∀ value, (key, value) ∉ pairs := by
  induction pairs with
  | nil => simp [lastOf]
  | cons pair rest ih =>
    rw [lastOf, Option.or_eq_none_iff, ih]
    constructor
    · rintro ⟨later, here⟩ value member
      rcases List.mem_cons.mp member with rfl | member
      · simp at here
      · exact later value member
    · intro absent
      refine ⟨fun value member => absent value (List.mem_cons_of_mem _ member), ?_⟩
      apply if_neg
      rintro rfl
      exact absent pair.2 List.mem_cons_self

end Assignments

end Library
