import Mathlib.Data.List.Basic
import Mathlib.Tactic.Common

namespace Library

variable {α : Type*}

/-- Each component behind a separator. -/
def separated (sep : α) (comps : List (List α)) : List α := comps.flatMap (sep :: ·)

def IsComponent (sep : α) (comp : List α) : Prop := comp ≠ [] ∧ sep ∉ comp

theorem separated_cons (sep : α) (comp : List α) (rest : List (List α)) :
    separated sep (comp :: rest) = sep :: (comp ++ separated sep rest) := rfl

variable [DecidableEq α]

/-- The pieces of a list between separators that are not empty. `piece` is the part of the first
    one that has been read. -/
def componentsFrom (sep : α) (piece : List α) : List α → List (List α)
  | [] => if piece = [] then [] else [piece]
  | a :: rest =>
    if a = sep then
      if piece = [] then componentsFrom sep [] rest else piece :: componentsFrom sep [] rest
    else componentsFrom sep (piece ++ [a]) rest

attribute [grind =] componentsFrom

def components (sep : α) (list : List α) : List (List α) := componentsFrom sep [] list

variable {sep : α}

theorem isComponent_of_mem_componentsFrom {piece list comp : List α} (clean : sep ∉ piece)
    (member : comp ∈ componentsFrom sep piece list) : IsComponent sep comp := by
  induction list generalizing piece with
  | nil =>
    rw [componentsFrom] at member
    split at member
    · cases member
    · rename_i some
      rw [List.mem_singleton.mp member]
      exact ⟨some, clean⟩
  | cons a rest ih =>
    rw [componentsFrom] at member
    split at member
    · split at member
      · exact ih List.not_mem_nil member
      · rename_i some
        rcases List.mem_cons.mp member with rfl | member
        · exact ⟨some, clean⟩
        · exact ih List.not_mem_nil member
    · rename_i other
      refine ih ?_ member
      simp [clean, Ne.symm other]

theorem isComponent_of_mem_components {list comp : List α}
    (member : comp ∈ components sep list) : IsComponent sep comp :=
  isComponent_of_mem_componentsFrom List.not_mem_nil member

theorem mem_of_mem_componentsFrom {piece list comp : List α}
    (member : comp ∈ componentsFrom sep piece list) {a : α} (inside : a ∈ comp) :
    a ∈ piece ∨ a ∈ list := by
  induction list generalizing piece with
  | nil =>
    rw [componentsFrom] at member
    split at member
    · cases member
    · rw [List.mem_singleton.mp member] at inside
      exact .inl inside
  | cons b rest ih =>
    have later (found : a ∈ [] ∨ a ∈ rest) : a ∈ b :: rest :=
      List.mem_cons_of_mem b (found.resolve_left List.not_mem_nil)
    rw [componentsFrom] at member
    split at member
    · split at member
      · exact .inr (later (ih member))
      · rcases List.mem_cons.mp member with rfl | member
        · exact .inl inside
        · exact .inr (later (ih member))
    · rcases ih member with before | behind
      · rcases List.mem_append.mp before with old | here
        · exact .inl old
        · rw [List.mem_singleton.mp here]
          exact .inr List.mem_cons_self
      · exact .inr (List.mem_cons_of_mem b behind)

theorem mem_of_mem_components {list comp : List α} (member : comp ∈ components sep list) {a : α}
    (inside : a ∈ comp) : a ∈ list :=
  (mem_of_mem_componentsFrom member inside).resolve_left List.not_mem_nil

theorem componentsFrom_append {piece text : List α} (clean : sep ∉ text) (list : List α) :
    componentsFrom sep piece (text ++ list) = componentsFrom sep (piece ++ text) list := by
  induction text generalizing piece with
  | nil => rw [List.nil_append, List.append_nil]
  | cons a rest ih =>
    rw [List.mem_cons, not_or] at clean
    rw [List.cons_append, componentsFrom, if_neg (Ne.symm clean.1), ih clean.2,
      List.append_assoc, List.singleton_append]

/-- What stands before and behind a separator is split apart on its own. -/
theorem componentsFrom_append_sep (piece list rest : List α) :
    componentsFrom sep piece (list ++ sep :: rest) =
      componentsFrom sep piece list ++ components sep (sep :: rest) := by
  have behind : components sep (sep :: rest) = componentsFrom sep [] rest := by
    unfold components
    rw [componentsFrom, if_pos rfl, if_pos rfl]
  rw [behind]
  induction list generalizing piece with
  | nil =>
    rw [List.nil_append, componentsFrom, componentsFrom, if_pos rfl]
    split <;> rfl
  | cons a list ih =>
    rw [List.cons_append, componentsFrom, componentsFrom, ih, ih]
    split
    · split <;> rfl
    · rfl

theorem componentsFrom_separated {piece : List α} {comps : List (List α)}
    (wf : ∀ comp ∈ comps, IsComponent sep comp) :
    componentsFrom sep piece (separated sep comps) =
      if piece = [] then comps else piece :: comps := by
  induction comps generalizing piece with
  | nil => rfl
  | cons comp rest ih =>
    have first := wf comp List.mem_cons_self
    have later := @ih comp fun other inside => wf other (List.mem_cons_of_mem _ inside)
    rw [separated_cons, componentsFrom, if_pos rfl, componentsFrom_append first.2,
      List.nil_append, later, if_neg first.1]

/-- Splitting takes apart what was joined. -/
theorem components_separated {comps : List (List α)} (wf : ∀ comp ∈ comps, IsComponent sep comp) :
    components sep (separated sep comps) = comps := by
  unfold components
  rw [componentsFrom_separated wf, if_pos rfl]

end Library
