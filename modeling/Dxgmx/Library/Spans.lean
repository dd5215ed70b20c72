import Mathlib.Order.Lattice
import Mathlib.Order.Defs.LinearOrder
import Mathlib.Tactic.Order
import Mathlib.Data.List.Pairwise

namespace Library

/-- A labelled half-open interval. -/
structure Span (α ρ : Type*) where
  lo : α
  hi : α
  label : ρ

section

variable {α ρ : Type*} [LinearOrder α] {s t : Span α ρ} {spans : List (Span α ρ)} {a b x : α} {l : ρ}

def Span.Holds (s : Span α ρ) (x : α) : Prop := s.lo ≤ x ∧ x < s.hi

def Span.Apart (s t : Span α ρ) : Prop := s.hi ≤ t.lo ∨ t.hi ≤ s.lo

instance span_apart_symm : Std.Symm (Span.Apart (α := α) (ρ := ρ)) := ⟨fun _ _ => Or.symm⟩

def Covers (spans : List (Span α ρ)) (x : α) (l : ρ) : Prop := ∃ s ∈ spans, s.Holds x ∧ s.label = l

/-- Spans that are sorted, apart and not empty. -/
structure Ordered (spans : List (Span α ρ)) : Prop where
  nonempty : ∀ s ∈ spans, s.lo < s.hi
  sorted : spans.Pairwise fun s t => s.lo ≤ t.lo
  apart : spans.Pairwise Span.Apart

theorem ordered_iff : Ordered spans ↔
    (∀ s ∈ spans, s.lo < s.hi) ∧ spans.Pairwise fun s t => s.hi ≤ t.lo := by
  constructor
  · intro ordered
    refine ⟨ordered.nonempty, (ordered.sorted.and ordered.apart).imp_of_mem ?_⟩
    rintro s t - member ⟨below, before | after⟩
    · exact before
    · have some_ := ordered.nonempty t member
      order
  · rintro ⟨some_, before⟩
    refine ⟨some_, before.imp_of_mem fun member _ before => ?_, before.imp .inl⟩
    exact (some_ _ member).le.trans before

theorem Ordered.before (ordered : Ordered spans) : spans.Pairwise fun s t => s.hi ≤ t.lo :=
  (ordered_iff.mp ordered).2

theorem Ordered.unique (ordered : Ordered spans) (left : s ∈ spans) (right : t ∈ spans)
    (first : s.Holds x) (second : t.Holds x) : s = t := by
  by_contra different
  unfold Span.Holds at first second
  rcases ordered.apart.forall left right different with before | after
  · order
  · order

/-- Spans that are not empty are apart if they share no point. -/
theorem Span.apart_iff (left : s.lo < s.hi) (right : t.lo < t.hi) :
    s.Apart t ↔ ∀ x, s.Holds x → ¬t.Holds x := by
  unfold Apart Holds
  constructor
  · rintro (before | behind) x first second <;> order
  · intro disjoint
    by_contra meet
    have shared := disjoint (max s.lo t.lo)
    grind

theorem covers_perm {others : List (Span α ρ)} (perm : spans.Perm others) :
    Covers spans x l ↔ Covers others x l := by
  simp only [Covers, perm.mem_iff]

theorem covers_cons : Covers (s :: spans) x l ↔ (s.Holds x ∧ s.label = l) ∨ Covers spans x l := by
  simp [Covers]

/-- A sorted list of spans with one more is in order if the others are, and do not cover any point of
    that one. -/
theorem ordered_insert_iff {all : List (Span α ρ)} (perm : all.Perm (s :: spans))
    (allSorted : all.Pairwise fun s t => s.lo ≤ t.lo) (sorted : spans.Pairwise fun s t => s.lo ≤ t.lo)
    (some_ : s.lo < s.hi) :
    Ordered all ↔ Ordered spans ∧ ∀ x, s.Holds x → ∀ l, ¬Covers spans x l := by
  constructor
  · intro ordered
    have apart := (perm.pairwise_iff Or.symm).mp ordered.apart
    rw [List.pairwise_cons] at apart
    have nonempty : ∀ t ∈ spans, t.lo < t.hi := fun t member =>
      ordered.nonempty t (perm.mem_iff.mpr (List.mem_cons_of_mem _ member))
    refine ⟨⟨nonempty, sorted, apart.2⟩, ?_⟩
    rintro x inside l ⟨t, member, holds, -⟩
    exact (Span.apart_iff some_ (nonempty t member)).mp (apart.1 t member) x inside holds
  · rintro ⟨ordered, free⟩
    refine ⟨fun t member => ?_, allSorted, (perm.pairwise_iff Or.symm).mpr ?_⟩
    · rcases List.mem_cons.mp (perm.mem_iff.mp member) with rfl | member
      · exact some_
      · exact ordered.nonempty t member
    · refine .cons (fun t member => ?_) ordered.apart
      exact (Span.apart_iff some_ (ordered.nonempty t member)).mpr fun x inside holds =>
        free x inside t.label ⟨t, member, holds, rfl⟩

/-- What is left of a span without `[a, b)`. -/
def Span.without (a b : α) (s : Span α ρ) : List (Span α ρ) :=
  (if s.lo < min s.hi a then [⟨s.lo, min s.hi a, s.label⟩] else []) ++
    if max s.lo b < s.hi then [⟨max s.lo b, s.hi, s.label⟩] else []

theorem Span.mem_without : t ∈ s.without a b ↔ t.label = s.label ∧ t.lo < t.hi ∧
    ((t.lo = s.lo ∧ t.hi = min s.hi a) ∨ (t.lo = max s.lo b ∧ t.hi = s.hi)) := by
  unfold without
  rcases t with ⟨lo, hi, label⟩
  simp only [List.mem_append, List.mem_ite_nil_right, List.mem_singleton, Span.mk.injEq]
  grind

theorem Span.without_apart (some_ : s.lo < s.hi) (range : a ≤ b) (apart : s.hi ≤ a ∨ b ≤ s.lo) :
    s.without a b = [s] := by
  unfold without
  rcases apart with before | behind
  · rw [min_eq_left before, if_pos some_, if_neg]
    · rfl
    · exact not_lt_of_ge (before.trans (range.trans (le_max_right _ _)))
  · rw [max_eq_left behind, if_pos some_, if_neg]
    · rfl
    · exact not_lt_of_ge ((min_le_right _ _).trans (range.trans behind))

theorem flatMap_without_apart (range : a ≤ b)
    (apart : ∀ s ∈ spans, s.lo < s.hi ∧ (s.hi ≤ a ∨ b ≤ s.lo)) :
    spans.flatMap (Span.without a b) = spans := by
  induction spans with
  | nil => rfl
  | cons s spans ih =>
    rcases apart s List.mem_cons_self with ⟨some_, away⟩
    rw [List.flatMap_cons, Span.without_apart some_ range away,
      ih fun t member => apart t (List.mem_cons_of_mem _ member)]
    rfl

/-- The part before `[a, b)` and the part behind it. -/
theorem Span.without_holds :
    (∃ t ∈ s.without a b, t.Holds x) ↔ s.Holds x ∧ ¬(a ≤ x ∧ x < b) := by
  simp only [mem_without, Holds]
  constructor
  · rintro ⟨t, ⟨-, some_, ⟨lo, hi⟩ | ⟨lo, hi⟩⟩, inside⟩ <;> grind
  · rintro ⟨inside, outside⟩
    rcases lt_or_ge x a with before | behind
    · exact ⟨⟨s.lo, min s.hi a, s.label⟩, by grind⟩
    · exact ⟨⟨max s.lo b, s.hi, s.label⟩, by grind⟩

theorem Span.without_bounds (member : t ∈ s.without a b) : s.lo ≤ t.lo ∧ t.hi ≤ s.hi := by
  rw [mem_without] at member
  grind

theorem covers_without :
    Covers (spans.flatMap (Span.without a b)) x l ↔ Covers spans x l ∧ ¬(a ≤ x ∧ x < b) := by
  constructor
  · rintro ⟨t, member, inside, rfl⟩
    rcases List.mem_flatMap.mp member with ⟨s, here, piece⟩
    rcases Span.without_holds.mp ⟨t, piece, inside⟩ with ⟨old, outside⟩
    exact ⟨⟨s, here, old, (Span.mem_without.mp piece).1.symm⟩, outside⟩
  · rintro ⟨⟨s, here, inside, rfl⟩, outside⟩
    rcases Span.without_holds.mpr ⟨inside, outside⟩ with ⟨t, piece, new⟩
    exact ⟨t, List.mem_flatMap.mpr ⟨s, here, piece⟩, new, (Span.mem_without.mp piece).1⟩

theorem Span.without_before (range : a ≤ b) :
    (s.without a b).Pairwise fun t u => t.hi ≤ u.lo := by
  unfold Span.without
  split_ifs
  · exact List.pairwise_pair.mpr ((min_le_right _ _).trans (range.trans (le_max_right _ _)))
  · exact List.pairwise_singleton _ _
  · exact List.pairwise_singleton _ _
  · exact .nil

theorem Ordered.without (ordered : Ordered spans) (range : a ≤ b) :
    Ordered (spans.flatMap (Span.without a b)) := by
  rw [ordered_iff, List.pairwise_flatMap]
  refine ⟨fun t member => ?_, fun s _ => Span.without_before range,
    ordered.before.imp fun before t left u right => ?_⟩
  · rcases List.mem_flatMap.mp member with ⟨s, -, piece⟩
    exact (Span.mem_without.mp piece).2.1
  · exact (Span.without_bounds left).2.trans (before.trans (Span.without_bounds right).1)

end

end Library
