import Mathlib.Data.List.Chain
import Dxgmx.Mem.MregmapSweep

open Library

namespace Dxgmx

section

variable {region r : MemoryRegion}

theorem stop_toNat (ends : r.finish < 2 ^ 64) : (r.start + r.size).toNat = r.finish := by
  rw [BitVec.toNat_add]
  exact Nat.mod_eq_of_lt ends

theorem sizeT_toNat (n : BitVec 64) : (sizeT n).toNat = n.toNat % 2 ^ 32 := by
  unfold sizeT
  rw [BitVec.toNat_setWidth_of_le (by decide), BitVec.toNat_setWidth]

theorem splits_iff (regionEnds : region.finish < 2 ^ 64) (ends : r.finish < 2 ^ 64) :
    region.Splits r ↔ r.start.toNat < region.start.toNat ∧ region.finish < r.finish := by
  unfold MemoryRegion.Splits
  rw [BitVec.lt_def, BitVec.lt_def, stop_toNat ends, stop_toNat regionEnds]

/-- The bytes that are to be cut off the end of a region, as they are kept. -/
theorem shrinkEnd_toNat (ends : r.finish < 2 ^ 64) (meets : region.start.toNat < r.finish) :
    (sizeT (r.start + r.size - region.start)).toNat =
      (r.finish - region.start.toNat) % 2 ^ 32 := by
  rw [sizeT_toNat, BitVec.toNat_sub_of_le (by rw [BitVec.le_def, stop_toNat ends]; omega),
    stop_toNat ends]

theorem shrinkBeginning_toNat (regionEnds : region.finish < 2 ^ 64)
    (meets : r.start.toNat < region.finish) :
    (sizeT (region.start + region.size - r.start)).toNat =
      (region.finish - r.start.toNat) % 2 ^ 32 := by
  rw [sizeT_toNat, BitVec.toNat_sub_of_le (by rw [BitVec.le_def, stop_toNat regionEnds]; omega),
    stop_toNat regionEnds]

theorem mregShrink_small {size : BitVec 64} (small : size.toNat < r.size.toNat) :
    mregShrink size r = (0, { r with size := r.size - size }) := by
  unfold mregShrink
  rw [if_neg fun enough => Nat.not_le_of_lt small (BitVec.le_def.mp enough)]

theorem trimmed_apart (regionEnds : region.finish < 2 ^ 64) (ends : r.finish < 2 ^ 64)
    (some_ : r.start.toNat < r.finish)
    (apart : r.finish ≤ region.start.toNat ∨ region.finish ≤ r.start.toNat) :
    region.trimmed r = some r := by
  have order : region.start.toNat ≤ region.finish := Nat.le_add_right _ _
  unfold MemoryRegion.trimmed
  rcases apart with before | after
  · rw [if_pos (BitVec.lt_def.mpr (by omega)), if_neg]
    rw [BitVec.lt_def, stop_toNat ends]
    omega
  · rw [if_neg (by rw [BitVec.lt_def]; omega), if_neg, if_neg]
    · rw [BitVec.lt_def, stop_toNat regionEnds]
      omega
    · rw [BitVec.le_def, stop_toNat ends, stop_toNat regionEnds]
      omega

theorem trimmed_covered (regionEnds : region.finish < 2 ^ 64) (ends : r.finish < 2 ^ 64)
    (first : region.start.toNat ≤ r.start.toNat) (last : r.finish ≤ region.finish) :
    region.trimmed r = none := by
  unfold MemoryRegion.trimmed
  rw [if_neg (by rw [BitVec.lt_def]; omega), if_pos]
  rw [BitVec.le_def, stop_toNat ends, stop_toNat regionEnds]
  exact last

theorem trimmed_end (ends : r.finish < 2 ^ 64)
    (first : r.start.toNat < region.start.toNat) (meets : region.start.toNat < r.finish) :
    ∃ cut, region.trimmed r = some cut ∧ cut.start = r.start ∧ cut.perms = r.perms ∧
      cut.finish = r.finish - (r.finish - region.start.toNat) % 2 ^ 32 := by
  have amount := shrinkEnd_toNat ends meets
  have wide : r.finish = r.start.toNat + r.size.toNat := rfl
  have small : (r.finish - region.start.toNat) % 2 ^ 32 < r.size.toNat := by omega
  refine ⟨{ r with size := r.size - sizeT (r.start + r.size - region.start) }, ?_, rfl, rfl, ?_⟩
  · unfold MemoryRegion.trimmed
    rw [if_pos (BitVec.lt_def.mpr first),
      if_pos (by rw [BitVec.lt_def, stop_toNat ends]; exact meets)]
    dsimp only
    rw [mregShrink_small (by rw [amount]; exact small), if_neg (show ¬(0 : Int) = 1 by decide)]
  · unfold MemoryRegion.finish
    dsimp only
    rw [BitVec.toNat_sub_of_le (by rw [BitVec.le_def, amount]; omega), amount]
    unfold MemoryRegion.finish at *
    omega

theorem trimmed_beginning (regionEnds : region.finish < 2 ^ 64) (ends : r.finish < 2 ^ 64)
    (first : region.start.toNat ≤ r.start.toNat) (meets : r.start.toNat < region.finish)
    (last : region.finish < r.finish) :
    ∃ cut, region.trimmed r = some cut ∧ cut.start.toNat = region.finish ∧ cut.perms = r.perms ∧
      cut.finish + (region.finish - r.start.toNat) % 2 ^ 32 = region.finish + r.size.toNat := by
  have amount := shrinkBeginning_toNat regionEnds meets
  have wide : r.finish = r.start.toNat + r.size.toNat := rfl
  have small : (region.finish - r.start.toNat) % 2 ^ 32 < r.size.toNat := by omega
  refine ⟨{ r with
      start := region.start + region.size
      size := r.size - sizeT (region.start + region.size - r.start) }, ?_,
    stop_toNat regionEnds, rfl, ?_⟩
  · unfold MemoryRegion.trimmed
    rw [if_neg (by rw [BitVec.lt_def]; omega), if_neg, if_pos]
    · dsimp only
      rw [mregShrink_small (by rw [amount]; exact small), if_pos rfl]
    · rw [BitVec.lt_def, stop_toNat regionEnds]
      exact meets
    · rw [BitVec.le_def, stop_toNat ends, stop_toNat regionEnds]
      omega
  · rw [MemoryRegion.finish, stop_toNat regionEnds,
      BitVec.toNat_sub_of_le (by rw [BitVec.le_def, amount]; omega), amount]
    omega

/-- A cut of a region is exact if what is cut off fits a `size_t`. -/
structure CutsExactly (region r : MemoryRegion) : Prop where
  atEnd : r.start.toNat < region.start.toNat → region.start.toNat < r.finish →
    r.finish ≤ region.finish → r.finish - region.start.toNat < 2 ^ 32
  atBeginning : region.start.toNat ≤ r.start.toNat → r.start.toNat < region.finish →
    region.finish < r.finish → region.finish - r.start.toNat < 2 ^ 32

theorem trimmed_spans (regionEnds : region.finish < 2 ^ 64) (ends : r.finish < 2 ^ 64)
    (some_ : r.start.toNat < r.finish) (whole : ¬region.Splits r) (cuts : CutsExactly region r) :
    (region.trimmed r).toList.map MemoryRegion.span =
      r.span.without region.start.toNat region.finish := by
  have order : region.start.toNat ≤ region.finish := Nat.le_add_right _ _
  rw [splits_iff regionEnds ends] at whole
  by_cases apart : r.finish ≤ region.start.toNat ∨ region.finish ≤ r.start.toNat
  · rw [trimmed_apart regionEnds ends some_ apart, Span.without_apart some_ order apart]
    rfl
  rw [not_or, Nat.not_le, Nat.not_le] at apart
  unfold Span.without MemoryRegion.span
  dsimp only
  by_cases first : r.start.toNat < region.start.toNat
  · rcases trimmed_end ends first apart.1 with ⟨cut, trim, start, perms, finish⟩
    have fits := cuts.atEnd first apart.1 (by omega)
    rw [Nat.mod_eq_of_lt fits] at finish
    rw [trim, if_pos (by omega), if_neg (by omega), Nat.min_eq_right apart.1.le]
    have bound : cut.finish = region.start.toNat := by omega
    simp [start, perms, bound]
  · by_cases last : r.finish ≤ region.finish
    · rw [trimmed_covered regionEnds ends (Nat.le_of_not_lt first) last, if_neg (by omega),
        if_neg (by omega)]
      rfl
    · rcases trimmed_beginning regionEnds ends (by omega) apart.2 (by omega) with
        ⟨cut, trim, start, perms, finish⟩
      have fits := cuts.atBeginning (by omega) apart.2 (by omega)
      rw [Nat.mod_eq_of_lt fits] at finish
      have wide : r.finish = r.start.toNat + r.size.toNat := rfl
      have bound : cut.finish = r.finish := by omega
      rw [trim, if_neg (by omega), if_pos (by omega), Nat.max_eq_right apart.2.le]
      simp [start, perms, bound]

theorem trimmed_none (regionEnds : region.finish < 2 ^ 64) (ends : r.finish < 2 ^ 64)
    (some_ : r.start.toNat < r.finish) (removed : region.trimmed r = none) :
    region.start.toNat ≤ r.start.toNat ∧ r.finish ≤ region.finish := by
  by_cases apart : r.finish ≤ region.start.toNat ∨ region.finish ≤ r.start.toNat
  · rw [trimmed_apart regionEnds ends some_ apart] at removed
    cases removed
  rw [not_or, Nat.not_le, Nat.not_le] at apart
  by_contra kept
  by_cases first : r.start.toNat < region.start.toNat
  · rcases trimmed_end ends first apart.1 with ⟨cut, trim, -⟩
    rw [trim] at removed
    cases removed
  · rcases trimmed_beginning regionEnds ends (by omega) apart.2 (by omega) with ⟨cut, trim, -⟩
    rw [trim] at removed
    cases removed

end

/-- A region that does not wrap, is not empty and is not split. -/
structure Unsplit (region r : MemoryRegion) : Prop where
  ends : r.finish < 2 ^ 64
  some_ : r.start.toNat < r.finish
  whole : ¬region.Splits r

/-- The region behind one that goes is not looked at, and has nothing to lose. -/
def SkipsRightly (region r q : MemoryRegion) : Prop :=
  region.start.toNat ≤ r.start.toNat → r.finish ≤ region.finish → region.finish ≤ q.start.toNat

section

variable {region r q : MemoryRegion} {rest : List MemoryRegion}

theorem Unsplit.spans (regionEnds : region.finish < 2 ^ 64) (unsplit : Unsplit region r)
    (cuts : CutsExactly region r) : (region.trimmed r).toList.map MemoryRegion.span =
      r.span.without region.start.toNat region.finish :=
  trimmed_spans regionEnds unsplit.ends unsplit.some_ unsplit.whole cuts

theorem Unsplit.behind (regionEnds : region.finish < 2 ^ 64) (unsplit : Unsplit region q)
    (behind : region.finish ≤ q.start.toNat) : region.trimmed q = some q :=
  trimmed_apart regionEnds unsplit.ends unsplit.some_ (.inr behind)

theorem Unsplit.none (regionEnds : region.finish < 2 ^ 64) (unsplit : Unsplit region r)
    (removed : region.trimmed r = none) :
    region.start.toNat ≤ r.start.toNat ∧ r.finish ≤ region.finish :=
  trimmed_none regionEnds unsplit.ends unsplit.some_ removed

/-- Where every cut is exact and no region is skipped that has to go, the loop leaves the
    difference. -/
theorem sweep_spans (regionEnds : region.finish < 2 ^ 64) (unsplit : ∀ r ∈ rest, Unsplit region r)
    (cuts : ∀ r ∈ rest, CutsExactly region r) (chain : rest.IsChain (SkipsRightly region)) :
    (region.sweep rest).map MemoryRegion.span =
      (rest.map MemoryRegion.span).flatMap (Span.without region.start.toNat region.finish) := by
  fun_induction MemoryRegion.sweep region rest with
  | case1 => rfl
  | case2 r =>
    have member := List.mem_singleton_self r
    simp [(unsplit r member).spans regionEnds (cuts r member)]
  | case3 r q rest kept ih =>
    have member : r ∈ r :: q :: rest := List.mem_cons_self
    rw [List.map_append, ih (fun p inside => unsplit p (List.mem_cons_of_mem _ inside))
      (fun p inside => cuts p (List.mem_cons_of_mem _ inside)) chain.of_cons,
      (unsplit r member).spans regionEnds (cuts r member)]
    rfl
  | case4 r q rest removed ih =>
    have member : r ∈ r :: q :: rest := List.mem_cons_self
    have next : q ∈ r :: q :: rest := by simp
    have trim : region.trimmed r = none := by simpa using removed
    have covered := (unsplit r member).none regionEnds trim
    have here := (unsplit r member).spans regionEnds (cuts r member)
    have there := (unsplit q next).spans regionEnds (cuts q next)
    have behind := chain.rel covered.1 covered.2
    rw [trim] at here
    rw [(unsplit q next).behind regionEnds behind] at there
    simp only [List.map_cons, List.flatMap_cons, ← here, ← there]
    rw [ih (fun p inside => unsplit p (by simp [inside])) (fun p inside => cuts p (by simp [inside]))
      chain.of_cons.of_cons]
    rfl

theorem mem_sweep (member : r ∈ rest) :
    r ∈ region.sweep rest ∨ ∀ cut, region.trimmed r = some cut → cut ∈ region.sweep rest := by
  fun_induction MemoryRegion.sweep region rest with
  | case1 => cases member
  | case2 p =>
    cases List.mem_singleton.mp member
    right
    intro cut trim
    simp [trim]
  | case3 p q rest kept ih =>
    rcases List.mem_cons.mp member with rfl | member
    · right
      intro cut trim
      simp [trim]
    · rcases ih member with same | cuts
      · exact .inl (List.mem_append_right _ same)
      · exact .inr fun cut trim => List.mem_append_right _ (cuts cut trim)
  | case4 p q rest removed ih =>
    rcases List.mem_cons.mp member with rfl | member
    · right
      intro cut trim
      rw [trim] at removed
      exact absurd rfl removed
    rcases List.mem_cons.mp member with rfl | member
    · exact .inl List.mem_cons_self
    · rcases ih member with same | cuts
      · exact .inl (List.mem_cons_of_mem _ same)
      · exact .inr fun cut trim => List.mem_cons_of_mem _ (cuts cut trim)

/-- If the loop leaves nothing of the removed addresses, it skips no region that has to go. -/
theorem sweep_chain (regionEnds : region.finish < 2 ^ 64) (unsplit : ∀ r ∈ rest, Unsplit region r)
    (before : rest.Pairwise fun r q => r.finish ≤ q.start.toNat)
    (clear : ∀ p ∈ region.sweep rest, ∀ x, p.span.Holds x →
      ¬(region.start.toNat ≤ x ∧ x < region.finish)) : rest.IsChain (SkipsRightly region) := by
  fun_induction MemoryRegion.sweep region rest with
  | case1 => exact .nil
  | case2 r => exact .singleton r
  | case3 r q rest kept ih =>
    refine .cons_cons (fun first last => ?_) (ih (fun p inside => unsplit p (List.mem_cons_of_mem _ inside))
      before.tail fun p inside => clear p (List.mem_append_right _ inside))
    rw [trimmed_covered regionEnds (unsplit r List.mem_cons_self).ends first last] at kept
    cases kept
  | case4 r q rest removed ih =>
    have trim : region.trimmed r = none := by simpa using removed
    have covered := (unsplit r List.mem_cons_self).none regionEnds trim
    have some_ := (unsplit r List.mem_cons_self).some_
    have next := unsplit q (by simp)
    have order := List.rel_of_pairwise_cons before (List.mem_cons_self (a := q))
    have behind : region.finish ≤ q.start.toNat := by
      by_contra inside
      exact clear q List.mem_cons_self q.start.toNat ⟨Nat.le_refl _, next.some_⟩ (by omega)
    have rest_ := ih (fun p inside => unsplit p (by simp [inside])) before.tail.tail
      fun p inside => clear p (List.mem_cons_of_mem _ inside)
    refine .cons_cons (fun _ _ => behind) ?_
    rcases rest with _ | ⟨p, rest⟩
    · exact .singleton q
    · refine .cons_cons (fun _ last => ?_) rest_
      have none_ := next.some_
      omega

/-- The regions of `after` cover what those of `before` do, except for `region`, and are sorted,
    apart and not empty. -/
structure RemovesExactly (region : MemoryRegion) (before after : List MemoryRegion) : Prop where
  covers : ∀ (x : BitVec 64) (perms : BitVec 8),
    Covers (after.map MemoryRegion.span) x.toNat perms ↔
      Covers (before.map MemoryRegion.span) x.toNat perms ∧
        ¬(region.start.toNat ≤ x.toNat ∧ x.toNat < region.finish)
  ordered : Ordered (after.map MemoryRegion.span)

theorem RemovesExactly.at {after : List MemoryRegion} (exact_ : RemovesExactly region rest after)
    {x : Nat} (bound : x < 2 ^ 64) (perms : BitVec 8) :
    Covers (after.map MemoryRegion.span) x perms ↔ Covers (rest.map MemoryRegion.span) x perms ∧
      ¬(region.start.toNat ≤ x ∧ x < region.finish) := by
  have covers := exact_.covers (BitVec.ofNat 64 x) perms
  rw [BitVec.toNat_ofNat, Nat.mod_eq_of_lt bound] at covers
  exact covers

theorem removesExactly_of_spans {after : List MemoryRegion}
    (ordered : Ordered (rest.map MemoryRegion.span))
    (spans : after.map MemoryRegion.span =
      (rest.map MemoryRegion.span).flatMap (Span.without region.start.toNat region.finish)) :
    RemovesExactly region rest after := by
  refine ⟨fun x perms => ?_, ?_⟩
  · rw [spans]
    exact covers_without
  · rw [spans]
    exact ordered.without (Nat.le_add_right _ _)

theorem covers_of_mem {x : Nat} (member : r ∈ rest) (inside : r.span.Holds x) :
    Covers (rest.map MemoryRegion.span) x r.perms :=
  ⟨r.span, List.mem_map_of_mem member, inside, rfl⟩

theorem RemovesExactly.clear {after : List MemoryRegion} (exact_ : RemovesExactly region rest after)
    (regionEnds : region.finish < 2 ^ 64) (member : r ∈ after) {x : Nat} (inside : r.span.Holds x) :
    ¬(region.start.toNat ≤ x ∧ x < region.finish) := by
  intro within
  exact ((exact_.at (within.2.trans regionEnds) r.perms).mp (covers_of_mem member inside)).2 within

theorem RemovesExactly.keeps {after : List MemoryRegion} (exact_ : RemovesExactly region rest after)
    (member : r ∈ rest) {x : Nat} (bound : x < 2 ^ 64) (inside : r.span.Holds x)
    (outside : ¬(region.start.toNat ≤ x ∧ x < region.finish)) : ∃ p ∈ after, p.span.Holds x := by
  rcases (exact_.at bound r.perms).mpr ⟨covers_of_mem member inside, outside⟩ with ⟨s, here, holds, -⟩
  rcases List.mem_map.mp here with ⟨p, there, rfl⟩
  exact ⟨p, there, holds⟩

/-- A cut whose size does not fit leaves a part that had to go, or reaches into the next region. -/
theorem RemovesExactly.cuts (exact_ : RemovesExactly region rest (region.sweep rest))
    (regionEnds : region.finish < 2 ^ 64) (unsplit : ∀ r ∈ rest, Unsplit region r)
    (ordered : Ordered (rest.map MemoryRegion.span)) (member : r ∈ rest) :
    CutsExactly region r := by
  have ends := (unsplit r member).ends
  have wide : r.finish = r.start.toNat + r.size.toNat := rfl
  constructor
  · intro first meets last
    by_contra long
    rcases trimmed_end ends first meets with ⟨cut, trim, start, -, finish⟩
    have rest_ : (r.finish - region.start.toNat) % 2 ^ 32 < r.finish - region.start.toNat := by omega
    have within : region.start.toNat < region.finish := by omega
    rcases mem_sweep member with same | cuts
    · exact exact_.clear regionEnds same ⟨first.le, meets⟩ ⟨Nat.le_refl _, within⟩
    · refine exact_.clear regionEnds (cuts cut trim) (x := region.start.toNat) ⟨?_, ?_⟩
        ⟨Nat.le_refl _, within⟩
      · show cut.start.toNat ≤ _
        rw [start]
        exact first.le
      · show _ < cut.finish
        omega
  · intro first meets last
    by_contra long
    rcases trimmed_beginning regionEnds ends first meets last with ⟨cut, trim, start, -, finish⟩
    rcases mem_sweep member with same | cuts
    · exact exact_.clear regionEnds same ⟨Nat.le_refl _, (unsplit r member).some_⟩ ⟨first, meets⟩
    · have reaches : cut.span.Holds r.finish := by
        refine ⟨?_, ?_⟩
        · show cut.start.toNat ≤ _
          omega
        · show _ < cut.finish
          omega
      have new := covers_of_mem (cuts cut trim) reaches
      rcases ((exact_.at ends cut.perms).mp new).1 with ⟨s, old, holds, -⟩
      rcases List.mem_map.mp old with ⟨q, there, rfl⟩
      have different : r.span ≠ q.span := by
        intro same
        rw [← same] at holds
        exact Nat.lt_irrefl _ holds.2
      have behind : r.finish ≤ q.start.toNat := by
        rcases ordered.apart.forall (List.mem_map_of_mem member) old different with behind | ahead
        · exact behind
        · have upper : r.finish < q.finish := holds.2
          exact absurd (show q.finish ≤ r.start.toNat from ahead) (by omega)
      have stays := (unsplit q there).behind regionEnds (by omega)
      have kept : q ∈ region.sweep rest := (mem_sweep there).elim id fun cuts => cuts q stays
      have same := exact_.ordered.unique (List.mem_map_of_mem kept)
        (List.mem_map_of_mem (cuts cut trim)) holds reaches
      have starts : q.start.toNat = cut.start.toNat := congrArg Span.lo same
      omega

theorem ordered_before (ordered : Ordered (rest.map MemoryRegion.span)) :
    rest.Pairwise fun r q => r.finish ≤ q.start.toNat :=
  List.pairwise_map.mp ordered.before

/-- The loop is exact on regions that it does not split if and only if every cut and every step over
    a region is. -/
theorem sweep_exact_iff (regionEnds : region.finish < 2 ^ 64) (unsplit : ∀ r ∈ rest, Unsplit region r)
    (ordered : Ordered (rest.map MemoryRegion.span)) :
    RemovesExactly region rest (region.sweep rest) ↔
      (∀ r ∈ rest, CutsExactly region r) ∧ rest.IsChain (SkipsRightly region) := by
  constructor
  · intro exact_
    exact ⟨fun r member => exact_.cuts regionEnds unsplit ordered member,
      sweep_chain regionEnds unsplit (ordered_before ordered) fun p inside x =>
        exact_.clear regionEnds inside⟩
  · rintro ⟨cuts, chain⟩
    exact removesExactly_of_spans ordered (sweep_spans regionEnds unsplit cuts chain)

end

end Dxgmx
