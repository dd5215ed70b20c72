import Dxgmx.Mem.MregmapCuts

open Library

namespace Dxgmx

section

variable {region r : MemoryRegion} {front rest : List MemoryRegion} {map : MemoryRegionMap}

theorem lowerPart_finish (before : r.start.toNat ≤ region.start.toNat) :
    (region.lowerPart r).finish = region.start.toNat := by
  show r.start.toNat + (region.start - r.start).toNat = _
  rw [BitVec.toNat_sub_of_le (BitVec.le_def.mpr before)]
  omega

/-- The end of the upper part is computed from the size of the whole region. -/
theorem upperPart_stop :
    (region.upperPart r).start + (region.upperPart r).size = r.size := by
  show region.start + region.size + (r.size - (region.start + region.size)) = r.size
  rw [BitVec.add_comm, BitVec.sub_add_cancel]

theorem upperPart_start (regionEnds : region.finish < 2 ^ 64) :
    (region.upperPart r).start.toNat = region.finish :=
  stop_toNat regionEnds

/-- What becomes of the upper part when the region `p` in front of it is looked at. -/
theorem trimmed_upperPart {p : MemoryRegion} (regionEnds : region.finish < 2 ^ 64)
    (ends : p.finish < 2 ^ 64) (front : p.finish ≤ region.finish) :
    ¬p.Splits (region.upperPart r) ∧
      p.trimmed (region.upperPart r) =
        if r.size.toNat ≤ p.finish then none else some (region.upperPart r) := by
  have start := upperPart_start (r := r) regionEnds
  have low : p.start.toNat ≤ p.finish := Nat.le_add_right _ _
  constructor
  · rintro ⟨first, -⟩
    rw [BitVec.lt_def] at first
    omega
  · unfold MemoryRegion.trimmed
    rw [upperPart_stop, if_neg (by rw [BitVec.lt_def]; omega)]
    simp only [BitVec.le_def, stop_toNat ends]
    congr 1
    rw [if_neg]
    rw [BitVec.lt_def, stop_toNat ends]
    omega

end

/-- `region` lies within `r`, which stands between the regions of `front` and of `rest`. -/
structure SplitAt (region r : MemoryRegion) (front rest : List MemoryRegion) : Prop where
  first : r.start.toNat < region.start.toNat
  last : region.finish < r.finish
  ends : r.finish < 2 ^ 64
  ahead : ∀ q ∈ front, q.start.toNat < q.finish ∧ q.finish ≤ r.start.toNat
  behind : ∀ q ∈ rest, q.start.toNat < q.finish ∧ q.finish < 2 ^ 64 ∧ r.finish ≤ q.start.toNat
  order : (front ++ r :: rest).Pairwise fun q p => q.start.toNat < p.start.toNat

namespace SplitAt

variable {region r p : MemoryRegion} {front rest : List MemoryRegion} {map : MemoryRegionMap}
  (mem : Nat → Bool) (fuel : Nat)

theorem regionEnds (at_ : SplitAt region r front rest) : region.finish < 2 ^ 64 :=
  at_.last.trans at_.ends

theorem splits (at_ : SplitAt region r front rest) : region.Splits r :=
  (splits_iff at_.regionEnds at_.ends).mpr ⟨at_.first, at_.last⟩

theorem others (at_ : SplitAt region r front rest) (begins : r.start.toNat ≤ p.start.toNat)
    (ends : p.finish ≤ region.finish) :
    ∀ q ∈ front ++ rest, ¬p.Splits q ∧ p.trimmed q = some q := by
  have bound := ends.trans_lt at_.regionEnds
  have last := at_.last
  have some_ : p.start.toNat ≤ p.finish := Nat.le_add_right _ _
  intro q member
  rcases List.mem_append.mp member with before | behind
  · rcases at_.ahead q before with ⟨nonempty, below⟩
    have small : q.finish < 2 ^ 64 := by omega
    refine ⟨fun split => ?_, trimmed_apart bound small nonempty (.inl (by omega))⟩
    have := (splits_iff bound small).mp split
    omega
  · rcases at_.behind q behind with ⟨nonempty, small, above⟩
    refine ⟨fun split => ?_, trimmed_apart bound small nonempty (.inr (by omega))⟩
    have := (splits_iff bound small).mp split
    omega

theorem whole (at_ : SplitAt region r front rest) (begins : r.start.toNat ≤ p.start.toNat)
    (ends : p.finish ≤ region.finish) :
    ∀ q ∈ front ++ region.upperPart r :: rest, ¬p.Splits q := by
  have others := at_.others begins ends
  intro q member
  rcases List.mem_append.mp member with before | inside
  · exact (others q (List.mem_append_left _ before)).1
  rcases List.mem_cons.mp inside with rfl | behind
  · exact (trimmed_upperPart at_.regionEnds (ends.trans_lt at_.regionEnds) ends).1
  · exact (others q (List.mem_append_right _ behind)).1

theorem lower_finish (at_ : SplitAt region r front rest) :
    (region.lowerPart r).finish ≤ region.finish := by
  rw [lowerPart_finish at_.first.le]
  exact Nat.le_add_right _ _

theorem lower_sweep (at_ : SplitAt region r front rest) :
    (region.lowerPart r).sweep (front ++ region.upperPart r :: rest) =
      front ++ if r.size.toNat ≤ region.start.toNat then rest else region.upperPart r :: rest := by
  have others := at_.others (p := region.lowerPart r) (Nat.le_refl _) at_.lower_finish
  have upper := (trimmed_upperPart (r := r) at_.regionEnds
    (at_.lower_finish.trans_lt at_.regionEnds) at_.lower_finish).2
  rw [lowerPart_finish at_.first.le] at upper
  rw [MemoryRegion.sweep_append fun q member => (others q (List.mem_append_left _ member)).2]
  have same : ∀ q ∈ rest, (region.lowerPart r).trimmed q = some q := fun q member =>
    (others q (List.mem_append_right _ member)).2
  split_ifs at upper ⊢ with gone
  · rw [MemoryRegion.sweep_none upper same]
  · rw [MemoryRegion.sweep_keep upper, MemoryRegion.sweep_same same]

theorem upper_sweep (at_ : SplitAt region r front rest) :
    region.sweep (region.upperPart r :: rest) =
      if r.size.toNat ≤ region.finish then rest else region.upperPart r :: rest := by
  have others := at_.others at_.first.le (Nat.le_refl _)
  have upper := (trimmed_upperPart (r := r) at_.regionEnds at_.regionEnds (Nat.le_refl _)).2
  have same : ∀ q ∈ rest, region.trimmed q = some q := fun q member =>
    (others q (List.mem_append_right _ member)).2
  split_ifs at upper ⊢ with gone
  · rw [MemoryRegion.sweep_none upper same]
  · rw [MemoryRegion.sweep_keep upper, MemoryRegion.sweep_same same]

theorem rest_sweep (at_ : SplitAt region r front rest) : region.sweep rest = rest :=
  MemoryRegion.sweep_same fun q member =>
    (at_.others at_.first.le (Nat.le_refl _) q (List.mem_append_right _ member)).2

theorem lower_sorted (at_ : SplitAt region r front rest) {tail : List MemoryRegion}
    (left : tail = rest ∨ tail = region.upperPart r :: rest) :
    bubbleSort (fun q : MemoryRegion => q.start.toNat) (front ++ tail ++ [region.lowerPart r]) =
      front ++ region.lowerPart r :: tail := by
  have first := at_.first
  have last := at_.last
  have width : region.start.toNat ≤ region.finish := Nat.le_add_right _ _
  have perm : (front ++ tail ++ [region.lowerPart r]).Perm (front ++ region.lowerPart r :: tail) := by
    rw [List.append_assoc]
    exact (List.perm_append_singleton _ _).append_left front
  apply bubbleSort_eq perm
  have start : (region.lowerPart r).start.toNat = r.start.toNat := rfl
  have upper := upperPart_start (r := r) at_.regionEnds
  have order := at_.order
  rw [List.pairwise_append, List.pairwise_cons] at order ⊢
  rcases order with ⟨before, ⟨above, after⟩, across⟩
  have lowest : ∀ q ∈ front, q.start.toNat < r.start.toNat := fun q member =>
    across q member r List.mem_cons_self
  have higher : ∀ q ∈ tail, r.start.toNat < q.start.toNat := by
    rcases left with rfl | rfl
    · exact above
    · exact List.forall_mem_cons.mpr ⟨by omega, above⟩
  refine ⟨before, ⟨fun q member => start ▸ higher q member, ?_⟩, fun q member p inside => ?_⟩
  · rcases left with rfl | rfl
    · exact after
    · refine .cons (fun q member => ?_) after
      have := (at_.behind q member).2.2
      omega
  · have low := lowest q member
    rcases List.mem_cons.mp inside with rfl | inside
    · exact low
    · exact low.trans (higher p inside)

/-- The addition of the lower part removes the upper one, finds a place for both, or finds none. -/
theorem addReg_cases (at_ : SplitAt region r front rest) (sized : map.Sized)
    (length : map.regions.length = front.length + rest.length + 1) {split : MemoryRegionMap}
    (same : split = { map with regions := front ++ region.upperPart r :: rest }) :
    (fuel ≤ map.regions.length + 1 ∧
        mregmapAddReg mem fuel (region.lowerPart r) split = .error .fuel) ∨
      (map.regionsCapacity ≤ map.regions.length ∧
        (mregmapAddReg mem fuel (region.lowerPart r) split = .error .fault ∨
          mregmapAddReg mem fuel (region.lowerPart r) split = .ok (false, split))) ∨
      ∃ tail, (tail = rest ∧ r.size.toNat ≤ region.start.toNat ∨
          tail = region.upperPart r :: rest ∧ map.regions.length < map.regionsCapacity) ∧
        mregmapAddReg mem fuel (region.lowerPart r) split =
          .ok (true, { map with regions := front ++ region.lowerPart r :: tail }) := by
  rcases fuel with _ | fuel
  · exact .inl ⟨Nat.zero_le _, rfl⟩
  have room := sized.room
  have size : split.regions.length = map.regions.length := by
    simp [same, length, Nat.add_assoc]
  have whole : ∀ q ∈ split.regions, ¬(region.lowerPart r).Splits q := by
    rw [same]
    exact at_.whole (p := region.lowerPart r) (Nat.le_refl _) at_.lower_finish
  have splitSized : split.Sized := by
    refine ⟨?_, ?_⟩
    · rw [size, same]
      exact room
    · rw [same]
      exact sized.block
  rcases mregmapFixOverlaps_whole mem fuel splitSized.held whole with
    fixed | ⟨short, stops⟩
  · right
    have swept := at_.lower_sweep
    have after : split.regions = front ++ region.upperPart r :: rest := by rw [same]
    rw [after] at fixed
    split_ifs at swept with gone
    · right
      rw [swept] at fixed
      refine ⟨rest, .inl ⟨rfl, gone⟩, ?_⟩
      have fewer : (front ++ rest).length < map.regionsCapacity := by
        rw [List.length_append]
        omega
      rw [mregmapAddReg_inserts fixed ⟨by rw [same]; exact fewer.le, splitSized.block⟩]
      dsimp only
      rw [same, if_pos fewer, at_.lower_sorted (.inl rfl)]
    · rw [swept, ← after] at fixed
      have inserts := mregmapAddReg_inserts fixed splitSized
      split_ifs at inserts with more found
      · right
        refine ⟨_, .inr ⟨rfl, ?_⟩, ?_⟩
        · rw [size, same] at more
          exact more
        · rw [inserts, after, at_.lower_sorted (.inr rfl), same]
      · left
        rw [size, same] at more
        exact ⟨Nat.le_of_not_lt more, .inl inserts⟩
      · left
        rw [size, same] at more
        exact ⟨Nat.le_of_not_lt more, .inr inserts⟩
  · left
    refine ⟨by omega, ?_⟩
    rw [mregmapAddReg, stops]
    rfl

theorem run_split (at_ : SplitAt region r front rest) (sized : map.Sized)
    (place : map.regions = front ++ r :: rest) :
    mregmapFixOverlaps mem fuel region 0 map =
      if fuel ≤ front.length then .error .fuel
      else (do
        let added ← mregmapAddReg mem (fuel - front.length - 1) (region.lowerPart r)
          { map with regions := front ++ region.upperPart r :: rest }
        mregmapFixOverlaps mem (fuel - front.length - 1) region (front.length + 1) added.2) := by
  have others := at_.others at_.first.le (Nat.le_refl _)
  have skip := mregmapFixOverlaps_skip mem fuel sized.held
    (show map.regions = [] ++ front ++ r :: rest from place) (fun q member => (others q (List.mem_append_left _ member)).1)
    fun q member => (others q (List.mem_append_left _ member)).2
  rw [List.length_nil, List.nil_append] at skip
  rw [skip]
  split_ifs with short
  · rw [Nat.sub_eq_zero_of_le short]
    rfl
  · rcases Nat.exists_eq_add_one_of_ne_zero (show fuel - front.length ≠ 0 by omega) with ⟨left, some_⟩
    rw [some_, Nat.add_sub_cancel, mregmapFixOverlaps, if_pos (sized.held.cell place).1,
      mregmapFixOverlap_splits sized.held place at_.splits]
    cases mregmapAddReg mem left (region.lowerPart r)
      { map with regions := front ++ region.upperPart r :: rest } <;> rfl

theorem run_behind (at_ : SplitAt region r front rest) {p : MemoryRegion} {tail : List MemoryRegion}
    (left : tail = rest ∨ tail = region.upperPart r :: rest) {after : MemoryRegionMap}
    (held : after.Held) (place : after.regions = front ++ p :: tail) :
    mregmapFixOverlaps mem fuel region (front.length + 1) after =
        .ok { after with regions := front ++ p :: region.sweep tail } ∨
      (fuel ≤ tail.length ∧
        mregmapFixOverlaps mem fuel region (front.length + 1) after = .error .fuel) := by
  have parts := at_.whole at_.first.le (Nat.le_refl _)
  have whole : ∀ q ∈ tail, ¬region.Splits q := by
    rcases left with rfl | rfl
    · exact fun q member => parts q (List.mem_append_right _ (List.mem_cons_of_mem _ member))
    · exact fun q member => parts q (List.mem_append_right _ member)
  have swept := mregmapFixOverlaps_sweeps mem fuel held
    (show after.regions = front ++ [p] ++ tail by simp [place]) whole
  simpa using swept

theorem run_cases (at_ : SplitAt region r front rest) (sized : map.Sized)
    (place : map.regions = front ++ r :: rest) :
    (fuel ≤ 2 * map.regions.length + 2 ∧
        mregmapFixOverlaps mem fuel region 0 map = .error .fuel) ∨
      (map.regionsCapacity ≤ map.regions.length ∧
        (mregmapFixOverlaps mem fuel region 0 map = .error .fault ∨
          mregmapFixOverlaps mem fuel region 0 map =
            .ok { map with regions := front ++ region.upperPart r :: rest })) ∨
      (r.size.toNat ≤ region.finish ∧ mregmapFixOverlaps mem fuel region 0 map =
        .ok { map with regions := front ++ region.lowerPart r :: rest }) ∨
      (map.regions.length < map.regionsCapacity ∧ region.finish < r.size.toNat ∧
        mregmapFixOverlaps mem fuel region 0 map = .ok { map with
          regions := front ++ region.lowerPart r :: region.upperPart r :: rest }) := by
  have length : map.regions.length = front.length + rest.length + 1 := by
    simp [place, Nat.add_assoc]
  rw [at_.run_split mem fuel sized place]
  split_ifs with short
  · exact .inl ⟨by omega, rfl⟩
  rcases at_.addReg_cases mem (fuel - front.length - 1) sized length rfl with
    ⟨few, stops⟩ | ⟨full, faults | fails⟩ | ⟨tail, left, adds⟩
  · rw [stops]
    exact .inl ⟨by omega, rfl⟩
  · rw [faults]
    exact .inr (.inl ⟨full, .inl rfl⟩)
  · rw [fails, Exec.ok_bind]
    rcases at_.run_behind mem (fuel - front.length - 1) (.inl rfl)
      (sized.held.shrink (by simp; omega)) rfl with done | ⟨few, stops⟩
    · rw [at_.rest_sweep] at done
      exact .inr (.inl ⟨full, .inr done⟩)
    · exact .inl ⟨by omega, stops⟩
  · rw [adds, Exec.ok_bind]
    have width : region.start.toNat ≤ region.finish := Nat.le_add_right _ _
    have held : MemoryRegionMap.Held { map with regions := front ++ region.lowerPart r :: tail } := by
      have cells := sized.block
      have room := sized.room
      unfold MemoryRegionMap.Held memoryRegionSize at *
      rcases left with ⟨rfl, -⟩ | ⟨rfl, more⟩
      · simp
        omega
      · simp
        omega
    rcases at_.run_behind mem (fuel - front.length - 1) (left.imp And.left And.left)
      held rfl with done | ⟨few, stops⟩
    · rcases left with ⟨rfl, small⟩ | ⟨rfl, more⟩
      · rw [at_.rest_sweep] at done
        exact .inr (.inr (.inl ⟨small.trans width, done⟩))
      · rw [at_.upper_sweep] at done
        split_ifs at done with small
        · exact .inr (.inr (.inl ⟨small, done⟩))
        · exact .inr (.inr (.inr ⟨more, Nat.lt_of_not_le small, done⟩))
    · have longest : tail.length ≤ rest.length + 1 := by
        rcases left with ⟨rfl, -⟩ | ⟨rfl, -⟩
        · exact Nat.le_succ _
        · exact Nat.le_refl _
      exact .inl ⟨by omega, stops⟩

/-- A region at address 0 is split where there is room for one more. -/
theorem run_parts (at_ : SplitAt region r front rest) (sized : map.Sized)
    (place : map.regions = front ++ r :: rest) (zero : r.start = 0)
    (more : map.regions.length < map.regionsCapacity) :
    region.finish < r.size.toNat ∧ ∃ fuel, mregmapFixOverlaps mem fuel region 0 map = .ok { map with
      regions := front ++ region.lowerPart r :: region.upperPart r :: rest } := by
  have enough : region.finish < r.size.toNat := by
    have last := at_.last
    have whole : r.finish = r.start.toNat + r.size.toNat := rfl
    have low : r.start.toNat = 0 := by
      rw [zero]
      rfl
    omega
  refine ⟨enough, 2 * map.regions.length + 3, ?_⟩
  rcases at_.run_cases mem (2 * map.regions.length + 3) sized place with
    ⟨few, -⟩ | ⟨full, -⟩ | ⟨small, -⟩ | ⟨-, -, done⟩
  · omega
  · omega
  · omega
  · exact done

theorem others_hold (at_ : SplitAt region r front rest) {q : MemoryRegion} {x : Nat}
    (member : q ∈ front ++ rest) (inside : r.span.Holds x) : ¬q.span.Holds x := by
  intro holds
  have above : q.start.toNat ≤ x := holds.1
  have below : x < q.finish := holds.2
  have low : r.start.toNat ≤ x := inside.1
  have high : x < r.finish := inside.2
  rcases List.mem_append.mp member with before | behind
  · have := (at_.ahead q before).2
    omega
  · have := (at_.behind q behind).2.2
    omega

/-- The addresses in front of the removed ones are lost with the lower part. -/
theorem lower_needed (at_ : SplitAt region r front rest) :
    ¬RemovesExactly region (front ++ r :: rest) (front ++ region.upperPart r :: rest) := by
  intro exact_
  have first := at_.first
  have last := at_.last
  have width : region.start.toNat ≤ region.finish := Nat.le_add_right _ _
  have some_ : r.span.Holds r.start.toNat := ⟨Nat.le_refl _, show _ < r.finish by omega⟩
  rcases exact_.keeps (by simp) r.start.isLt some_ (by omega) with ⟨p, member, holds⟩
  rcases List.mem_append.mp member with before | inside
  · exact at_.others_hold (List.mem_append_left _ before) some_ holds
  rcases List.mem_cons.mp inside with rfl | behind
  · have upper := upperPart_start (r := r) at_.regionEnds
    have above : (region.upperPart r).start.toNat ≤ r.start.toNat := holds.1
    omega
  · exact at_.others_hold (List.mem_append_right _ behind) some_ holds

/-- The addresses behind the removed ones are lost with the upper part. -/
theorem upper_needed (at_ : SplitAt region r front rest) :
    ¬RemovesExactly region (front ++ r :: rest) (front ++ region.lowerPart r :: rest) := by
  intro exact_
  have first := at_.first
  have width : region.start.toNat ≤ region.finish := Nat.le_add_right _ _
  have some_ : r.span.Holds region.finish := ⟨show r.start.toNat ≤ _ by omega, at_.last⟩
  rcases exact_.keeps (by simp) at_.regionEnds some_ (by omega) with ⟨p, member, holds⟩
  rcases List.mem_append.mp member with before | inside
  · exact at_.others_hold (List.mem_append_left _ before) some_ holds
  rcases List.mem_cons.mp inside with rfl | behind
  · have lower := lowerPart_finish first.le
    have below : region.finish < (region.lowerPart r).finish := holds.2
    omega
  · exact at_.others_hold (List.mem_append_right _ behind) some_ holds

/-- The size of the upper part is right if the whole region starts at 0. -/
theorem parts_exact_iff (at_ : SplitAt region r front rest)
    (ordered : Ordered ((front ++ r :: rest).map MemoryRegion.span))
    (enough : region.finish < r.size.toNat) :
    RemovesExactly region (front ++ r :: rest)
      (front ++ region.lowerPart r :: region.upperPart r :: rest) ↔ r.start = 0 := by
  have first := at_.first
  have last := at_.last
  have width : region.start.toNat ≤ region.finish := Nat.le_add_right _ _
  have whole : r.finish = r.start.toNat + r.size.toNat := rfl
  have lower := lowerPart_finish first.le
  have upperStart := upperPart_start (r := r) at_.regionEnds
  have stop := stop_toNat at_.regionEnds
  have upper : (region.upperPart r).finish = r.size.toNat := by
    show (region.start + region.size).toNat + (r.size - (region.start + region.size)).toNat = _
    rw [BitVec.toNat_sub_of_le (BitVec.le_def.mpr (by omega))]
    omega
  constructor
  · intro exact_
    have some_ : r.span.Holds (r.finish - 1) :=
      ⟨show r.start.toNat ≤ _ by omega, show _ < r.finish by omega⟩
    rcases exact_.keeps (by simp) (by have := at_.ends; omega) some_ (by omega) with
      ⟨p, member, holds⟩
    have within : r.finish - 1 < r.size.toNat := by
      rcases List.mem_append.mp member with before | inside
      · exact absurd holds (at_.others_hold (List.mem_append_left _ before) some_)
      rcases List.mem_cons.mp inside with rfl | inside
      · have below : r.finish - 1 < (region.lowerPart r).finish := holds.2
        omega
      rcases List.mem_cons.mp inside with rfl | behind
      · have below : r.finish - 1 < (region.upperPart r).finish := holds.2
        omega
      · exact absurd holds (at_.others_hold (List.mem_append_right _ behind) some_)
    apply BitVec.eq_of_toNat_eq
    show r.start.toNat = 0
    omega
  · intro zero
    have low : r.start.toNat = 0 := by rw [zero]; rfl
    apply removesExactly_of_spans ordered
    have ahead := flatMap_without_apart width (fun s (member : s ∈ front.map MemoryRegion.span) => by
      rcases List.mem_map.mp member with ⟨q, before, rfl⟩
      rcases at_.ahead q before with ⟨nonempty, below⟩
      exact ⟨nonempty, .inl (below.trans first.le)⟩)
    have behind := flatMap_without_apart width (fun s (member : s ∈ rest.map MemoryRegion.span) => by
      rcases List.mem_map.mp member with ⟨q, after, rfl⟩
      rcases at_.behind q after with ⟨nonempty, -, above⟩
      exact ⟨nonempty, .inr (last.le.trans above)⟩)
    have parts : r.span.without region.start.toNat region.finish =
        [(region.lowerPart r).span, (region.upperPart r).span] := by
      unfold Span.without MemoryRegion.span
      rw [lower, upperStart, upper]
      dsimp only
      rw [if_pos (by omega), if_pos (by omega), Nat.min_eq_right (by omega),
        Nat.max_eq_right (by omega)]
      have same : r.finish = r.size.toNat := by omega
      rw [same]
      rfl
    simp only [List.map_append, List.map_cons, List.flatMap_append, List.flatMap_cons, ahead, behind,
      parts, List.cons_append, List.nil_append]

end SplitAt

/-- The regions are sorted, apart, not empty and do not wrap. -/
structure MemoryRegionMap.Valid (map : MemoryRegionMap) : Prop extends map.Sized where
  ordered : Ordered (map.regions.map MemoryRegion.span)
  ends : ∀ r ∈ map.regions, r.finish < 2 ^ 64

/-- A region around `region` starts at 0 and has a cell left for its second part, what is cut off a
    region fits a `size_t`, and no region is skipped that has to go. -/
structure Removable (region : MemoryRegion) (map : MemoryRegionMap) : Prop where
  inside : ∀ r ∈ map.regions, r.start.toNat < region.start.toNat → region.finish < r.finish →
    r.start = 0 ∧ map.regions.length < map.regionsCapacity
  cuts : ∀ r ∈ map.regions, CutsExactly region r
  chain : map.regions.IsChain (SkipsRightly region)

section

variable {map : MemoryRegionMap} {region r : MemoryRegion} {front rest : List MemoryRegion}

theorem MemoryRegionMap.Valid.some_ (valid : map.Valid) (member : r ∈ map.regions) :
    r.start.toNat < r.finish :=
  valid.ordered.nonempty r.span (List.mem_map_of_mem member)

theorem MemoryRegionMap.Valid.splitAt (valid : map.Valid) (place : map.regions = front ++ r :: rest)
    (first : r.start.toNat < region.start.toNat) (last : region.finish < r.finish) :
    SplitAt region r front rest := by
  have before := ordered_before valid.ordered
  have here : ∀ q ∈ front ++ r :: rest, q.start.toNat < q.finish ∧ q.finish < 2 ^ 64 := by
    rw [← place]
    exact fun q member => ⟨valid.some_ member, valid.ends q member⟩
  refine ⟨first, last, (here r (by simp)).2, fun q member => ?_, fun q member => ?_, ?_⟩
  · rw [place, List.pairwise_append] at before
    exact ⟨(here q (by simp [member])).1, before.2.2 q member r List.mem_cons_self⟩
  · rw [place, List.pairwise_append, List.pairwise_cons] at before
    have known := here q (by simp [member])
    exact ⟨known.1, known.2, before.2.1.1 q member⟩
  · rw [place] at before
    exact before.imp_of_mem fun member _ order => (here _ member).1.trans_le order

theorem SplitAt.removable_iff (at_ : SplitAt region r front rest)
    (place : map.regions = front ++ r :: rest) :
    Removable region map ↔ r.start = 0 ∧ map.regions.length < map.regionsCapacity := by
  have first := at_.first
  have last := at_.last
  have width : region.start.toNat ≤ region.finish := Nat.le_add_right _ _
  have away : ∀ q ∈ map.regions, q = r ∨ q.start.toNat < q.finish ∧
      (q.finish ≤ r.start.toNat ∨ r.finish ≤ q.start.toNat) := by
    intro q member
    rw [place] at member
    rcases List.mem_append.mp member with before | inside
    · exact .inr ⟨(at_.ahead q before).1, .inl (at_.ahead q before).2⟩
    rcases List.mem_cons.mp inside with same | behind
    · exact .inl same
    · exact .inr ⟨(at_.behind q behind).1, .inr (at_.behind q behind).2.2⟩
  constructor
  · intro removable
    exact removable.inside r (by simp [place]) first last
  · intro right
    refine ⟨fun q member low high => ?_, fun q member => ⟨fun low meets _ => ?_, fun low meets high => ?_⟩, ?_⟩
    · rcases away q member with rfl | ⟨some_, away⟩
      · exact right
      · omega
    · rcases away q member with rfl | ⟨some_, away⟩ <;> omega
    · rcases away q member with rfl | ⟨some_, away⟩ <;> omega
    · have order := at_.order
      rw [← place] at order
      refine (order.imp_of_mem fun member _ _ low high => ?_).isChain
      rcases away _ member with rfl | ⟨some_, away⟩ <;> omega

theorem SplitAt.exact_iff (at_ : SplitAt region r front rest) (valid : map.Valid)
    (place : map.regions = front ++ r :: rest) (mem : Nat → Bool) :
    (∃ fuel after, mregmapFixOverlaps mem fuel region 0 map = .ok after ∧
      RemovesExactly region map.regions after.regions) ↔ Removable region map := by
  rw [at_.removable_iff place]
  have ordered := valid.ordered
  rw [place] at ordered
  constructor
  · rintro ⟨fuel, after, run, exact_⟩
    rw [place] at exact_
    rcases at_.run_cases mem fuel valid.toSized place with
      ⟨-, stops⟩ | ⟨-, faults | fails⟩ | ⟨-, done⟩ | ⟨more, enough, done⟩
    · cases stops.symm.trans run
    · cases faults.symm.trans run
    · cases fails.symm.trans run
      exact absurd exact_ at_.lower_needed
    · cases done.symm.trans run
      exact absurd exact_ at_.upper_needed
    · cases done.symm.trans run
      exact ⟨(at_.parts_exact_iff ordered enough).mp exact_, more⟩
  · rintro ⟨zero, more⟩
    obtain ⟨enough, fuel, done⟩ := at_.run_parts mem valid.toSized place zero more
    refine ⟨fuel, _, done, ?_⟩
    rw [place]
    exact (at_.parts_exact_iff ordered enough).mpr zero

theorem unsplit_exact_iff (valid : map.Valid) (regionEnds : region.finish < 2 ^ 64)
    (whole : ∀ r ∈ map.regions, ¬(r.start.toNat < region.start.toNat ∧ region.finish < r.finish))
    (mem : Nat → Bool) :
    (∃ fuel after, mregmapFixOverlaps mem fuel region 0 map = .ok after ∧
      RemovesExactly region map.regions after.regions) ↔ Removable region map := by
  have unsplit : ∀ r ∈ map.regions, Unsplit region r := fun r member =>
    ⟨valid.ends r member, valid.some_ member, fun split =>
      whole r member ((splits_iff regionEnds (valid.ends r member)).mp split)⟩
  have removable : Removable region map ↔
      (∀ r ∈ map.regions, CutsExactly region r) ∧ map.regions.IsChain (SkipsRightly region) :=
    ⟨fun all => ⟨all.cuts, all.chain⟩, fun both =>
      ⟨fun r member low high => absurd ⟨low, high⟩ (whole r member), both.1, both.2⟩⟩
  rw [removable, ← sweep_exact_iff regionEnds unsplit valid.ordered]
  have runs := fun fuel => mregmapFixOverlaps_whole mem fuel
    valid.toSized.held fun r member => (unsplit r member).whole
  constructor
  · rintro ⟨fuel, after, run, exact_⟩
    rcases runs fuel with done | ⟨-, stops⟩
    · cases done.symm.trans run
      exact exact_
    · cases stops.symm.trans run
  · intro exact_
    rcases runs (map.regions.length + 1) with done | ⟨few, -⟩
    · exact ⟨_, _, done, exact_⟩
    · omega

end

/-- `mregmap_rm_reg` leaves the difference if and only if the region is removable. -/
theorem mregmapRmReg_exact_iff {map : MemoryRegionMap} (valid : map.Valid) {start size : BitVec 64}
    (ends : start.toNat + size.toNat < 2 ^ 64) (mem : Nat → Bool) :
    (∃ fuel after, mregmapRmReg mem fuel start size map = .ok (true, after) ∧
      RemovesExactly ⟨start, size, 0⟩ map.regions after.regions) ↔
      Removable ⟨start, size, 0⟩ map := by
  have runs : ∀ fuel after, mregmapRmReg mem fuel start size map = .ok (true, after) ↔
      mregmapFixOverlaps mem fuel ⟨start, size, 0⟩ 0 map = .ok after := by
    intro fuel after
    unfold mregmapRmReg
    rw [Exec.bind_ok]
    simp [Exec.pure_ok]
  simp only [runs]
  have regionEnds : MemoryRegion.finish ⟨start, size, 0⟩ < 2 ^ 64 := ends
  by_cases split : ∃ r ∈ map.regions, r.start.toNat < start.toNat ∧
      MemoryRegion.finish ⟨start, size, 0⟩ < r.finish
  · rcases split with ⟨r, member, first, last⟩
    rcases List.append_of_mem member with ⟨front, rest, place⟩
    exact (valid.splitAt place first last).exact_iff valid place mem
  · exact unsplit_exact_iff valid regionEnds (fun r member both => split ⟨r, member, both⟩) mem

/-- The map of a machine with the memory from 1 MiB to 3 MiB. -/
def twoMebibytes : MemoryRegionMap := ⟨[⟨0x100000, 0x200000, 7⟩], 16, 320⟩

theorem twoMebibytes_valid : twoMebibytes.Valid := by
  refine ⟨⟨by decide, by decide⟩, ⟨fun s member => ?_, ?_, ?_⟩, fun r member => ?_⟩
  · cases List.mem_singleton.mp member
    decide
  · exact List.pairwise_singleton _ _
  · exact List.pairwise_singleton _ _
  · cases List.mem_singleton.mp member
    decide

/-- The first page is cut off. -/
theorem mregmapRmReg_exact_iff_page : ∃ fuel after,
    mregmapRmReg (fun _ => true) fuel 0x100000 0x1000 twoMebibytes = .ok (true, after) ∧
      RemovesExactly ⟨0x100000, 0x1000, 0⟩ twoMebibytes.regions after.regions := by
  refine (mregmapRmReg_exact_iff twoMebibytes_valid (by decide) _).mpr
    ⟨fun r member first => ?_, fun r member => ?_, .singleton _⟩
  · cases List.mem_singleton.mp member
    exact absurd first (by decide)
  · cases List.mem_singleton.mp member
    exact ⟨fun first => absurd first (by decide), fun _ _ _ => by decide⟩

/-- A page in the middle is removed, and with it all that is behind it. -/
theorem mregmapRmReg_loses : twoMebibytes.Valid ∧ ∃ after,
    mregmapRmReg (fun _ => true) 10 0x200000 0x1000 twoMebibytes = .ok (true, after) ∧
      ¬RemovesExactly ⟨0x200000, 0x1000, 0⟩ twoMebibytes.regions after.regions := by
  refine ⟨twoMebibytes_valid, ⟨[⟨0x100000, 0x100000, 7⟩], 16, 320⟩, by decide, fun exact_ => ?_⟩
  have behind : MemoryRegion.span ⟨0x100000, 0x200000, 7⟩ |>.Holds 0x201000 := by
    unfold Span.Holds
    decide
  rcases exact_.keeps List.mem_cons_self (by decide) behind (by decide) with ⟨p, member, holds⟩
  cases List.mem_singleton.mp member
  unfold Span.Holds at holds
  exact absurd holds (by decide)

end Dxgmx
