import Dxgmx.Library.Runs
import Dxgmx.Mem.MregmapSweep

open Library

namespace Dxgmx

/-- Where `kmalloc` finds nothing the map is left without a block. -/
def mregmapInit (mem : Nat → Bool) (areasCount : BitVec 32) (map : MemoryRegionMap) :
    Bool × MemoryRegionMap :=
  let bytes := areasCount * BitVec.ofNat 32 memoryRegionSize
  if mem bytes.toNat then (true, ⟨[], areasCount.toNat, bytes.toNat⟩)
  else (false, { map with bytes := 0 })

/-- A `krealloc` that finds nothing. -/
def refused : Nat → Bool := fun _ => false

mutual

/-- The loop of `mregmap_fix_overlaps` comes to `mregmap_enlarge` with a full map. -/
def FixNeedsMore : (fuel : Nat) → MemoryRegion → (i : Nat) → MemoryRegionMap → Prop
  | 0, _, _, _ => False
  | fuel + 1, region, i, map =>
    (∃ r, map.regions[i]? = some r ∧ region.Splits r ∧ AddNeedsMore fuel (region.lowerPart r)
      { map with regions := map.regions.set i (region.upperPart r) }) ∨
    ∃ after, mregmapFixOverlap (mregmapAddReg refused fuel) region i map = .ok after ∧
      FixNeedsMore fuel region (i + 1) after

/-- `mregmap_add_reg` does. -/
def AddNeedsMore : (fuel : Nat) → MemoryRegion → MemoryRegionMap → Prop
  | 0, _, _ => False
  | fuel + 1, region, map => FixNeedsMore fuel region 0 map ∨
    ∃ after, mregmapFixOverlaps refused fuel region 0 map = .ok after ∧
      after.regionsCapacity ≤ after.regions.length

end

/-- Nothing outside the block is touched, and the map that is left has its cells. -/
structure Inside (capacity : Nat) {α : Type} (map : α → MemoryRegionMap) (x : Exec α) : Prop where
  reads : x ≠ .error .fault
  leaves : ∀ a, x = .ok a → (map a).Sized ∧ (map a).regionsCapacity = capacity

section

variable {capacity : Nat} {α β : Type} {f : α → MemoryRegionMap} {g : β → MemoryRegionMap}

theorem inside_ok {a : α} (sized : (f a).Sized) (same : (f a).regionsCapacity = capacity) :
    Inside capacity f (.ok a) := by
  refine ⟨nofun, fun b equal => ?_⟩
  cases equal
  exact ⟨sized, same⟩

theorem inside_fuel : Inside capacity f (.error .fuel) := ⟨nofun, nofun⟩

theorem Inside.bind {x : Exec α} {next : α → Exec β} (inside : Inside capacity f x)
    (rest : ∀ a, x = .ok a → (f a).Sized → (f a).regionsCapacity = capacity →
      Inside capacity g (next a)) : Inside capacity g (x >>= next) := by
  rcases inside with ⟨reads, leaves⟩
  cases x with
  | ok a => exact rest a rfl (leaves a rfl).1 (leaves a rfl).2
  | error stop =>
    refine ⟨fun stops => reads ?_, nofun⟩
    cases stops
    rfl

end

section

variable {map : MemoryRegionMap} {region : MemoryRegion} {i : Nat}

theorem regions_at (before : i < map.regions.length) :
    ∃ front r rest, map.regions = front ++ r :: rest ∧ front.length = i ∧
      map.regions[i]? = some r := by
  refine ⟨map.regions.take i, map.regions.get ⟨i, before⟩, map.regions.drop (i + 1), ?_,
    List.length_take_of_le before.le, by simp [before]⟩
  simp

theorem MemoryRegionMap.Sized.shrink {regions : List MemoryRegion} (sized : map.Sized)
    (short : regions.length ≤ map.regions.length) :
    MemoryRegionMap.Sized { map with regions := regions } :=
  ⟨short.trans sized.room, sized.block⟩

/-- One step of the loop, where the addition of a part stays inside the block. -/
theorem mregmapFixOverlap_inside
    {addReg : MemoryRegion → MemoryRegionMap → Exec (Bool × MemoryRegionMap)}
    (sized : map.Sized) (before : i < map.regions.length)
    (adds : ∀ r (split : MemoryRegionMap), split.Sized → split.regionsCapacity = map.regionsCapacity →
      Inside map.regionsCapacity Prod.snd (addReg r split)) :
    Inside map.regionsCapacity id (mregmapFixOverlap addReg region i map) := by
  rcases regions_at before with ⟨front, r, rest, place, rfl, -⟩
  have length := congrArg List.length place
  by_cases splits : region.Splits r
  · rw [mregmapFixOverlap_splits sized.held place splits]
    have split := @sized.shrink map (front ++ region.upperPart r :: rest)
      (by rw [length, List.length_append, List.length_append]; exact Nat.le_refl _)
    exact (adds _ _ split rfl).bind fun added _ kept same => inside_ok kept same
  · rw [mregmapFixOverlap_trims sized.held place splits]
    refine inside_ok (sized.shrink ?_) rfl
    rw [length]
    cases region.trimmed r <;> simp

/-- Without `krealloc` everything stays inside the block. -/
theorem mregmap_refused (fuel : Nat) :
    (∀ region i (map : MemoryRegionMap), map.Sized →
      Inside map.regionsCapacity id (mregmapFixOverlaps refused fuel region i map)) ∧
    ∀ region (map : MemoryRegionMap), map.Sized →
      Inside map.regionsCapacity Prod.snd (mregmapAddReg refused fuel region map) := by
  induction fuel with
  | zero => exact ⟨fun _ _ _ _ => inside_fuel, fun _ _ _ => inside_fuel⟩
  | succ fuel ih =>
    rcases ih with ⟨fixes, adds⟩
    refine ⟨fun region i map sized => ?_, fun region map sized => ?_⟩
    · rw [mregmapFixOverlaps]
      split_ifs with before
      · have step := @mregmapFixOverlap_inside map region i _ sized before
          fun r split kept same => same ▸ adds r split kept
        exact step.bind fun after _ kept same => same ▸ fixes region (i + 1) after kept
      · exact inside_ok sized rfl
    · have fixed := fixes region 0 map sized
      cases run : mregmapFixOverlaps refused fuel region 0 map with
      | error stop =>
        rw [mregmapAddReg, run]
        refine ⟨fun stops => fixed.reads ?_, fun after done => ?_⟩
        · rw [run]
          cases stops
          rfl
        · cases done
      | ok after =>
        rcases fixed.leaves after run with ⟨kept, same⟩
        rw [mregmapAddReg_inserts run kept]
        split_ifs with room found
        · refine inside_ok ⟨?_, kept.block⟩ same
          rw [bubbleSort_perm.length_eq, List.length_append]
          exact room
        · cases found
        · exact inside_ok kept same

/-- An execution that stops at a granted block where it `needs` one, and else does what it does
    without `krealloc`. -/
def Follows (granted needs : Prop) {α : Type} (x without : Exec α) : Prop :=
  (granted ∧ needs ∧ x = .error .fault) ∨ (¬(granted ∧ needs) ∧ x = without)

theorem follows_same {granted needs : Prop} {α : Type} {x : Exec α} (enough : ¬needs) :
    Follows granted needs x x := .inr ⟨fun both => enough both.2, rfl⟩

theorem Follows.bind {granted first : Prop} {α β : Type} (second : α → Prop) {x without : Exec α}
    {next plain : α → Exec β} (follows : Follows granted first x without)
    (later : ∀ a, without = .ok a → Follows granted (second a) (next a) (plain a)) :
    Follows granted (first ∨ ∃ a, without = .ok a ∧ second a) (x >>= next) (without >>= plain) := by
  rcases follows with ⟨given, needs, faults⟩ | ⟨plenty, same⟩
  · exact .inl ⟨given, .inl needs, by rw [faults]; rfl⟩
  · subst same
    cases x with
    | error stop =>
      refine .inr ⟨?_, rfl⟩
      rintro ⟨given, needs | ⟨a, done, -⟩⟩
      · exact plenty ⟨given, needs⟩
      · cases done
    | ok a =>
      rcases later a rfl with ⟨given, needs, faults⟩ | ⟨enough, same⟩
      · exact .inl ⟨given, .inr ⟨a, rfl, needs⟩, faults⟩
      · refine .inr ⟨?_, same⟩
        rintro ⟨given, needs | ⟨b, done, needs⟩⟩
        · exact plenty ⟨given, needs⟩
        · cases done
          exact enough ⟨given, needs⟩

variable {mem : Nat → Bool}

theorem mregmapFixOverlap_follows {fuel : Nat} (sized : map.Sized)
    (adds : ∀ region (split : MemoryRegionMap), split.Sized →
      Follows (mem (split.regionsCapacity + 1)) (AddNeedsMore fuel region split)
        (mregmapAddReg mem fuel region split) (mregmapAddReg refused fuel region split))
    (before : i < map.regions.length) :
    Follows (mem (map.regionsCapacity + 1)) (∃ r, map.regions[i]? = some r ∧ region.Splits r ∧
        AddNeedsMore fuel (region.lowerPart r)
          { map with regions := map.regions.set i (region.upperPart r) })
      (mregmapFixOverlap (mregmapAddReg mem fuel) region i map)
      (mregmapFixOverlap (mregmapAddReg refused fuel) region i map) := by
  rcases regions_at before with ⟨front, r, rest, place, rfl, here⟩
  by_cases splits : region.Splits r
  · rw [mregmapFixOverlap_splits sized.held place splits,
      mregmapFixOverlap_splits sized.held place splits]
    have set : map.regions.set front.length (region.upperPart r) =
        front ++ region.upperPart r :: rest := by simp [place]
    have split := @sized.shrink map (map.regions.set front.length (region.upperPart r)) (by simp)
    have added := adds (region.lowerPart r) _ split
    rw [set] at added
    have whole := @Follows.bind _ _ _ _ (fun _ => False) _ _ (fun added => pure added.2) _ added
      fun _ _ => follows_same not_false
    simpa [here, splits, set] using whole
  · rw [mregmapFixOverlap_trims sized.held place splits,
      mregmapFixOverlap_trims sized.held place splits]
    refine follows_same ?_
    rintro ⟨r', there, would, -⟩
    cases here.symm.trans there
    exact splits would

/-- A granted block has no place for the region that is added. -/
theorem mregmapAddReg_follows {fuel : Nat} (sized : map.Sized)
    (fixes : Follows (mem (map.regionsCapacity + 1)) (FixNeedsMore fuel region 0 map)
      (mregmapFixOverlaps mem fuel region 0 map) (mregmapFixOverlaps refused fuel region 0 map)) :
    Follows (mem (map.regionsCapacity + 1)) (AddNeedsMore (fuel + 1) region map)
      (mregmapAddReg mem (fuel + 1) region map) (mregmapAddReg refused (fuel + 1) region map) := by
  have fixed := (mregmap_refused fuel).1 region 0 map sized
  rw [AddNeedsMore]
  rcases fixes with ⟨granted, needs, faults⟩ | ⟨enough, same⟩
  · refine .inl ⟨granted, .inl needs, ?_⟩
    rw [mregmapAddReg, faults]
    rfl
  cases done : mregmapFixOverlaps refused fuel region 0 map with
  | error stop =>
    refine .inr ⟨?_, ?_⟩
    · rintro ⟨granted, needs | ⟨after, other, -⟩⟩
      · exact enough ⟨granted, needs⟩
      · cases other
    · rw [mregmapAddReg, mregmapAddReg, same, done]
      rfl
  | ok after =>
    rcases fixed.leaves after done with ⟨kept, capacity⟩
    rw [id] at kept capacity
    rw [mregmapAddReg_inserts (same.trans done) kept, mregmapAddReg_inserts done kept]
    by_cases more : after.regions.length < after.regionsCapacity
    · rw [if_pos more, if_pos more]
      refine .inr ⟨?_, rfl⟩
      rintro ⟨granted, needs | ⟨other, again, full⟩⟩
      · exact enough ⟨granted, needs⟩
      · cases again
        exact Nat.not_le_of_lt more full
    · have full := kept.room.antisymm (Nat.le_of_not_lt more)
      rw [if_neg more, if_neg more, full, capacity]
      by_cases granted : mem (map.regionsCapacity + 1) = true
      · rw [if_pos granted]
        exact .inl ⟨granted, .inr ⟨after, rfl, Nat.le_of_not_lt more⟩, rfl⟩
      · rw [if_neg granted]
        exact .inr ⟨fun both => granted both.1, rfl⟩

theorem mregmap_follows (fuel : Nat) :
    (∀ region i (map : MemoryRegionMap), map.Sized →
      Follows (mem (map.regionsCapacity + 1)) (FixNeedsMore fuel region i map)
        (mregmapFixOverlaps mem fuel region i map) (mregmapFixOverlaps refused fuel region i map)) ∧
    ∀ region (map : MemoryRegionMap), map.Sized →
      Follows (mem (map.regionsCapacity + 1)) (AddNeedsMore fuel region map)
        (mregmapAddReg mem fuel region map) (mregmapAddReg refused fuel region map) := by
  induction fuel with
  | zero => exact ⟨fun _ _ _ _ => follows_same id, fun _ _ _ => follows_same id⟩
  | succ fuel ih =>
    rcases ih with ⟨fixes, adds⟩
    refine ⟨fun region i map sized => ?_, fun region map sized =>
      mregmapAddReg_follows sized (fixes region 0 map sized)⟩
    rw [mregmapFixOverlaps, mregmapFixOverlaps, FixNeedsMore]
    split_ifs with before
    · have inside := @mregmapFixOverlap_inside map region i _ sized before
        fun r split kept same => same ▸ (mregmap_refused fuel).2 r split kept
      refine (mregmapFixOverlap_follows sized adds before).bind _ fun after done => ?_
      rcases inside.leaves after done with ⟨kept, same⟩
      have rest := fixes region (i + 1) after kept
      rwa [show after.regionsCapacity = map.regionsCapacity from same] at rest
    · refine follows_same ?_
      rintro (⟨r, there, -⟩ | ⟨after, done, -⟩)
      · rw [List.getElem?_eq_none (Nat.le_of_not_lt before)] at there
        cases there
      · unfold mregmapFixOverlap MemoryRegionMap.load at done
        rw [dif_neg fun inside => before inside.1] at done
        cases done

end

inductive MregmapCall
  | init (areasCount : BitVec 32)
  | addReg (region : MemoryRegion)
  | rmReg (start size : BitVec 64)

namespace MregmapCall

def run (mem : Nat → Bool) (fuel : Nat) : MregmapCall → MemoryRegionMap → Exec (Bool × MemoryRegionMap)
  | init areasCount, map => .ok (mregmapInit mem areasCount map)
  | addReg region, map => mregmapAddReg mem fuel region map
  | rmReg start size, map => mregmapRmReg mem fuel start size map

/-- Nothing outside the block is touched, and what is left has a cell for every region up to the
    capacity. -/
def Safe (mem : Nat → Bool) (map : MemoryRegionMap) (call : MregmapCall) : Prop :=
  ∀ fuel, call.run mem fuel map ≠ .error .fault ∧
    ∀ done after, call.run mem fuel map = .ok (done, after) → after.Sized

/-- The size of a new block is not reduced, and a failed `mregmap_init` is not on a map that has a
    capacity. The others do not come to `mregmap_enlarge` with a full map if `krealloc` has a block
    to grant. -/
def Keeps (mem : Nat → Bool) (map : MemoryRegionMap) : MregmapCall → Prop
  | init areasCount =>
    if mem (areasCount * BitVec.ofNat 32 memoryRegionSize).toNat then
      areasCount.toNat * memoryRegionSize < 2 ^ 32
    else map.regionsCapacity = 0
  | addReg region => mem (map.regionsCapacity + 1) → ∀ fuel, ¬AddNeedsMore fuel region map
  | rmReg start size =>
    mem (map.regionsCapacity + 1) → ∀ fuel, ¬FixNeedsMore fuel ⟨start, size, 0⟩ 0 map

end MregmapCall

section

variable {map : MemoryRegionMap} {mem : Nat → Bool}

theorem init_safe_iff (sized : map.Sized) (areasCount : BitVec 32) :
    (mregmapInit mem areasCount map).2.Sized ↔ MregmapCall.Keeps mem map (.init areasCount) := by
  have room := sized.room
  have bytes : (areasCount * BitVec.ofNat 32 memoryRegionSize).toNat =
      areasCount.toNat * memoryRegionSize % 2 ^ 32 := by
    rw [BitVec.toNat_mul]
    rfl
  unfold mregmapInit MregmapCall.Keeps
  dsimp only
  split_ifs with found
  · rw [bytes]
    constructor
    · intro new
      exact new.block.trans_lt (Nat.mod_lt _ (Nat.two_pow_pos 32))
    · intro small
      rw [Nat.mod_eq_of_lt small]
      exact ⟨Nat.zero_le _, Nat.le_refl _⟩
  · constructor
    · intro left
      have none_ : map.regionsCapacity * memoryRegionSize ≤ 0 := left.block
      unfold memoryRegionSize at none_
      omega
    · intro none_
      refine ⟨room, ?_⟩
      show map.regionsCapacity * memoryRegionSize ≤ 0
      rw [none_, Nat.zero_mul]

theorem follows_safe_iff {capacity : Nat} {granted : Prop} {needs : Nat → Prop} {α : Type}
    {f : α → MemoryRegionMap} {x without : Nat → Exec α}
    (follows : ∀ fuel, Follows granted (needs fuel) (x fuel) (without fuel))
    (inside : ∀ fuel, Inside capacity f (without fuel)) :
    (∀ fuel, x fuel ≠ .error .fault ∧ ∀ a, x fuel = .ok a → (f a).Sized) ↔
      (granted → ∀ fuel, ¬needs fuel) := by
  constructor
  · intro safe given fuel needed
    rcases follows fuel with ⟨-, -, faults⟩ | ⟨enough, -⟩
    · exact (safe fuel).1 faults
    · exact enough ⟨given, needed⟩
  · intro enough fuel
    rcases follows fuel with ⟨given, needed, -⟩ | ⟨-, same⟩
    · exact absurd needed (enough given fuel)
    · rw [same]
      exact ⟨(inside fuel).reads, fun a done => ((inside fuel).leaves a done).1⟩

theorem call_safe_iff (sized : map.Sized) (call : MregmapCall) :
    call.Safe mem map ↔ call.Keeps mem map := by
  cases call with
  | init areasCount =>
    rw [← init_safe_iff sized]
    constructor
    · intro safe
      exact (safe 0).2 _ _ rfl
    · intro new fuel
      refine ⟨nofun, fun done after made => ?_⟩
      have same : mregmapInit mem areasCount map = (done, after) := Except.ok.inj made
      rwa [same] at new
  | addReg region =>
    have safe := follows_safe_iff (fun fuel => (@mregmap_follows mem fuel).2 region map sized)
      fun fuel => (mregmap_refused fuel).2 region map sized
    rw [MregmapCall.Keeps, ← safe]
    simp [MregmapCall.Safe, MregmapCall.run]
  | rmReg start size =>
    have safe := follows_safe_iff
      (fun fuel => (@mregmap_follows mem fuel).1 ⟨start, size, 0⟩ 0 map sized)
      fun fuel => (mregmap_refused fuel).1 ⟨start, size, 0⟩ 0 map sized
    rw [MregmapCall.Keeps, ← safe]
    refine forall_congr' fun fuel => ?_
    have removes : (MregmapCall.rmReg start size).run mem fuel map =
        mregmapFixOverlaps mem fuel ⟨start, size, 0⟩ 0 map >>= fun after => pure (true, after) := rfl
    rw [removes]
    generalize mregmapFixOverlaps mem fuel ⟨start, size, 0⟩ 0 map = x
    cases x with
    | error stop => simp [bind, Except.bind]
    | ok after => simp [bind, Except.bind, pure, Except.pure]

theorem mregmapEnlarge_fails {n : Nat} (fails : (mregmapEnlarge mem n map).1 = false) :
    (mregmapEnlarge mem n map).2 = map := by
  unfold mregmapEnlarge at *
  split_ifs at fails with more found
  · rw [if_pos more, if_neg found]

/-- A call that keeps to what it can, with what `kmalloc` and `krealloc` find in it. -/
def MregmapStep (s : MemoryRegionMap) (call : (Nat → Bool) × MregmapCall) (t : MemoryRegionMap) : Prop :=
  (∃ fuel done, call.2.run call.1 fuel s = .ok (done, t)) ∧ call.2.Keeps call.1 s

/-- In every run of such calls every region has its cell, the next one touches nothing outside exactly
    if it is such a call too, and a failed `mregmap_enlarge` leaves the map. -/
theorem mregmap_calls_inside {start s : MemoryRegionMap} (sized : start.Sized)
    {calls : List ((Nat → Bool) × MregmapCall)} (run : Run MregmapStep start calls s) :
    s.regions.length * memoryRegionSize ≤ s.bytes ∧ s.regions.length ≤ s.regionsCapacity ∧
      (∀ mem (call : MregmapCall), call.Safe mem s ↔ call.Keeps mem s) ∧
      ∀ mem n, (mregmapEnlarge mem n s).1 = false → (mregmapEnlarge mem n s).2 = s := by
  have kept : s.Sized := by
    refine run.invariant MemoryRegionMap.Sized ?_ sized
    rintro s ⟨mem, call⟩ t ⟨⟨fuel, done, made⟩, keeps⟩ sized
    exact (((call_safe_iff sized call).mpr keeps) fuel).2 done t made
  exact ⟨kept.held, kept.room, fun mem call => call_safe_iff kept call,
    fun mem n fails => mregmapEnlarge_fails fails⟩

/-- Two regions are added to a new map with 2 cells. -/
theorem mregmap_calls_inside_two :
    let s : MemoryRegionMap := ⟨[⟨0, 4, 7⟩, ⟨8, 4, 7⟩], 2, 40⟩
    s.regions.length * memoryRegionSize ≤ s.bytes ∧ s.regions.length ≤ s.regionsCapacity ∧
      (∀ mem (call : MregmapCall), call.Safe mem s ↔ call.Keeps mem s) ∧
      ∀ mem n, (mregmapEnlarge mem n s).1 = false → (mregmapEnlarge mem n s).2 = s := by
  let grants : Nat → Bool := fun n => n == 40
  let one : MemoryRegionMap := ⟨[⟨8, 4, 7⟩], 2, 40⟩
  have new : MregmapStep ⟨[], 0, 0⟩ (grants, .init 2) ⟨[], 2, 40⟩ := by
    refine ⟨⟨0, true, by decide⟩, ?_⟩
    show if grants 40 then 2 * memoryRegionSize < 2 ^ 32 else 0 = 0
    decide
  have first : MregmapStep ⟨[], 2, 40⟩ (grants, .addReg ⟨8, 4, 7⟩) one :=
    ⟨⟨5, true, by decide⟩, fun granted => absurd granted (by decide)⟩
  have second : MregmapStep one (grants, .addReg ⟨0, 4, 7⟩) ⟨[⟨0, 4, 7⟩, ⟨8, 4, 7⟩], 2, 40⟩ :=
    ⟨⟨5, true, by decide⟩, fun granted => absurd granted (by decide)⟩
  have empty : MemoryRegionMap.Sized ⟨[], 0, 0⟩ := ⟨Nat.le_refl _, Nat.le_refl _⟩
  exact mregmap_calls_inside empty (((Run.single new).snoc first).snoc second)

/-- `krealloc` is asked for as many bytes as there are regions, and the second region is written
    behind them. -/
theorem mregmap_calls_outside : ∃ one two,
    mregmapInit (fun _ => true) 1 ⟨[], 0, 0⟩ = (true, one) ∧
      mregmapAddReg (fun _ => true) 5 ⟨0, 4, 7⟩ one = .ok (true, two) ∧ two.Sized ∧
      mregmapEnlarge (fun _ => true) 1 two = (true, ⟨[⟨0, 4, 7⟩, ⟨0, 0, 0⟩], 2, 2⟩) ∧
      mregmapAddReg (fun _ => true) 5 ⟨8, 4, 7⟩ two = .error .fault :=
  ⟨⟨[], 1, 20⟩, ⟨[⟨0, 4, 7⟩], 1, 20⟩, by decide, by decide, ⟨by decide, by decide⟩, by decide,
    by decide⟩

end

end Dxgmx
