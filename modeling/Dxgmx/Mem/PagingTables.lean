import Dxgmx.Mem.PagingTranslation

open Library

namespace Dxgmx

theorem or_keeps {α : Type} {p : Prop} [Decidable p] {old new : Option α} {b : α}
    (here : old = some b) : (if p then old.or new else old) = some b := by
  rw [here]
  split <;> rfl

section

variable {kimg : KernelImage} {ps ps' : PagingStruct} {tables tables' : Tables} {mem : MapMem}

/-- The blocks that a call took are tables that the walk did not reach before, and what it reached
    it still reaches. -/
structure Took (kimg : KernelImage) (ps : PagingStruct) (tables : Tables) (ps' : PagingStruct)
    (tables' : Tables) (new : List Ptr) : Prop where
  pds : ∀ i b, pdAt kimg ps i = some b → pdAt kimg ps' i = some b
  pts : ∀ i j b, ptAt kimg ps tables i j = some b → ptAt kimg ps' tables' i j = some b
  blocks : tables'.blocks = new ++ tables.blocks
  nodup : new.Nodup
  unused : ∀ b ∈ new, b ∉ tables.blocks
  reached : ∀ b, b ∈ new ↔ (∃ i, pdAt kimg ps i = none ∧ pdAt kimg ps' i = some b) ∨
    ∃ i j, ptAt kimg ps tables i j = none ∧ ptAt kimg ps' tables' i j = some b

theorem Took.track {new : List Ptr} (took : Took kimg ps tables ps' tables' new)
    (pages : List Ptr) : Took kimg ps tables { ps' with allocatedPages := pages } tables' new := by
  constructor
  · rw [pdAt_track]
    exact took.pds
  · rw [ptAt_track]
    exact took.pts
  · exact took.blocks
  · exact took.nodup
  · exact took.unused
  · rw [pdAt_track, ptAt_track]
    exact took.reached

theorem took_none (pds : ∀ i, pdAt kimg ps' i = pdAt kimg ps i)
    (pts : ∀ i j, ptAt kimg ps' tables' i j = ptAt kimg ps tables i j)
    (blocks : tables'.blocks = tables.blocks) : Took kimg ps tables ps' tables' [] := by
  refine ⟨fun i b here => (pds i).trans here, fun i j b here => (pts i j).trans here, blocks, .nil,
    nofun, fun b => ⟨nofun, ?_⟩⟩
  rintro (⟨i, none_, there⟩ | ⟨i, j, none_, there⟩)
  · rw [pds, none_] at there
    cases there
  · rw [pts, none_] at there
    cases there

theorem mapPageDirectory_tables (inv : WalkInv kimg ps tables) (fresh : mem.Fresh kimg tables)
    {idx : Fin 4} {pd : Ptr}
    (call : mapPageDirectory kimg mem idx ps tables = some (pd, ps', tables')) :
    (∀ i, pdAt kimg ps' i = if i = idx then (pdAt kimg ps i).or mem.pd else pdAt kimg ps i) ∧
      ∃ new, Took kimg ps tables ps' tables' new := by
  obtain ⟨-, dir, -, pts, -⟩ := mapPageDirectory_spec inv fresh call
  obtain ⟨-, rfl, rfl⟩ | ⟨missing, new, rfl, rfl⟩ := mapPageDirectory_made call
  · refine ⟨fun i => ?_, [], took_none (fun _ => rfl) (fun _ _ => rfl) rfl⟩
    split
    · rename_i same
      rw [same, dir]
      rfl
    · rfl
  · have pds (i : Fin 4) : pdAt kimg (ps.setPdpte idx
        { ps.data idx with pdBase := baseOf (mmKva2pa kimg pd) }) i =
          if i = idx then (pdAt kimg ps i).or mem.pd else pdAt kimg ps i := by
      rw [pdAt_setPdpte]
      split
      · rename_i same
        rw [same, missing, new, (fresh.pdMappable pd new).1.tableVaddr]
        rfl
      · rfl
    refine ⟨pds, [pd], fun i b here => (pds i).trans (or_keeps here),
      fun i j b here => (pts i j).trans here, rfl, List.nodup_singleton pd, fun b member => ?_,
      fun b => ?_⟩
    · cases List.mem_singleton.mp member
      exact (fresh.pdMappable pd new).2
    · rw [List.mem_singleton]
      constructor
      · rintro rfl
        exact .inl ⟨idx, missing, dir⟩
      · rintro (⟨i, none_, there⟩ | ⟨i, j, none_, there⟩)
        · rw [pds] at there
          split at there
          · rw [none_, new] at there
            exact (Option.some.inj there).symm
          · rw [none_] at there
            cases there
        · rw [pts, none_] at there
          cases there

theorem mapPageTable_tables (inv : WalkInv kimg ps tables)
    (fresh : ∀ b, mem.pt = some b → Mappable kimg b ∧ b ∉ tables.blocks) {i : Fin 4} {j : Fin 512}
    {pd pt : Ptr} (dir : pdAt kimg ps i = some pd)
    (call : mapPageTable kimg mem pd j tables = some (pt, tables')) :
    (∀ i' j', ptAt kimg ps tables' i' j' =
      if i' = i ∧ j' = j then (ptAt kimg ps tables i' j').or mem.pt else ptAt kimg ps tables i' j') ∧
      ∃ new, Took kimg ps tables ps tables' new := by
  have pts := mapPageTable_ptAt inv (fun b new => (fresh b new).1) dir call
  have entry : ptAt kimg ps tables i j = tableVaddr kimg (tables.pds pd j).tableBase :=
    ptAt_some dir j
  obtain ⟨here, rfl⟩ | ⟨missing, new, made⟩ := mapPageTable_made call
  · refine ⟨fun i' j' => ?_, [], took_none (fun _ => rfl) (fun _ _ => rfl) rfl⟩
    split
    · rename_i same
      rw [same.1, same.2, entry, here]
      rfl
    · rfl
  · rw [missing] at entry
    have grown (i' : Fin 4) (j' : Fin 512) : ptAt kimg ps tables' i' j' =
        if i' = i ∧ j' = j then (ptAt kimg ps tables i' j').or mem.pt
        else ptAt kimg ps tables i' j' := by
      rw [pts]
      split
      · rename_i same
        rw [same.1, same.2, entry, new]
        rfl
      · rfl
    have blocks : tables'.blocks = pt :: tables.blocks := by
      rw [← made]
      rfl
    refine ⟨grown, [pt], fun _ _ here => here, fun i' j' b here => (grown i' j').trans (or_keeps here),
      blocks, List.nodup_singleton pt, fun b member => ?_, fun b => ?_⟩
    · cases List.mem_singleton.mp member
      exact (fresh pt new).2
    · rw [List.mem_singleton]
      constructor
      · rintro rfl
        exact .inr ⟨i, j, entry, (pts i j).trans (if_pos ⟨rfl, rfl⟩)⟩
      · rintro (⟨i', none_, there⟩ | ⟨i', j', none_, there⟩)
        · rw [none_] at there
          cases there
        · rw [pts] at there
          split at there
          · exact (Option.some.inj there).symm
          · rw [none_] at there
            cases there

end

section

variable {kimg : KernelImage} {ps ps' ps'' : PagingStruct} {tables tables' tables'' : Tables}
  {mem : MapMem}

theorem Took.trans {first second : List Ptr} (left : Took kimg ps tables ps' tables' first)
    (right : Took kimg ps' tables' ps'' tables'' second) :
    Took kimg ps tables ps'' tables'' (second ++ first) := by
  have fresh : ∀ b ∈ second, b ∉ first ∧ b ∉ tables.blocks := fun b later => by
    have unused := right.unused b later
    rwa [left.blocks, List.mem_append, not_or] at unused
  refine ⟨fun i b here => right.pds i b (left.pds i b here),
    fun i j b here => right.pts i j b (left.pts i j b here), ?_, ?_, fun b member => ?_, fun b => ?_⟩
  · rw [right.blocks, left.blocks, List.append_assoc]
  · rw [List.nodup_append]
    exact ⟨right.nodup, left.nodup, fun b later c before same => (fresh b later).1 (same ▸ before)⟩
  · rcases List.mem_append.mp member with later | before
    · exact (fresh b later).2
    · exact left.unused b before
  · rw [List.mem_append, right.reached, left.reached]
    constructor
    · rintro ((⟨i, none_, here⟩ | ⟨i, j, none_, here⟩) | ⟨i, none_, here⟩ | ⟨i, j, none_, here⟩)
      · refine .inl ⟨i, Option.eq_none_iff_forall_ne_some.mpr fun c before => ?_, here⟩
        cases (left.pds i c before).symm.trans none_
      · refine .inr ⟨i, j, Option.eq_none_iff_forall_ne_some.mpr fun c before => ?_, here⟩
        cases (left.pts i j c before).symm.trans none_
      · exact .inl ⟨i, none_, right.pds i b here⟩
      · exact .inr ⟨i, j, none_, right.pts i j b here⟩
    · rintro (⟨i, none_, here⟩ | ⟨i, j, none_, here⟩)
      · cases between : pdAt kimg ps' i with
        | none => exact .inl (.inl ⟨i, between, here⟩)
        | some c =>
          cases (right.pds i c between).symm.trans here
          exact .inr (.inl ⟨i, none_, between⟩)
      · cases between : ptAt kimg ps' tables' i j with
        | none => exact .inl (.inr ⟨i, j, between, here⟩)
        | some c =>
          cases (right.pts i j c between).symm.trans here
          exact .inr (.inr ⟨i, j, none_, between⟩)

theorem mmMapPageArch_tables (inv : WalkInv kimg ps tables) (fresh : mem.Fresh kimg tables)
    {vaddr paddr : Ptr} {flags : BitVec 16} {st : Int}
    (call : mmMapPageArch kimg mem vaddr paddr flags ps tables = (st, ps', tables')) :
    (∀ i, pdAt kimg ps' i =
      if i = pdpteIdx vaddr then (pdAt kimg ps i).or mem.pd else pdAt kimg ps i) ∧
    (∀ i j, ptAt kimg ps' tables' i j =
      if (i = pdpteIdx vaddr ∧ j = pdeIdx vaddr) ∧ (pdAt kimg ps' i).isSome then
        (ptAt kimg ps tables i j).or mem.pt
      else ptAt kimg ps tables i j) ∧
    (st = 0 ↔ (ptAt kimg ps' tables' (pdpteIdx vaddr) (pdeIdx vaddr)).isSome) ∧
    ∃ new, Took kimg ps tables ps' tables' new := by
  cases mmMapPageArch_returns call with
  | noPd stuck =>
    rcases mapPageDirectory_stuck stuck with ⟨missing, none_⟩
    refine ⟨fun i => ?_, fun i j => ?_, ?_, [], took_none (fun _ => rfl) (fun _ _ => rfl) rfl⟩
    · split
      · rename_i same
        rw [same, missing, none_]
        rfl
      · rfl
    · rw [if_neg]
      rintro ⟨⟨rfl, -⟩, some_⟩
      rw [missing] at some_
      cases some_
    · rw [ptAt_none missing]
      exact ⟨fun done => absurd done (by decide), nofun⟩
  | noPt pd ps1 tables1 made stuck =>
    obtain ⟨-, dir, -, same, -⟩ := mapPageDirectory_spec inv fresh made
    obtain ⟨pds, first, tookPd⟩ := mapPageDirectory_tables inv fresh made
    rcases mapPageTable_stuck stuck with ⟨missing, none_⟩
    refine ⟨pds, fun i j => ?_, ?_, first, tookPd⟩
    · rw [same, none_, Option.or_none, ite_self]
    · rw [ptAt_some dir, missing]
      exact ⟨fun done => absurd done (by decide), nofun⟩
  | done pd ps1 tables1 pt tables2 pde made madePt flagged =>
    obtain ⟨inv1, dir, -, same, unused⟩ := mapPageDirectory_spec inv fresh made
    obtain ⟨pds, first, tookPd⟩ := mapPageDirectory_tables inv fresh made
    have fresh1 : ∀ b, mem.pt = some b → Mappable kimg b ∧ b ∉ tables1.blocks :=
      fun b new => ⟨(fresh.ptMappable b new).1, unused b new⟩
    obtain ⟨pts, second, tookPt⟩ := mapPageTable_tables inv1 fresh1 dir madePt
    obtain ⟨-, table, -⟩ := mapPageTable_spec inv1 fresh1 dir madePt
    have base : pde.tableBase = (tables2.pds pd (pdeIdx vaddr)).tableBase := by
      rw [flagged]
      rfl
    have pds' := @pdAt_present kimg ps1 (pdpteIdx vaddr) true
    have pts' := @setEntry_ptAt kimg ps1 tables2 (pdpteIdx vaddr) (pdeIdx vaddr) pd pt true pde
      (pteIdx vaddr) (pageEntry paddr flags) base
    refine ⟨fun i => (pds' i).trans (pds i), fun i j => ?_, ?_, _,
      (tookPd.trans tookPt).trans (took_none pds' pts' rfl)⟩
    · rw [pts', pts, same, pds']
      by_cases here : i = pdpteIdx vaddr ∧ j = pdeIdx vaddr
      · rw [if_pos here, if_pos ⟨here, by rw [here.1, dir]; rfl⟩]
      · rw [if_neg here, if_neg (here ∘ And.left)]
    · rw [pts', table]
      exact iff_of_true rfl rfl

/-- A page is mapped if its tables are there or there is memory for them. -/
theorem mmMapPageArch_done_iff (inv : WalkInv kimg ps tables) (fresh : mem.Fresh kimg tables)
    {vaddr paddr : Ptr} {flags : BitVec 16} {st : Int}
    (call : mmMapPageArch kimg mem vaddr paddr flags ps tables = (st, ps', tables')) :
    st = 0 ↔ ((pdAt kimg ps (pdpteIdx vaddr)).isSome ∨ mem.pd.isSome) ∧
      ((ptAt kimg ps tables (pdpteIdx vaddr) (pdeIdx vaddr)).isSome ∨ mem.pt.isSome) := by
  obtain ⟨pds, pts, done, -⟩ := mmMapPageArch_tables inv fresh call
  rw [done, pts, pds, if_pos rfl]
  have above : (ptAt kimg ps tables (pdpteIdx vaddr) (pdeIdx vaddr)).isSome →
      (pdAt kimg ps (pdpteIdx vaddr)).isSome := by
    intro some_
    by_contra none_
    rw [ptAt_none (Option.not_isSome_iff_eq_none.mp none_)] at some_
    cases some_
  simp only [true_and, Option.isSome_or, Bool.or_eq_true]
  split_ifs with dir
  · simp [dir]
  · exact ⟨fun some_ => absurd (.inl (above some_)) dir, fun both => absurd both.1 dir⟩

theorem mmMapPageArch_reaches (inv : WalkInv kimg ps tables) (fresh : mem.Fresh kimg tables)
    {vaddr paddr : Ptr} {flags : BitVec 16}
    (call : mmMapPageArch kimg mem vaddr paddr flags ps tables = (0, ps', tables')) :
    (∀ i, (pdAt kimg ps' i).isSome ↔ (pdAt kimg ps i).isSome ∨ i = pdpteIdx vaddr) ∧
      ∀ i j, (ptAt kimg ps' tables' i j).isSome ↔
        (ptAt kimg ps tables i j).isSome ∨ (i = pdpteIdx vaddr ∧ j = pdeIdx vaddr) := by
  obtain ⟨dirs, tabs⟩ := (mmMapPageArch_done_iff inv fresh call).mp rfl
  obtain ⟨pds, pts, done, -⟩ := mmMapPageArch_tables inv fresh call
  constructor
  · intro i
    rw [pds]
    split_ifs with here
    · rw [here, Option.isSome_or, Bool.or_eq_true]
      exact iff_of_true dirs (.inr rfl)
    · simp [here]
  · intro i j
    by_cases here : i = pdpteIdx vaddr ∧ j = pdeIdx vaddr
    · rw [here.1, here.2]
      exact iff_of_true (done.mp rfl) (.inr ⟨rfl, rfl⟩)
    · rw [pts, if_neg (here ∘ And.left)]
      exact (or_iff_left here).symm

end

end Dxgmx
