import Dxgmx.Library.Grouped
import Dxgmx.Mem.DmaFailure
import Dxgmx.Mem.UserPageFailure
import Dxgmx.Proc.AddressSpace

open Library

namespace Dxgmx

section Teardown

variable {kimg : KernelImage} {ps : PagingStruct} {tables : Tables} {falloc : Falloc} {pages : List Ptr}

/-- The first loop changes no directory and frees no block. -/
theorem destroyPages_done
    (there : ∀ p ∈ pages, (ptAt kimg ps tables (pdpteIdx p) (pdeIdx p)).isSome) :
    ∃ tables' falloc', destroyPages kimg ffreeOne ps.data pages tables falloc = .ok (tables', falloc') ∧
      tables'.pds = tables.pds ∧ tables'.blocks = tables.blocks := by
  induction pages generalizing tables falloc with
  | nil => exact ⟨tables, falloc, rfl, rfl, rfl⟩
  | cons page rest ih =>
    rcases Option.isSome_iff_exists.mp (there page List.mem_cons_self) with ⟨pt, table⟩
    have table' : ptFromVaddrAbs kimg ps.data tables page = some pt := table
    have zero : PageAligned (paddrOf 0) := by decide
    unfold destroyPages
    rw [table']
    dsimp only
    generalize stored : tables.setPte pt (pteIdx page)
      { tables.pts pt (pteIdx page) with frameBase := 0, present := false } = tables1
    have pds : tables1.pds = tables.pds := by
      rw [← stored]
      rfl
    have blocks : tables1.blocks = tables.blocks := by
      rw [← stored]
      rfl
    have walks (i : Fin 4) (j : Fin 512) : ptAt kimg ps tables1 i j = ptAt kimg ps tables i j := by
      unfold ptAt
      rw [pds]
    rcases @ih tables1 (falloc.freed (paddrOf 0)) fun p member => by
      rw [walks]
      exact there p (List.mem_cons_of_mem _ member) with ⟨tables', falloc', call, pds', blocks'⟩
    refine ⟨tables', falloc', ?_, pds'.trans pds, blocks'.trans blocks⟩
    rw [show pteFramePaddr { tables.pts pt (pteIdx page) with frameBase := 0, present := false } =
      paddrOf 0 from rfl, ffreeOne_aligned zero]
    exact call

/-- The other loops free the tables that change along the pages. -/
theorem destroyTables_changes {table : Ptr → Tables → Option Ptr} {value : Ptr → Option Ptr}
    {last : Option Ptr} {freed : List Ptr}
    (same : ∀ t : Tables, t.pds = tables.pds → ∀ p, table p t = value p)
    (values : changes last (pages.map value) = freed.map some) (nodup : freed.Nodup)
    (live : ∀ b ∈ freed, b ∈ tables.blocks) :
    destroyTables table last pages tables = .ok { tables with blocks := tables.blocks.diff freed } := by
  induction pages generalizing last freed tables with
  | nil =>
    cases List.map_eq_nil_iff.mp values.symm
    rfl
  | cons page rest ih =>
    rw [List.map_cons, changes] at values
    unfold destroyTables
    rw [same tables rfl]
    split at values
    · rename_i equal
      rw [if_pos equal]
      exact ih same values nodup live
    · rename_i other
      rw [if_neg other]
      rcases freed with _ | ⟨b, freed⟩
      · cases values
      · rw [List.map_cons, List.cons.injEq] at values
        rcases List.nodup_cons.mp nodup with ⟨once, nodup⟩
        rcases values with ⟨here, values⟩
        rw [here] at values ⊢
        rw [kfreeTable, if_pos (live b List.mem_cons_self), List.diff_cons]
        refine ih (fun t pds => same t pds) values nodup fun c member => ?_
        refine (List.mem_erase_of_ne ?_).mpr (live c (List.mem_cons_of_mem _ member))
        rintro rfl
        exact once member

theorem exists_map_some {values : List (Option Ptr)} (there : ∀ x ∈ values, x ≠ none) :
    ∃ blocks : List Ptr, values = blocks.map some := by
  induction values with
  | nil => exact ⟨[], rfl⟩
  | cons x rest ih =>
    rcases Option.ne_none_iff_exists'.mp (there x List.mem_cons_self) with ⟨b, rfl⟩
    rcases ih fun y member => there y (List.mem_cons_of_mem _ member) with ⟨blocks, rfl⟩
    exact ⟨b :: blocks, rfl⟩

/-- A list of values that are all there, without the ones that repeat. -/
theorem changes_map_some {value : Ptr → Option Ptr} {key : Ptr → Nat}
    (sorted : pages.Pairwise fun p q => key p ≤ key q)
    (same : ∀ p ∈ pages, ∀ q ∈ pages, value p = value q ↔ key p = key q)
    (there : ∀ p ∈ pages, (value p).isSome) :
    ∃ freed : List Ptr, changes none (pages.map value) = freed.map some ∧ freed.Nodup ∧
      ∀ b, b ∈ freed ↔ ∃ p ∈ pages, value p = some b := by
  have missing : none ∉ pages.map value := by
    intro member
    rcases List.mem_map.mp member with ⟨p, inside, none_⟩
    have some_ := there p inside
    rw [none_] at some_
    cases some_
  rcases ((grouped_map sorted same).cons missing).changes with ⟨nodup, members⟩
  rcases exists_map_some fun x member => ((members x).mp member).2 with ⟨freed, values⟩
  rw [values] at nodup members
  refine ⟨freed, values, nodup.of_map some, fun b => ?_⟩
  rw [← List.mem_map_of_injective (Option.some_injective Ptr), members, List.mem_map]
  exact ⟨And.left, fun here => ⟨here, nofun⟩⟩

end Teardown

/-- The address lies below the kernel. -/
def BelowKernel (vaddr : Ptr) : Prop := vaddr.toNat < 3 * 2 ^ 30

instance decidableBelowKernel (vaddr : Ptr) : Decidable (BelowKernel vaddr) :=
  inferInstanceAs (Decidable (_ < _))

theorem BelowKernel.pdpteIdx_ne {vaddr : Ptr} (below : BelowKernel vaddr) : pdpteIdx vaddr ≠ 3 := by
  unfold BelowKernel at below
  intro same
  have value := congrArg Fin.val same
  change vaddr.toNat / 2 ^ 30 = 3 at value
  omega

/-- Since `start` tables were only taken below the kernel, and the tracked pages have theirs. -/
structure SpaceInv (kimg : KernelImage) (start s : PagingState) : Prop where
  walk : WalkInv kimg s.ps s.tables
  took : ∃ new, Took kimg start.ps start.tables s.ps s.tables new
  kernelPd : pdAt kimg s.ps 3 = pdAt kimg start.ps 3
  kernelPts : ∀ j, ptAt kimg s.ps s.tables 3 j = ptAt kimg start.ps start.tables 3 j
  apart : ∀ i i' j b, i ≠ 3 → i' ≠ 3 → pdAt kimg s.ps i = some b → ptAt kimg s.ps s.tables i' j ≠ some b
  sorted : s.ps.allocatedPages.Pairwise (· < ·)
  tracked : ∀ p ∈ s.ps.allocatedPages, BelowKernel p ∧
    (ptAt kimg s.ps s.tables (pdpteIdx p) (pdeIdx p)).isSome

section

variable {kimg : KernelImage} {start s : PagingState} {mem : MapMem} {vaddr paddr : Ptr}
  {flags : BitVec 16} {ps' : PagingStruct} {tables' : Tables}

theorem SpaceInv.map (inv : SpaceInv kimg start s) (fresh : mem.Fresh kimg s.tables)
    (below : BelowKernel vaddr) {st : Int}
    (call : mmMapPageArch kimg mem vaddr paddr flags s.ps s.tables = (st, ps', tables')) :
    SpaceInv kimg start ⟨ps', tables'⟩ := by
  rcases mmMapPageArch_tables inv.walk fresh call with ⟨pds, pts, -, new, took⟩
  rcases inv.took with ⟨before, tookBefore⟩
  have low := below.pdpteIdx_ne
  have pages : ps'.allocatedPages = s.ps.allocatedPages := mmMapPageArch_pages call
  refine ⟨(mmMapPageArch_entries inv.walk fresh call).1, ⟨_, tookBefore.trans took⟩,
    ((pds 3).trans (if_neg (Ne.symm low))).trans inv.kernelPd,
    fun j => ((pts 3 j).trans (if_neg fun here => low here.1.1.symm)).trans (inv.kernelPts j),
    fun i i' j b first second here there => ?_, ?_, fun p member => ?_⟩
  · have dir : pdAt kimg s.ps i = some b ∨ mem.pd = some b := by
      dsimp only at here
      rw [pds] at here
      split_ifs at here
      · rcases Option.or_eq_some_iff.mp here with old | ⟨-, made⟩
        · exact .inl old
        · exact .inr made
      · exact .inl here
    have table : ptAt kimg s.ps s.tables i' j = some b ∨ mem.pt = some b := by
      dsimp only at there
      rw [pts] at there
      split_ifs at there
      · rcases Option.or_eq_some_iff.mp there with old | ⟨-, made⟩
        · exact .inl old
        · exact .inr made
      · exact .inl there
    rcases dir with dir | dir <;> rcases table with table | table
    · exact inv.apart i i' j b first second dir table
    · exact (fresh.ptMappable b table).2 (inv.walk.pdBlock i b dir)
    · exact (fresh.pdMappable b dir).2 (inv.walk.ptBlock i' j b table)
    · exact fresh.distinct b dir table
  · exact pages ▸ inv.sorted
  · rcases inv.tracked p (pages ▸ member) with ⟨lower, there⟩
    rcases Option.isSome_iff_exists.mp there with ⟨pt, table⟩
    exact ⟨lower, Option.isSome_iff_exists.mpr ⟨pt, took.pts _ _ pt table⟩⟩

theorem SpaceInv.track (inv : SpaceInv kimg start s) (below : BelowKernel vaddr)
    (there : (ptAt kimg s.ps s.tables (pdpteIdx vaddr) (pdeIdx vaddr)).isSome) {pages : List Ptr}
    (call : pagingstructTrackPage vaddr s.ps.allocatedPages = .ok pages) :
    SpaceInv kimg start ⟨{ s.ps with allocatedPages := pages }, s.tables⟩ := by
  rcases pagingstructTrackPage_ok inv.sorted call with ⟨-, sorted, members⟩
  rcases inv.took with ⟨new, took⟩
  have pts : ptAt kimg { s.ps with allocatedPages := pages } s.tables = ptAt kimg s.ps s.tables :=
    ptAt_track pages
  have kernelPts := inv.kernelPts
  have apart := inv.apart
  have tracked := inv.tracked
  rw [← pts] at there kernelPts apart tracked
  refine ⟨inv.walk.track pages, ⟨new, took.track pages⟩, inv.kernelPd, kernelPts, apart, sorted,
    fun p member => ?_⟩
  rcases (members p).mp member with rfl | before
  · exact ⟨below, there⟩
  · exact tracked p before

/-- Every way that `mm_new_user_page` returns. -/
theorem SpaceInv.newUserPage (inv : SpaceInv kimg start s) (fresh : mem.Fresh kimg s.tables)
    (below : BelowKernel vaddr) {track : Bool} {falloc falloc' : Falloc} {st : Int}
    (call : mmNewUserPage kimg ffreeOne mem track vaddr flags s.ps s.tables falloc =
      .ok (st, ps', tables', falloc')) : SpaceInv kimg start ⟨ps', tables'⟩ := by
  rcases (mmNewUserPage_returns call).2 with ⟨-, -, rfl, rfl⟩ | ⟨-, -, mapped⟩ |
    ⟨-, -, -, ps1, pages, mapped, tracked, rfl⟩
  · exact inv
  · exact inv.map fresh below mapped
  · have there := (mmMapPageArch_tables inv.walk fresh mapped).2.2.1.mp rfl
    exact (inv.map fresh below mapped).track below there tracked

theorem SpaceInv.mapPages {mems : Nat → MapMem} {pages left : Nat} {t : DmaPaging}
    (few : left ≤ pages) (inv : SpaceInv kimg start t.toPagingState)
    (below : ∀ i < pages, BelowKernel (vaddr + BitVec.ofNat 32 (i * pageSize)))
    (supply : Supply kimg t.tables mems t.mapped) :
    SpaceInv kimg start
      (dmaMapPages (dmaMapPage kimg mems) vaddr paddr flags pages left t).2.toPagingState := by
  induction left generalizing t with
  | zero => exact inv
  | succ left ih =>
    rcases call : mmMapPageArch kimg (mems t.mapped)
      (vaddr + BitVec.ofNat 32 ((pages - (left + 1)) * pageSize))
      (paddr + BitVec.ofNat 32 ((pages - (left + 1)) * pageSize)) flags t.ps t.tables with
      ⟨st, ps', tables'⟩
    have next := inv.map supply.fresh (below _ (by omega)) call
    rw [dmaMapPages_step call]
    split
    · exact next
    · exact ih (by omega) next (supply.next inv.walk call)

/-- Every table below the kernel has a tracked page in its range. -/
def TablesTracked (kimg : KernelImage) (s : PagingState) : Prop :=
  (∀ i, i ≠ 3 → (pdAt kimg s.ps i).isSome → ∃ p ∈ s.ps.allocatedPages, pdpteIdx p = i) ∧
    ∀ i j, i ≠ 3 → (ptAt kimg s.ps s.tables i j).isSome →
      ∃ p ∈ s.ps.allocatedPages, pdpteIdx p = i ∧ pdeIdx p = j

/-- A user page that is mapped is also tracked. -/
theorem TablesTracked.newUserPage (tracked : TablesTracked kimg s) (inv : SpaceInv kimg start s)
    (fresh : mem.Fresh kimg s.tables) {track : Bool} {falloc falloc' : Falloc}
    (call : mmNewUserPage kimg ffreeOne mem track vaddr flags s.ps s.tables falloc =
      .ok (0, ps', tables', falloc')) : TablesTracked kimg ⟨ps', tables'⟩ := by
  rcases (mmNewUserPage_returns call).2 with ⟨-, error, -⟩ | ⟨-, error, -⟩ |
    ⟨-, -, -, ps1, pages, mapped, added, rfl⟩
  · exact absurd error (by decide)
  · exact absurd error (by decide)
  · rw [mmMapPageArch_pages mapped] at added
    rcases pagingstructTrackPage_ok inv.sorted added with ⟨-, -, members⟩
    rcases mmMapPageArch_reaches inv.walk fresh mapped with ⟨dirs, tabs⟩
    refine ⟨fun i low here => ?_, fun i j low here => ?_⟩
    · rcases (dirs i).mp here with before | rfl
      · rcases tracked.1 i low before with ⟨p, member, range⟩
        exact ⟨p, (members p).mpr (.inr member), range⟩
      · exact ⟨vaddr, (members vaddr).mpr (.inl rfl), rfl⟩
    · rcases (tabs i j).mp here with before | ⟨rfl, rfl⟩
      · rcases tracked.2 i j low before with ⟨p, member, range⟩
        exact ⟨p, (members p).mpr (.inr member), range⟩
      · exact ⟨vaddr, (members vaddr).mpr (.inl rfl), rfl, rfl⟩

theorem sorted_div {pages : List Ptr} (sorted : pages.Pairwise (· < ·)) (n : Nat) :
    pages.Pairwise fun p q => p.toNat / n ≤ q.toNat / n :=
  sorted.imp fun less => Nat.div_le_div_right (Nat.le_of_lt (BitVec.lt_def.mp less))

theorem SpaceInv.freedPts (inv : SpaceInv kimg start s) : ∃ freed : List Ptr,
    changes none (s.ps.allocatedPages.map fun p =>
      ptAt kimg s.ps s.tables (pdpteIdx p) (pdeIdx p)) = freed.map some ∧ freed.Nodup ∧
    ∀ b, b ∈ freed ↔
      ∃ p ∈ s.ps.allocatedPages, ptAt kimg s.ps s.tables (pdpteIdx p) (pdeIdx p) = some b := by
  refine changes_map_some (sorted_div inv.sorted (2 ^ 21)) (fun p first q second => ?_)
    fun p member => (inv.tracked p member).2
  rcases Option.isSome_iff_exists.mp (inv.tracked p first).2 with ⟨b, here⟩
  rw [← pdpteIdx_pdeIdx_iff]
  constructor
  · exact fun same => inv.walk.ptInj _ _ _ _ b here (same ▸ here)
  · rintro ⟨pdpte, pde⟩
    rw [pdpte, pde]

theorem SpaceInv.freedPds (inv : SpaceInv kimg start s) : ∃ freed : List Ptr,
    changes none (s.ps.allocatedPages.map fun p => pdAt kimg s.ps (pdpteIdx p)) = freed.map some ∧
    freed.Nodup ∧
    ∀ b, b ∈ freed ↔ ∃ p ∈ s.ps.allocatedPages, pdAt kimg s.ps (pdpteIdx p) = some b := by
  have there : ∀ p ∈ s.ps.allocatedPages, (pdAt kimg s.ps (pdpteIdx p)).isSome := fun p member => by
    rcases Option.isSome_iff_exists.mp (inv.tracked p member).2 with ⟨pt, table⟩
    rcases ptAt_dir table with ⟨pd, dir⟩
    rw [dir]
    rfl
  refine changes_map_some (sorted_div inv.sorted (2 ^ 30)) (fun p first q second => ?_) there
  rcases Option.isSome_iff_exists.mp (there p first) with ⟨b, here⟩
  have key : pdpteIdx p = pdpteIdx q ↔ p.toNat / 2 ^ 30 = q.toNat / 2 ^ 30 := Fin.mk.injEq .. ▸ Iff.rfl
  rw [← key]
  constructor
  · exact fun same => inv.walk.pdInj _ _ b here (same ▸ here)
  · intro same
    rw [same]

/-- What is freed is what was taken for the pages that are tracked. -/
theorem SpaceInv.freed_taken (inv : SpaceInv kimg start s)
    (bare : ∀ i, i ≠ 3 → pdAt kimg start.ps i = none) {new pts pds : List Ptr}
    (took : Took kimg start.ps start.tables s.ps s.tables new)
    (freedPts : ∀ b, b ∈ pts ↔
      ∃ p ∈ s.ps.allocatedPages, ptAt kimg s.ps s.tables (pdpteIdx p) (pdeIdx p) = some b)
    (freedPds : ∀ b, b ∈ pds ↔ ∃ p ∈ s.ps.allocatedPages, pdAt kimg s.ps (pdpteIdx p) = some b) :
    (∀ b ∈ pts ++ pds, b ∈ new) ∧ ((∀ b ∈ new, b ∈ pts ++ pds) ↔ TablesTracked kimg s) := by
  have low : ∀ p ∈ s.ps.allocatedPages, pdpteIdx p ≠ 3 := fun p member =>
    (inv.tracked p member).1.pdpteIdx_ne
  refine ⟨fun b member => ?_, fun all => ⟨fun i below some_ => ?_, fun i j below some_ => ?_⟩,
    fun tracked b member => ?_⟩
  · rw [took.reached]
    rcases List.mem_append.mp member with table | dir
    · rcases (freedPts b).mp table with ⟨p, inside, here⟩
      exact .inr ⟨_, _, ptAt_none (bare _ (low p inside)) _, here⟩
    · rcases (freedPds b).mp dir with ⟨p, inside, here⟩
      exact .inl ⟨_, bare _ (low p inside), here⟩
  · rcases Option.isSome_iff_exists.mp some_ with ⟨b, here⟩
    have taken := (took.reached b).mpr (.inl ⟨i, bare i below, here⟩)
    rcases List.mem_append.mp (all b taken) with table | dir
    · rcases (freedPts b).mp table with ⟨p, inside, there⟩
      exact absurd there (inv.apart i _ _ b below (low p inside) here)
    · rcases (freedPds b).mp dir with ⟨p, inside, there⟩
      exact ⟨p, inside, inv.walk.pdInj _ _ b there here⟩
  · rcases Option.isSome_iff_exists.mp some_ with ⟨b, here⟩
    have taken := (took.reached b).mpr (.inr ⟨i, j, ptAt_none (bare i below) j, here⟩)
    rcases List.mem_append.mp (all b taken) with table | dir
    · rcases (freedPts b).mp table with ⟨p, inside, there⟩
      exact ⟨p, inside, inv.walk.ptInj _ _ _ _ b there here⟩
    · rcases (freedPds b).mp dir with ⟨p, inside, there⟩
      exact absurd here (inv.apart _ i j b (low p inside) below there)
  · rcases (took.reached b).mp member with ⟨i, none_, here⟩ | ⟨i, j, none_, here⟩
    · have below : i ≠ 3 := by
        rintro rfl
        rw [inv.kernelPd, none_] at here
        cases here
      rcases tracked.1 i below (Option.isSome_iff_exists.mpr ⟨b, here⟩) with ⟨p, inside, rfl⟩
      exact List.mem_append_right _ ((freedPds b).mpr ⟨p, inside, here⟩)
    · have below : i ≠ 3 := by
        rintro rfl
        rw [inv.kernelPts, none_] at here
        cases here
      rcases tracked.2 i j below (Option.isSome_iff_exists.mpr ⟨b, here⟩) with ⟨p, inside, rfl, rfl⟩
      exact List.mem_append_left _ ((freedPts b).mpr ⟨p, inside, here⟩)

theorem SpaceInv.teardown (inv : SpaceInv kimg start s)
    (bare : ∀ i, i ≠ 3 → pdAt kimg start.ps i = none) (falloc : Falloc) :
    ∃ tables' falloc', mmDestroyPagingStruct kimg ffreeOne s.ps s.tables falloc =
        .ok (tables', falloc') ∧
      (∃ freed : List Ptr, freed.Nodup ∧ (∀ b ∈ freed, b ∉ start.tables.blocks) ∧
        (freed ++ tables'.blocks).Perm s.tables.blocks) ∧
      (tables'.blocks.Perm start.tables.blocks ↔ TablesTracked kimg s) := by
  rcases @destroyPages_done kimg s.ps s.tables falloc s.ps.allocatedPages
    fun p member => (inv.tracked p member).2 with ⟨tables1, falloc', first, pds1, blocks1⟩
  rcases inv.took with ⟨new, took⟩
  rcases inv.freedPts with ⟨pts, ptValues, ptOnce, ptMembers⟩
  rcases inv.freedPds with ⟨pds, pdValues, pdOnce, pdMembers⟩
  rcases inv.freed_taken bare took ptMembers pdMembers with ⟨taken, all⟩
  have separate : ∀ b ∈ pts, b ∉ pds := fun b table dir => by
    rcases (ptMembers b).mp table with ⟨p, insideP, here⟩
    rcases (pdMembers b).mp dir with ⟨q, insideQ, there⟩
    exact inv.apart _ _ _ b (inv.tracked q insideQ).1.pdpteIdx_ne (inv.tracked p insideP).1.pdpteIdx_ne
      there here
  have once : (pts ++ pds).Nodup :=
    List.nodup_append.mpr ⟨ptOnce, pdOnce, fun b table c dir same => separate b table (same ▸ dir)⟩
  have live : ∀ b ∈ pts ++ pds, b ∈ s.tables.blocks := fun b member => by
    rw [took.blocks]
    exact List.mem_append_left _ (taken b member)
  have second := @destroyTables_changes tables1 s.ps.allocatedPages
    (fun page tables => ptFromVaddrAbs kimg s.ps.data tables page) _ none pts (fun t same p => by
      change ptAt kimg s.ps t (pdpteIdx p) (pdeIdx p) = ptAt kimg s.ps s.tables (pdpteIdx p) (pdeIdx p)
      unfold ptAt
      rw [same, pds1]) ptValues ptOnce fun b member => by
        rw [blocks1]
        exact live b (List.mem_append_left _ member)
  have third := @destroyTables_changes { tables1 with blocks := tables1.blocks.diff pts }
    s.ps.allocatedPages (fun page _ => pdFromVaddrAbs kimg s.ps.data page) _ none pds
    (fun _ _ _ => rfl) pdValues pdOnce fun b member => by
      refine List.mem_diff_of_mem ?_ fun table => separate b table member
      rw [blocks1]
      exact live b (List.mem_append_right _ member)
  have blocks : (tables1.blocks.diff pts).diff pds = (new ++ start.tables.blocks).diff (pts ++ pds) := by
    rw [List.diff_append, blocks1, took.blocks]
  rcases @diff_added Ptr _ new start.tables.blocks (pts ++ pds) took.nodup once taken with ⟨whole, left_⟩
  rw [← blocks] at whole left_
  refine ⟨{ tables1 with blocks := (tables1.blocks.diff pts).diff pds }, falloc', ?_,
    ⟨pts ++ pds, once, fun b member => took.unused b (taken b member), ?_⟩, left_.trans all⟩
  · unfold mmDestroyPagingStruct
    rw [first, Exec.ok_bind]
    dsimp only
    rw [second, Exec.ok_bind, third]
    rfl
  · rw [took.blocks]
    exact whole

end

/-- What of a process its address space depends on, and the frame allocator. -/
structure ProcSpace where
  proc : DmaProc DmaPaging
  falloc : Falloc

def ProcSpace.paging (s : ProcSpace) : PagingState := s.proc.pagingStruct.toPagingState

inductive SpaceCall
  | mmNewUserPage (mem : MapMem) (track : Bool) (vaddr : Ptr) (flags : BitVec 16)
  | dmaMapRange (mems : Nat → MapMem) (paddr : Ptr) (n : BitVec 32) (flags : BitVec 16) (memory : Bool)

/-- A call that returns, whatever it returns. User pages lie below the kernel. -/
def SpaceStep (kimg : KernelImage) (s : ProcSpace) (call : SpaceCall) (t : ProcSpace) : Prop :=
  match call with
  | .mmNewUserPage mem track vaddr flags => BelowKernel vaddr ∧ mem.Fresh kimg s.paging.tables ∧
      ∃ st ps tables, mmNewUserPage kimg ffreeOne mem track vaddr flags s.paging.ps s.paging.tables
          s.falloc = .ok (st, ps, tables, t.falloc) ∧
        t.proc = { s.proc with pagingStruct := ⟨⟨ps, tables⟩, s.proc.pagingStruct.mapped⟩ }
  | .dmaMapRange mems paddr n flags memory =>
      Supply kimg s.paging.tables mems s.proc.pagingStruct.mapped ∧ t.falloc = s.falloc ∧
        ∃ result, dmaMapRange (dmaMapPage kimg mems) paddr n flags memory s.proc = .ok (result, t.proc)

/-- Every unit of the bitmap is a page below the kernel. -/
def Heap.Below (heap : Heap) : Prop :=
  ∀ unit < (heap.pagespan.toNat + 7) / 8 * 8, BelowKernel (heap.page unit)

section

variable {kimg : KernelImage} {start : PagingState} {heap : Heap}

theorem SpaceInv.dmaMapRange {proc proc' : DmaProc DmaPaging} (below : heap.Below)
    (sized : proc.Sized heap) (inv : SpaceInv kimg start proc.pagingStruct.toPagingState)
    {mems : Nat → MapMem} (supply : Supply kimg proc.pagingStruct.tables mems proc.pagingStruct.mapped)
    {paddr : Ptr} {n : BitVec 32} {flags : BitVec 16} {memory : Bool} {result : Except Int Ptr}
    (call : dmaMapRange (dmaMapPage kimg mems) paddr n flags memory proc = .ok (result, proc')) :
    SpaceInv kimg start proc'.pagingStruct.toPagingState := by
  rcases dmaMapRange_outcomes call with ⟨st, -, -, rfl⟩ |
    ⟨bm, first, bm', made, marked, ⟨-, -, rfl⟩ | ⟨success, st, ps, mapped, rfl, -⟩⟩
  · exact inv
  · exact inv
  · have after := congrArg Prod.snd mapped
    dsimp only at after
    rw [← after]
    refine inv.mapPages (Nat.le_refl _) (fun i inside => ?_) supply
    have positive : 1 ≤ (dmaPages n).toNat := by omega
    rcases bitmapFirstNFreeAndMark_success positive marked success with ⟨unit, rfl, run, -⟩
    have within := run.1.2.1
    have size := dmaProc_bitmap_sized sized made
    rw [rangeStart_page, sized.1]
    exact below (unit + i) (by omega)

theorem SpaceStep.keeps {s t : ProcSpace} {call : SpaceCall} (below : heap.Below)
    (step : SpaceStep kimg s call t) (before : s.proc.Sized heap ∧ SpaceInv kimg start s.paging) :
    t.proc.Sized heap ∧ SpaceInv kimg start t.paging := by
  rcases before with ⟨sized, inv⟩
  unfold SpaceStep at step
  split at step
  · rcases step with ⟨lower, fresh, st, ps, tables, call, same⟩
    unfold ProcSpace.paging
    rw [same]
    exact ⟨sized, inv.newUserPage fresh lower call⟩
  · rename_i mems paddr n flags memory
    rcases step with ⟨supply, -, result, call⟩
    have step : DmaProc.Step (dmaMapPage kimg mems) s.proc ⟨paddr, n, flags, memory, result⟩ t.proc :=
      call
    exact ⟨step_sized step sized, inv.dmaMapRange below sized supply call⟩

end

/-- A new process: the entry of the kernel is copied, and there is no bitmap. -/
def ProcSpace.New (env : AddressSpaceEnv) (heap : Heap) (s : ProcSpace) : Prop :=
  s.paging.ps = mmMapKernelIntoPagingStruct env mmInitPagingStruct ∧ s.proc.dmaHeap = heap ∧
    s.proc.dmaBitmap = none

section

variable {env : AddressSpaceEnv} {heap : Heap} {start s : ProcSpace}

theorem mappedKernel_bare (image : ¬BelowKernel env.kimgVaddr) {i : Fin 4} (other : i ≠ 3) :
    pdAt env.kimg (mmMapKernelIntoPagingStruct env mmInitPagingStruct) i = none := by
  have kernel : pdpteIdx env.kimgVaddr = 3 := by
    apply Fin.ext
    change env.kimgVaddr.toNat / 2 ^ 30 = 3
    have bound := env.kimgVaddr.isLt
    unfold BelowKernel at image
    omega
  unfold mmMapKernelIntoPagingStruct
  rw [pdAt_setPdpte, kernel, if_neg other, pdAt_init]

theorem spaceInv_new (image : ¬BelowKernel env.kimgVaddr) (new : start.New env heap)
    (walk : WalkInv env.kimg start.paging.ps start.paging.tables) :
    SpaceInv env.kimg start.paging start.paging := by
  have none_ : start.paging.ps.allocatedPages = [] := by
    rw [new.1]
    rfl
  refine ⟨walk, ⟨[], took_none (fun _ => rfl) (fun _ _ => rfl) rfl⟩, rfl, fun _ => rfl,
    fun i i' j b first _ here => ?_, ?_, fun p member => ?_⟩
  · rw [new.1, mappedKernel_bare image first] at here
    cases here
  · rw [none_]
    exact List.Pairwise.nil
  · rw [none_] at member
    cases member

/-- The teardown gives back no block twice and none that is not of the process, and it gives back all
    that were taken for it if and only if every table has a tracked page in its range. -/
theorem mmDestroyPagingStruct_tables_iff {calls : List SpaceCall} (image : ¬BelowKernel env.kimgVaddr)
    (below : heap.Below) (new : start.New env heap)
    (walk : WalkInv env.kimg start.paging.ps start.paging.tables)
    (run : Run (SpaceStep env.kimg) start calls s) :
    ∃ tables falloc, mmDestroyPagingStruct env.kimg ffreeOne s.paging.ps s.paging.tables s.falloc =
        .ok (tables, falloc) ∧
      (∃ freed : List Ptr, freed.Nodup ∧ (∀ b ∈ freed, b ∉ start.paging.tables.blocks) ∧
        (freed ++ tables.blocks).Perm s.paging.tables.blocks) ∧
      (tables.blocks.Perm start.paging.tables.blocks ↔ TablesTracked env.kimg s.paging) := by
  have sized : start.proc.Sized heap := ⟨new.2.1, by simp [new.2.2]⟩
  have inv := (run.invariant
    (fun s => s.proc.Sized heap ∧ SpaceInv env.kimg start.paging s.paging)
    (fun _ _ _ step before => step.keeps below before) ⟨sized, spaceInv_new image new walk⟩).2
  refine inv.teardown (fun i other => ?_) s.falloc
  rw [new.1]
  exact mappedKernel_bare image other

end

/-- A kernel with its page directory at 0xc0110000. -/
def smallKernel : AddressSpaceEnv where
  kimg := ⟨0xc0000000⟩
  kmallocAligned := fun _ => ⟨none, none⟩
  track := fun _ => true
  kmalloc := fun _ => true
  kmallocOwnsVa := fun _ => false
  pagingStruct := true
  allocatedPages := true
  pdpt := true
  kimgVaddr := 0xc0100000
  kernelPdpt := fun _ => ⟨true, 0x110⟩
  opened := .error (-2)

/-- The heap of a user process. -/
def userDmaHeap : Heap := ⟨0x200000, 512, by decide⟩

theorem userDmaHeap_below : userDmaHeap.Below := by
  intro unit inside
  have few : unit < 512 := inside
  unfold BelowKernel Heap.page pageSize
  rw [BitVec.toNat_add, BitVec.toNat_ofNat]
  change (0x200000 + unit * 4096 % 2 ^ 32) % 2 ^ 32 < 3 * 2 ^ 30
  omega

def newProcSpace : ProcSpace where
  proc := ⟨userDmaHeap, none, ⟨⟨mmMapKernelIntoPagingStruct smallKernel mmInitPagingStruct,
    ⟨fun _ => pdInit, fun _ => ptInit, [0xc0110000]⟩⟩, 0⟩⟩
  falloc := Falloc.boot

theorem newProcSpace_walk :
    WalkInv smallKernel.kimg newProcSpace.paging.ps newProcSpace.paging.tables := by
  have bare (i : Fin 4) (other : i ≠ 3) : pdAt smallKernel.kimg newProcSpace.paging.ps i = none :=
    mappedKernel_bare (by decide) other
  have kernel : pdAt smallKernel.kimg newProcSpace.paging.ps 3 = some 0xc0110000 := by decide
  have tables (i : Fin 4) (j : Fin 512) :
      ptAt smallKernel.kimg newProcSpace.paging.ps newProcSpace.paging.tables i j = none := by
    by_cases three : i = 3
    · have base : (newProcSpace.paging.tables.pds 0xc0110000 j).tableBase = 0 := rfl
      rw [three, ptAt_some kernel, base]
      unfold tableVaddr
      exact if_pos (by decide)
    · exact ptAt_none (bare i three) j
  have only (i : Fin 4) (b : Ptr) (here : pdAt smallKernel.kimg newProcSpace.paging.ps i = some b) :
      i = 3 := by
    by_contra other
    rw [bare i other] at here
    cases here
  refine ⟨fun i b here => ?_, fun i j b here => ?_, fun i i' b here there => ?_,
    fun i j i' j' b here => ?_⟩
  · cases only i b here
    cases kernel.symm.trans here
    exact List.mem_singleton_self _
  · cases (tables i j).symm.trans here
  · rw [only i b here, only i' b there]
  · cases (tables i j).symm.trans here

def twoTables : MapMem := ⟨some 0xe0001000, some 0xe0002000⟩

theorem twoTables_fresh : twoTables.Fresh smallKernel.kimg newProcSpace.paging.tables := by
  refine ⟨fun b here => ?_, fun b here => ?_, fun b here => ?_⟩
  · cases here
    exact ⟨⟨by decide, by decide⟩, by decide⟩
  · cases here
    exact ⟨⟨by decide, by decide⟩, by decide⟩
  · cases here
    decide

/-- The last page of the heap as a user page. -/
def spaceWithPage : ProcSpace :=
  match mmNewUserPage smallKernel.kimg ffreeOne twoTables true 0x3ff000 0 newProcSpace.paging.ps
    newProcSpace.paging.tables newProcSpace.falloc with
  | .ok (_, ps, tables, falloc) => ⟨{ newProcSpace.proc with pagingStruct := ⟨⟨ps, tables⟩, 0⟩ }, falloc⟩
  | .error _ => newProcSpace

/-- The directory of the kernel is the only one. -/
theorem newProcSpace_tracked : TablesTracked smallKernel.kimg newProcSpace.paging := by
  have bare (i : Fin 4) (low : i ≠ 3) : pdAt smallKernel.kimg newProcSpace.paging.ps i = none :=
    mappedKernel_bare (by decide) low
  refine ⟨fun i low here => ?_, fun i j low here => ?_⟩
  · rw [bare i low] at here
    cases here
  · rw [ptAt_none (bare i low)] at here
    cases here

theorem spaceWithPage_run : Run (SpaceStep smallKernel.kimg) newProcSpace
    [.mmNewUserPage twoTables true 0x3ff000 0] spaceWithPage :=
  .single ⟨by decide, twoTables_fresh, 0, _, _, rfl, rfl⟩

/-- After one user page only the directory of the kernel remains. -/
theorem mmDestroyPagingStruct_tables_iff_page : ∃ tables falloc,
    mmDestroyPagingStruct smallKernel.kimg ffreeOne spaceWithPage.paging.ps
        spaceWithPage.paging.tables spaceWithPage.falloc = .ok (tables, falloc) ∧
      tables.blocks.Perm [0xc0110000] := by
  have new : newProcSpace.New smallKernel userDmaHeap := ⟨rfl, rfl, rfl⟩
  rcases mmDestroyPagingStruct_tables_iff (by decide) userDmaHeap_below new newProcSpace_walk
    spaceWithPage_run with ⟨tables, falloc, call, -, all⟩
  have page : mmNewUserPage smallKernel.kimg ffreeOne twoTables true 0x3ff000 0
      newProcSpace.paging.ps newProcSpace.paging.tables newProcSpace.falloc =
    .ok (0, spaceWithPage.paging.ps, spaceWithPage.paging.tables, spaceWithPage.falloc) := rfl
  have inv := spaceInv_new (by decide) new newProcSpace_walk
  exact ⟨tables, falloc, call, all.mpr (newProcSpace_tracked.newUserPage inv twoTables_fresh page)⟩

/-- There is memory for the tables of one page. -/
def oneSupply (n : Nat) : MapMem :=
  if n = 0 then twoTables else ⟨none, none⟩

theorem oneSupply_supply : Supply smallKernel.kimg newProcSpace.paging.tables oneSupply 0 :=
  twoTables_fresh.supply

/-- A process after the device page at 0x5000 was mapped for it. -/
def spaceWithDevice : ProcSpace :=
  match dmaMapRange (dmaMapPage smallKernel.kimg oneSupply) 0x5000 0x1000 0 true newProcSpace.proc with
  | .ok (_, proc) => ⟨proc, newProcSpace.falloc⟩
  | .error _ => newProcSpace

/-- Both tables of a mapped range are left after the teardown. -/
theorem mmDestroyPagingStruct_leaks_tables :
    Run (SpaceStep smallKernel.kimg) newProcSpace [.dmaMapRange oneSupply 0x5000 0x1000 0 true]
      spaceWithDevice ∧
    ∃ tables falloc, mmDestroyPagingStruct smallKernel.kimg ffreeOne spaceWithDevice.paging.ps
        spaceWithDevice.paging.tables spaceWithDevice.falloc = .ok (tables, falloc) ∧
      tables.blocks = [0xe0002000, 0xe0001000, 0xc0110000] :=
  ⟨.single ⟨oneSupply_supply, rfl, .ok 0x200000, rfl⟩, _, _, rfl, rfl⟩

end Dxgmx
