import Dxgmx.Library.Runs
import Dxgmx.Mem.FallocLending
import Dxgmx.Mem.Paging

open Library

namespace Dxgmx

section Base

variable {kimg : KernelImage}

theorem paddrOf_baseOf {paddr : Ptr} (aligned : PageAligned paddr) :
    paddrOf (baseOf paddr) = paddr := by
  unfold PageAligned pageSize at aligned
  unfold paddrOf baseOf
  rw [Nat.div_mul_cancel (Nat.dvd_of_mod_eq_zero aligned), BitVec.ofNat_toNat, BitVec.setWidth_eq]

@[simp] theorem tableVaddr_zero : tableVaddr kimg 0 = none := rfl

theorem pteFramePaddr_ptInit (k : Fin 512) : pteFramePaddr (ptInit k) = 0 := by
  show paddrOf 0 = 0
  decide

/-- A block that the kernel can point to from a table. -/
structure Mappable (kimg : KernelImage) (block : Ptr) : Prop where
  aligned : PageAligned (mmKva2pa kimg block)
  some_ : mmKva2pa kimg block ≠ 0

theorem Mappable.tableVaddr {block : Ptr} (mappable : Mappable kimg block) :
    tableVaddr kimg (baseOf (mmKva2pa kimg block)) = some block := by
  unfold Dxgmx.tableVaddr
  rw [paddrOf_baseOf mappable.aligned, if_neg mappable.some_]
  unfold mmKpa2va mmKva2pa
  rw [BitVec.sub_add_cancel]

end Base

section Walk

variable {kimg : KernelImage} {ps ps' : PagingStruct} {tables tables' : Tables}

def pdAt (kimg : KernelImage) (ps : PagingStruct) (i : Fin 4) : Option Ptr :=
  tableVaddr kimg (ps.data i).pdBase

def ptAt (kimg : KernelImage) (ps : PagingStruct) (tables : Tables) (i : Fin 4) (j : Fin 512) :
    Option Ptr :=
  match pdAt kimg ps i with
  | none => none
  | some pd => tableVaddr kimg (tables.pds pd j).tableBase

/-- What the entry of a page holds, if there is a table with the entry. -/
def frameAt (kimg : KernelImage) (ps : PagingStruct) (tables : Tables) (i : Fin 4) (j k : Fin 512) :
    Option Ptr :=
  (ptAt kimg ps tables i j).map fun pt => pteFramePaddr (tables.pts pt k)

def pteAt (kimg : KernelImage) (ps : PagingStruct) (tables : Tables) (i : Fin 4) (j k : Fin 512) :
    Option PageTableEntry :=
  (ptAt kimg ps tables i j).map fun pt => tables.pts pt k

/-- The walk does not look at the tracked pages. -/
theorem pdAt_track (pages : List Ptr) :
    pdAt kimg { ps with allocatedPages := pages } = pdAt kimg ps := rfl

theorem ptAt_track (pages : List Ptr) :
    ptAt kimg { ps with allocatedPages := pages } tables = ptAt kimg ps tables := by
  funext i j
  unfold ptAt
  rw [pdAt_track]

theorem pteAt_track (pages : List Ptr) :
    pteAt kimg { ps with allocatedPages := pages } tables = pteAt kimg ps tables := by
  funext i j k
  unfold pteAt
  rw [ptAt_track]

theorem frameAt_pteAt (kimg : KernelImage) (ps : PagingStruct) (tables : Tables) (i : Fin 4)
    (j k : Fin 512) :
    frameAt kimg ps tables i j k = (pteAt kimg ps tables i j k).map pteFramePaddr := by
  unfold frameAt pteAt
  rw [Option.map_map]
  rfl

theorem mmVa2pa_frameAt (kimg : KernelImage) (ps : PagingStruct) (tables : Tables) (x : Ptr) :
    mmVa2pa kimg ps.data tables x =
      match frameAt kimg ps tables (pdpteIdx x) (pdeIdx x) (pteIdx x) with
      | none => 0
      | some frame => frame + BitVec.ofNat 32 (x.toNat % pageSize) := by
  unfold mmVa2pa frameAt
  change (match ptAt kimg ps tables (pdpteIdx x) (pdeIdx x) with
    | none => _
    | some pt => _) = _
  cases ptAt kimg ps tables (pdpteIdx x) (pdeIdx x) <;> rfl

/-- No table is reached in two ways. -/
structure WalkInv (kimg : KernelImage) (ps : PagingStruct) (tables : Tables) : Prop where
  pdBlock : ∀ i b, pdAt kimg ps i = some b → b ∈ tables.blocks
  ptBlock : ∀ i j b, ptAt kimg ps tables i j = some b → b ∈ tables.blocks
  pdInj : ∀ i i' b, pdAt kimg ps i = some b → pdAt kimg ps i' = some b → i = i'
  ptInj : ∀ i j i' j' b, ptAt kimg ps tables i j = some b → ptAt kimg ps tables i' j' = some b →
    i = i' ∧ j = j'

theorem WalkInv.track (walk : WalkInv kimg ps tables) (pages : List Ptr) :
    WalkInv kimg { ps with allocatedPages := pages } tables := by
  constructor
  · rw [pdAt_track]
    exact walk.pdBlock
  · rw [ptAt_track]
    exact walk.ptBlock
  · rw [pdAt_track]
    exact walk.pdInj
  · rw [ptAt_track]
    exact walk.ptInj

/-- `kmalloc_aligned` answers with fresh blocks. -/
structure MapMem.Fresh (kimg : KernelImage) (mem : MapMem) (tables : Tables) : Prop where
  pdMappable : ∀ b, mem.pd = some b → Mappable kimg b ∧ b ∉ tables.blocks
  ptMappable : ∀ b, mem.pt = some b → Mappable kimg b ∧ b ∉ tables.blocks
  distinct : ∀ b, mem.pd = some b → mem.pt ≠ some b

theorem pdAt_setPdpte (idx : Fin 4) (pdpte : PageDirectoryPointerTableEntry) (i : Fin 4) :
    pdAt kimg (ps.setPdpte idx pdpte) i =
      if i = idx then tableVaddr kimg pdpte.pdBase else pdAt kimg ps i := by
  unfold pdAt PagingStruct.setPdpte
  dsimp only
  by_cases same : i = idx
  · subst same
    rw [if_pos rfl, Function.update_self]
  · rw [if_neg same, Function.update_of_ne same]

theorem ptAt_none {i : Fin 4} (missing : pdAt kimg ps i = none) (j : Fin 512) :
    ptAt kimg ps tables i j = none := by
  unfold ptAt
  rw [missing]

theorem ptAt_some {i : Fin 4} {pd : Ptr} (here : pdAt kimg ps i = some pd) (j : Fin 512) :
    ptAt kimg ps tables i j = tableVaddr kimg (tables.pds pd j).tableBase := by
  unfold ptAt
  rw [here]

/-- Directories that hold the same bases lead to the same tables. -/
theorem ptAt_congr (same : ∀ i, pdAt kimg ps' i = pdAt kimg ps i)
    (bases : ∀ i pd, pdAt kimg ps i = some pd → ∀ j,
      (tables'.pds pd j).tableBase = (tables.pds pd j).tableBase) (i : Fin 4) (j : Fin 512) :
    ptAt kimg ps' tables' i j = ptAt kimg ps tables i j := by
  cases here : pdAt kimg ps i with
  | none => rw [ptAt_none here, ptAt_none ((same i).trans here)]
  | some pd => rw [ptAt_some here, ptAt_some ((same i).trans here), bases i pd here]

theorem addPd_pds {pd : Ptr} (other : Ptr) :
    (tables.addPd pd).pds other = if other = pd then pdInit else tables.pds other := by
  unfold Tables.addPd
  dsimp only
  by_cases same : other = pd
  · rw [same, if_pos rfl, Function.update_self]
  · rw [if_neg same, Function.update_of_ne same]

theorem addPt_pts {pt : Ptr} (other : Ptr) :
    (tables.addPt pt).pts other = if other = pt then ptInit else tables.pts other := by
  unfold Tables.addPt
  dsimp only
  by_cases same : other = pt
  · rw [same, if_pos rfl, Function.update_self]
  · rw [if_neg same, Function.update_of_ne same]

theorem setPde_pds (pd : Ptr) (idx : Fin 512) (pde : PageDirectoryEntry) (other : Ptr)
    (j : Fin 512) : (tables.setPde pd idx pde).pds other j =
      if other = pd ∧ j = idx then pde else tables.pds other j := by
  unfold Tables.setPde
  dsimp only
  by_cases same : other = pd
  · subst same
    rw [Function.update_self]
    by_cases here : j = idx
    · rw [here, Function.update_self, if_pos ⟨rfl, rfl⟩]
    · rw [Function.update_of_ne here, if_neg (here ∘ And.right)]
  · rw [Function.update_of_ne same, if_neg (same ∘ And.left)]

theorem setPte_pts (pt : Ptr) (idx : Fin 512) (pte : PageTableEntry) (other : Ptr)
    (k : Fin 512) : (tables.setPte pt idx pte).pts other k =
      if other = pt ∧ k = idx then pte else tables.pts other k := by
  unfold Tables.setPte
  dsimp only
  by_cases same : other = pt
  · subst same
    rw [Function.update_self]
    by_cases here : k = idx
    · rw [here, Function.update_self, if_pos ⟨rfl, rfl⟩]
    · rw [Function.update_of_ne here, if_neg (here ∘ And.right)]
  · rw [Function.update_of_ne same, if_neg (same ∘ And.left)]

theorem mapPageDirectory_made {mem : MapMem} {idx : Fin 4} {pd : Ptr}
    (call : mapPageDirectory kimg mem idx ps tables = some (pd, ps', tables')) :
    (pdAt kimg ps idx = some pd ∧ ps = ps' ∧ tables = tables') ∨
    (pdAt kimg ps idx = none ∧ mem.pd = some pd ∧
      ps.setPdpte idx { ps.data idx with pdBase := baseOf (mmKva2pa kimg pd) } = ps' ∧
      tables.addPd pd = tables') := by
  unfold mapPageDirectory at call
  split at call
  · rename_i here
    cases call
    exact .inl ⟨here, rfl, rfl⟩
  · rename_i missing
    split at call
    · cases call
    · rename_i new
      cases call
      exact .inr ⟨missing, new, rfl, rfl⟩

theorem mapPageTable_made {mem : MapMem} {pd pt : Ptr} {j : Fin 512}
    (call : mapPageTable kimg mem pd j tables = some (pt, tables')) :
    (tableVaddr kimg (tables.pds pd j).tableBase = some pt ∧ tables = tables') ∨
    (tableVaddr kimg (tables.pds pd j).tableBase = none ∧ mem.pt = some pt ∧
      (tables.addPt pt).setPde pd j
        { tables.pds pd j with tableBase := baseOf (mmKva2pa kimg pt) } = tables') := by
  unfold mapPageTable at call
  split at call
  · rename_i here
    cases call
    exact .inl ⟨here, rfl⟩
  · rename_i missing
    split at call
    · cases call
    · rename_i new
      cases call
      exact .inr ⟨missing, new, rfl⟩

theorem mapPageDirectory_spec (inv : WalkInv kimg ps tables) {mem : MapMem}
    (fresh : mem.Fresh kimg tables) {idx : Fin 4} {pd : Ptr}
    (call : mapPageDirectory kimg mem idx ps tables = some (pd, ps', tables')) :
    WalkInv kimg ps' tables' ∧ pdAt kimg ps' idx = some pd ∧ tables'.pts = tables.pts ∧
      (∀ i j, ptAt kimg ps' tables' i j = ptAt kimg ps tables i j) ∧
      ∀ b, mem.pt = some b → b ∉ tables'.blocks := by
  obtain ⟨here, rfl, rfl⟩ | ⟨missing, new, rfl, rfl⟩ := mapPageDirectory_made call
  · exact ⟨inv, here, rfl, fun _ _ => rfl, fun b new => (fresh.ptMappable b new).2⟩
  · obtain ⟨mappable, unused⟩ := fresh.pdMappable _ new
    have pds (i : Fin 4) : pdAt kimg (ps.setPdpte idx
        { ps.data idx with pdBase := baseOf (mmKva2pa kimg pd) }) i =
          if i = idx then some pd else pdAt kimg ps i := by
      rw [pdAt_setPdpte, mappable.tableVaddr]
    -- the new directory is empty, and there was none before
    have pts (i : Fin 4) (j : Fin 512) : ptAt kimg (ps.setPdpte idx
        { ps.data idx with pdBase := baseOf (mmKva2pa kimg pd) }) (tables.addPd pd) i j =
          ptAt kimg ps tables i j := by
      by_cases same : i = idx
      · subst same
        rw [ptAt_none missing,
          ptAt_some ((pds i).trans (if_pos rfl)), addPd_pds, if_pos rfl]
        exact tableVaddr_zero
      · unfold ptAt
        rw [pds, if_neg same]
        cases here : pdAt kimg ps i with
        | none => rfl
        | some other =>
          have different : other ≠ pd := fun eq => unused (eq ▸ inv.pdBlock i other here)
          show tableVaddr kimg ((tables.addPd pd).pds other j).tableBase = _
          rw [addPd_pds, if_neg different]
    refine ⟨⟨?_, ?_, ?_, ?_⟩, (pds idx).trans (if_pos rfl), rfl, pts, ?_⟩
    · intro i b here
      rw [pds] at here
      split at here
      · cases here
        exact List.mem_cons_self
      · exact List.mem_cons_of_mem _ (inv.pdBlock i b here)
    · intro i j b here
      rw [pts] at here
      exact List.mem_cons_of_mem _ (inv.ptBlock i j b here)
    · intro i i' b here there
      rw [pds] at here there
      split at here <;> split at there
      · rename_i first second
        exact first.trans second.symm
      · cases here
        exact absurd (inv.pdBlock i' _ there) unused
      · cases there
        exact absurd (inv.pdBlock i _ here) unused
      · exact inv.pdInj i i' b here there
    · intro i j i' j' b here there
      rw [pts] at here there
      exact inv.ptInj i j i' j' b here there
    · intro b other member
      rcases List.mem_cons.mp member with rfl | member
      · exact fresh.distinct _ new other
      · exact (fresh.ptMappable b other).2 member

/-- The table of one directory entry is made without a change to what the others lead to. -/
theorem mapPageTable_ptAt (inv : WalkInv kimg ps tables) {mem : MapMem}
    (mappable : ∀ b, mem.pt = some b → Mappable kimg b) {i : Fin 4} {j : Fin 512} {pd pt : Ptr}
    (dir : pdAt kimg ps i = some pd)
    (call : mapPageTable kimg mem pd j tables = some (pt, tables')) (i' : Fin 4) (j' : Fin 512) :
    ptAt kimg ps tables' i' j' = if i' = i ∧ j' = j then some pt else ptAt kimg ps tables i' j' := by
  obtain ⟨here, rfl⟩ | ⟨missing, new, rfl⟩ := mapPageTable_made call
  · split
    · rename_i same
      rw [same.1, same.2, ptAt_some dir, here]
    · rfl
  · generalize pdeEq : ({ tables.pds pd j with tableBase := baseOf (mmKva2pa kimg pt) } :
      PageDirectoryEntry) = pde
    have base : tableVaddr kimg pde.tableBase = some pt := by
      rw [← pdeEq]
      exact (mappable pt new).tableVaddr
    cases there : pdAt kimg ps i' with
    | none =>
      rw [ptAt_none there, ptAt_none there, if_neg]
      rintro ⟨rfl, -⟩
      rw [dir] at there
      cases there
    | some other =>
      rw [ptAt_some there, ptAt_some there, setPde_pds]
      by_cases same : i' = i
      · subst same
        cases dir.symm.trans there
        by_cases here : j' = j
        · rw [if_pos ⟨rfl, here⟩, if_pos ⟨rfl, here⟩, base]
        · rw [if_neg (here ∘ And.right), if_neg (here ∘ And.right)]
          rfl
      · have different : other ≠ pd := fun eq => same (inv.pdInj i' i pd (eq ▸ there) dir)
        rw [if_neg (different ∘ And.left), if_neg (same ∘ And.left)]
        rfl

/-- All entries of a new table hold frame 0. -/
theorem mapPageTable_spec (inv : WalkInv kimg ps tables) {mem : MapMem}
    (fresh : ∀ b, mem.pt = some b → Mappable kimg b ∧ b ∉ tables.blocks) {i : Fin 4} {j : Fin 512}
    {pd pt : Ptr} (dir : pdAt kimg ps i = some pd)
    (call : mapPageTable kimg mem pd j tables = some (pt, tables')) :
    WalkInv kimg ps tables' ∧ ptAt kimg ps tables' i j = some pt ∧
      (∀ k, tables'.pts pt k = (pteAt kimg ps tables i j k).getD (ptInit k)) ∧
      ∀ i' j', (i' ≠ i ∨ j' ≠ j) →
        ∀ k, pteAt kimg ps tables' i' j' k = pteAt kimg ps tables i' j' k := by
  have pts := mapPageTable_ptAt inv (fun b new => (fresh b new).1) dir call
  have entry : ptAt kimg ps tables i j = tableVaddr kimg (tables.pds pd j).tableBase :=
    ptAt_some dir j
  obtain ⟨here, rfl⟩ | ⟨missing, new, rfl⟩ := mapPageTable_made call
  · rw [here] at entry
    refine ⟨inv, entry, fun k => ?_, fun _ _ _ _ => rfl⟩
    unfold pteAt
    rw [entry]
    rfl
  · rw [missing] at entry
    have unused := (fresh _ new).2
    refine ⟨⟨?_, ?_, inv.pdInj, ?_⟩, (pts i j).trans (if_pos ⟨rfl, rfl⟩), fun k => ?_,
      fun i' j' different k => ?_⟩
    · exact fun i' b here => List.mem_cons_of_mem _ (inv.pdBlock i' b here)
    · intro i' j' b here
      rw [pts] at here
      split at here
      · cases here
        exact List.mem_cons_self
      · exact List.mem_cons_of_mem _ (inv.ptBlock i' j' b here)
    · intro i1 j1 i2 j2 b here there
      rw [pts] at here there
      split at here <;> split at there
      · rename_i first second
        exact ⟨first.1.trans second.1.symm, first.2.trans second.2.symm⟩
      · cases here
        exact absurd (inv.ptBlock i2 j2 _ there) unused
      · cases there
        exact absurd (inv.ptBlock i1 j1 _ here) unused
      · exact inv.ptInj i1 j1 i2 j2 b here there
    · unfold pteAt
      rw [entry]
      show (tables.addPt pt).pts pt k = ptInit k
      rw [addPt_pts, if_pos rfl]
    · unfold pteAt
      rw [pts, if_neg (by tauto)]
      apply Option.map_congr
      intro other there
      have unequal : other ≠ pt := fun eq => unused (eq ▸ inv.ptBlock i' j' other there)
      show (tables.addPt pt).pts other k = _
      rw [addPt_pts, if_neg unequal]

theorem pdAt_present (i : Fin 4) (present : Bool) (i' : Fin 4) :
    pdAt kimg (ps.setPdpte i { ps.data i with present := present }) i' = pdAt kimg ps i' := by
  rw [pdAt_setPdpte]
  split
  · rename_i same
    rw [same]
    rfl
  · rfl

/-- A store to one entry that leads on as before leaves the tables. -/
theorem setEntry_ptAt {i : Fin 4} {j : Fin 512} {pd pt : Ptr} (present : Bool)
    (pde : PageDirectoryEntry) (k : Fin 512) (pte : PageTableEntry)
    (base : pde.tableBase = (tables.pds pd j).tableBase) (i' : Fin 4) (j' : Fin 512) :
    ptAt kimg (ps.setPdpte i { ps.data i with present := present })
      ((tables.setPde pd j pde).setPte pt k pte) i' j' = ptAt kimg ps tables i' j' := by
  refine ptAt_congr (pdAt_present i present) (fun i' other _ j' => ?_) i' j'
  show ((tables.setPde pd j pde).pds other j').tableBase = _
  rw [setPde_pds]
  split
  · rename_i same
    rw [same.1, same.2, base]
  · rfl

/-- A store to one entry that leads on as before and to one entry of a table. -/
theorem setEntry_spec (inv : WalkInv kimg ps tables) {i : Fin 4} {j : Fin 512} {pd pt : Ptr}
    (table : ptAt kimg ps tables i j = some pt) (present : Bool) (pde : PageDirectoryEntry)
    (k : Fin 512) (pte : PageTableEntry) (base : pde.tableBase = (tables.pds pd j).tableBase) :
    WalkInv kimg (ps.setPdpte i { ps.data i with present := present })
        ((tables.setPde pd j pde).setPte pt k pte) ∧
      ∀ i' j' k', pteAt kimg (ps.setPdpte i { ps.data i with present := present })
          ((tables.setPde pd j pde).setPte pt k pte) i' j' k' =
        if (i' = i ∧ j' = j) ∧ k' = k then some pte else pteAt kimg ps tables i' j' k' := by
  have pds := @pdAt_present kimg ps i present
  have pts := @setEntry_ptAt kimg ps tables i j pd pt present pde k pte base
  refine ⟨⟨?_, ?_, ?_, ?_⟩, fun i' j' k' => ?_⟩
  · intro i' b here
    rw [pds] at here
    exact inv.pdBlock i' b here
  · intro i' j' b here
    rw [pts] at here
    exact inv.ptBlock i' j' b here
  · intro i1 i2 b here there
    rw [pds] at here there
    exact inv.pdInj i1 i2 b here there
  · intro i1 j1 i2 j2 b here there
    rw [pts] at here there
    exact inv.ptInj i1 j1 i2 j2 b here there
  · unfold pteAt
    rw [pts]
    by_cases same : i' = i ∧ j' = j
    · rw [same.1, same.2, table]
      show some (((tables.setPde pd j pde).setPte pt k pte).pts pt k') = _
      rw [setPte_pts]
      by_cases here : k' = k
      · rw [if_pos ⟨rfl, here⟩, if_pos ⟨⟨rfl, rfl⟩, here⟩]
      · rw [if_neg (here ∘ And.right), if_neg (here ∘ And.right)]
        rfl
    · rw [if_neg (same ∘ And.left)]
      apply Option.map_congr
      intro other there
      have unequal : other ≠ pt := by
        rintro rfl
        exact same (inv.ptInj i' j' i j _ there table)
      rw [setPte_pts, if_neg (unequal ∘ And.left)]
      rfl

/-- The entry that `mm_map_page_arch` stores. -/
def pageEntry (paddr : Ptr) (flags : BitVec 16) : PageTableEntry :=
  ⟨true, flags &&& pageW ≠ 0, flags &&& pageUser ≠ 0, baseOf paddr, flags &&& pageX = 0⟩

section

variable (kimg : KernelImage) (mem : MapMem) (vaddr paddr : Ptr) (flags : BitVec 16)
  (ps : PagingStruct) (tables : Tables)

/-- How `mm_map_page_arch` returns: without a page directory, without a page table, or done. -/
inductive MapReturns : Int → PagingStruct → Tables → Prop
  | noPd (stuck : mapPageDirectory kimg mem (pdpteIdx vaddr) ps tables = none) :
      MapReturns (-12) ps tables
  | noPt (pd : Ptr) (ps1 : PagingStruct) (tables1 : Tables)
      (made : mapPageDirectory kimg mem (pdpteIdx vaddr) ps tables = some (pd, ps1, tables1))
      (stuck : mapPageTable kimg mem pd (pdeIdx vaddr) tables1 = none) :
      MapReturns (-12) ps1 tables1
  | done (pd : Ptr) (ps1 : PagingStruct) (tables1 : Tables) (pt : Ptr) (tables2 : Tables)
      (pde : PageDirectoryEntry)
      (made : mapPageDirectory kimg mem (pdpteIdx vaddr) ps tables = some (pd, ps1, tables1))
      (madePt : mapPageTable kimg mem pd (pdeIdx vaddr) tables1 = some (pt, tables2))
      (flagged : pde = (mmSetPteAndPdeFlags (tables2.pts pt (pteIdx vaddr))
        { tables2.pds pd (pdeIdx vaddr) with present := true } flags).2) :
      MapReturns 0 (ps1.setPdpte (pdpteIdx vaddr) { ps1.data (pdpteIdx vaddr) with present := true })
        ((tables2.setPde pd (pdeIdx vaddr) pde).setPte pt (pteIdx vaddr) (pageEntry paddr flags))

end

theorem mmMapPageArch_returns {mem : MapMem} {vaddr paddr : Ptr} {flags : BitVec 16} {st : Int}
    (call : mmMapPageArch kimg mem vaddr paddr flags ps tables = (st, ps', tables')) :
    MapReturns kimg mem vaddr paddr flags ps tables st ps' tables' := by
  unfold mmMapPageArch at call
  split at call
  · rename_i stuck
    cases call
    exact .noPd stuck
  · rename_i made
    split at call
    · rename_i stuck
      cases call
      exact .noPt _ _ _ made stuck
    · rename_i madePt
      cases call
      exact .done _ _ _ _ _ _ made madePt rfl

theorem mapPageDirectory_stuck {mem : MapMem} {idx : Fin 4}
    (stuck : mapPageDirectory kimg mem idx ps tables = none) :
    pdAt kimg ps idx = none ∧ mem.pd = none := by
  unfold mapPageDirectory at stuck
  split at stuck
  · cases stuck
  · rename_i missing
    split at stuck
    · rename_i none_
      exact ⟨missing, none_⟩
    · cases stuck

theorem mapPageTable_stuck {mem : MapMem} {pd : Ptr} {j : Fin 512}
    (stuck : mapPageTable kimg mem pd j tables = none) :
    tableVaddr kimg (tables.pds pd j).tableBase = none ∧ mem.pt = none := by
  unfold mapPageTable at stuck
  split at stuck
  · cases stuck
  · rename_i missing
    split at stuck
    · rename_i none_
      exact ⟨missing, none_⟩
    · cases stuck

theorem mmMapPageArch_entries (inv : WalkInv kimg ps tables) {mem : MapMem}
    (fresh : mem.Fresh kimg tables) {vaddr paddr : Ptr} {flags : BitVec 16} {st : Int}
    (call : mmMapPageArch kimg mem vaddr paddr flags ps tables = (st, ps', tables')) :
    WalkInv kimg ps' tables' ∧
      ((st = -12 ∧ ∀ i j k, pteAt kimg ps' tables' i j k = pteAt kimg ps tables i j k) ∨
        (st = 0 ∧ ∀ i j k, pteAt kimg ps' tables' i j k =
          if i = pdpteIdx vaddr ∧ j = pdeIdx vaddr then
            some (if k = pteIdx vaddr then pageEntry paddr flags
              else (pteAt kimg ps tables i j k).getD (ptInit k))
          else pteAt kimg ps tables i j k)) := by
  have entries1 {pd : Ptr} {ps1 : PagingStruct} {tables1 : Tables}
      (made : mapPageDirectory kimg mem (pdpteIdx vaddr) ps tables = some (pd, ps1, tables1))
      (i : Fin 4) (j k : Fin 512) : pteAt kimg ps1 tables1 i j k = pteAt kimg ps tables i j k := by
    obtain ⟨-, -, samePts, same, -⟩ := mapPageDirectory_spec inv fresh made
    unfold pteAt
    rw [same, samePts]
  cases mmMapPageArch_returns call with
  | noPd => exact ⟨inv, .inl ⟨rfl, fun _ _ _ => rfl⟩⟩
  | noPt pd ps1 tables1 made =>
    obtain ⟨inv1, -⟩ := mapPageDirectory_spec inv fresh made
    exact ⟨inv1, .inl ⟨rfl, entries1 made⟩⟩
  | done pd ps1 tables1 pt tables2 pde made madePt flagged =>
    obtain ⟨inv1, dir, -, -, unused⟩ := mapPageDirectory_spec inv fresh made
    obtain ⟨inv2, table, entries, others⟩ := mapPageTable_spec inv1
      (fun b new => ⟨(fresh.ptMappable b new).1, unused b new⟩) dir madePt
    have base : pde.tableBase = (tables2.pds pd (pdeIdx vaddr)).tableBase := by
      rw [flagged]
      rfl
    obtain ⟨inv3, stored⟩ := setEntry_spec inv2 table true pde (pteIdx vaddr)
      (pageEntry paddr flags) base
    refine ⟨inv3, .inr ⟨rfl, fun i j k => (stored i j k).trans ?_⟩⟩
    by_cases here : i = pdpteIdx vaddr ∧ j = pdeIdx vaddr
    · rw [if_pos here]
      by_cases entry : k = pteIdx vaddr
      · rw [if_pos ⟨here, entry⟩, if_pos entry]
      · rw [if_neg (entry ∘ And.right), if_neg entry, ← entries1 made, here.1, here.2, ← entries]
        unfold pteAt
        rw [table]
        rfl
    · rw [if_neg (here ∘ And.left), if_neg here, ← entries1 made]
      exact others i j (by tauto) k

/-- What `mm_map_page_arch` does to the frames that the entries hold. -/
theorem mmMapPageArch_spec (inv : WalkInv kimg ps tables) {mem : MapMem}
    (fresh : mem.Fresh kimg tables) {vaddr paddr : Ptr} (aligned : PageAligned paddr)
    {flags : BitVec 16} {st : Int}
    (call : mmMapPageArch kimg mem vaddr paddr flags ps tables = (st, ps', tables')) :
    WalkInv kimg ps' tables' ∧
      ((st = -12 ∧ ∀ i j k, frameAt kimg ps' tables' i j k = frameAt kimg ps tables i j k) ∨
        (st = 0 ∧ ∀ i j k, frameAt kimg ps' tables' i j k =
          if i = pdpteIdx vaddr ∧ j = pdeIdx vaddr then
            some (if k = pteIdx vaddr then paddr else (frameAt kimg ps tables i j k).getD 0)
          else frameAt kimg ps tables i j k)) := by
  obtain ⟨inv', ⟨failed, same⟩ | ⟨done, entries⟩⟩ := mmMapPageArch_entries inv fresh call
  · refine ⟨inv', .inl ⟨failed, fun i j k => ?_⟩⟩
    rw [frameAt_pteAt, same, frameAt_pteAt]
  · refine ⟨inv', .inr ⟨done, fun i j k => ?_⟩⟩
    rw [frameAt_pteAt, entries, frameAt_pteAt]
    by_cases here : i = pdpteIdx vaddr ∧ j = pdeIdx vaddr
    · rw [if_pos here, if_pos here]
      by_cases entry : k = pteIdx vaddr
      · rw [if_pos entry, if_pos entry]
        exact congrArg some (paddrOf_baseOf aligned)
      · rw [if_neg entry, if_neg entry]
        cases pteAt kimg ps tables i j k with
        | none => exact congrArg some (pteFramePaddr_ptInit k)
        | some pte => rfl
    · rw [if_neg here, if_neg here]

theorem pdpteIdx_pdeIdx_iff (x vaddr : Ptr) :
    pdpteIdx x = pdpteIdx vaddr ∧ pdeIdx x = pdeIdx vaddr ↔
      x.toNat / 2 ^ 21 = vaddr.toNat / 2 ^ 21 := by
  unfold pdpteIdx pdeIdx
  rw [Fin.mk.injEq, Fin.mk.injEq]
  omega

theorem page_iff (x vaddr : Ptr) :
    (x.toNat / 2 ^ 21 = vaddr.toNat / 2 ^ 21 ∧ pteIdx x = pteIdx vaddr) ↔
      x.toNat / pageSize = vaddr.toNat / pageSize := by
  unfold pteIdx pageSize
  rw [Fin.mk.injEq]
  omega

end Walk

/-- One call of `mm_map_page` with what it returned. -/
structure MapCall where
  mem : MapMem
  vaddr : Ptr
  paddr : Ptr
  flags : BitVec 16
  st : Int

structure PagingState where
  ps : PagingStruct
  tables : Tables

/-- Callers map aligned pages to aligned frames other than frame 0. -/
structure MapStep (kimg : KernelImage) (s : PagingState) (call : MapCall) (t : PagingState) : Prop where
  vaddr : PageAligned call.vaddr
  paddr : PageAligned call.paddr
  some_ : call.paddr ≠ 0
  fresh : call.mem.Fresh kimg s.tables
  done : mmMapPage kimg call.mem call.vaddr call.paddr call.flags s.ps s.tables =
    .ok (call.st, t.ps, t.tables)

def PagingState.va2pa (kimg : KernelImage) (s : PagingState) (x : Ptr) : Ptr :=
  mmVa2pa kimg s.ps.data s.tables x

/-- The frame of the last successful call whose page contains `x`. -/
def lastMapped (x : Ptr) (trace : List MapCall) : Option Ptr :=
  trace.foldl (fun last call =>
    if call.st = 0 ∧ x.toNat / pageSize = call.vaddr.toNat / pageSize then some call.paddr
    else last) none

/-- A successful call mapped a page whose entry stands in the table of `x`. -/
def TableMapped (x : Ptr) (trace : List MapCall) : Prop :=
  ∃ call ∈ trace, call.st = 0 ∧ x.toNat / 2 ^ 21 = call.vaddr.toNat / 2 ^ 21

instance (x : Ptr) (trace : List MapCall) : Decidable (TableMapped x trace) :=
  inferInstanceAs (Decidable (∃ call ∈ trace, _))

theorem lastMapped_snoc (x : Ptr) (trace : List MapCall) (call : MapCall) :
    lastMapped x (trace ++ [call]) =
      if call.st = 0 ∧ x.toNat / pageSize = call.vaddr.toNat / pageSize then some call.paddr
      else lastMapped x trace := by
  unfold lastMapped
  rw [List.foldl_append]
  rfl

theorem tableMapped_snoc (x : Ptr) (trace : List MapCall) (call : MapCall) :
    TableMapped x (trace ++ [call]) ↔ TableMapped x trace ∨
      (call.st = 0 ∧ x.toNat / 2 ^ 21 = call.vaddr.toNat / 2 ^ 21) := by
  unfold TableMapped
  constructor
  · rintro ⟨other, member, rest⟩
    rcases List.mem_append.mp member with member | member
    · exact .inl ⟨other, member, rest⟩
    · rw [List.mem_singleton.mp member] at rest
      exact .inr rest
  · rintro (⟨other, member, rest⟩ | rest)
    · exact ⟨other, List.mem_append_left _ member, rest⟩
    · exact ⟨call, List.mem_append_right _ List.mem_cons_self, rest⟩

theorem lastMapped_tableMapped {x : Ptr} {trace : List MapCall} {paddr : Ptr}
    (mapped : lastMapped x trace = some paddr) : TableMapped x trace := by
  induction trace using List.reverseRecOn with
  | nil => cases mapped
  | append_singleton trace call ih =>
    rw [lastMapped_snoc] at mapped
    rw [tableMapped_snoc]
    split at mapped
    · rename_i here
      have page := here.2
      unfold pageSize at page
      exact .inr ⟨here.1, by omega⟩
    · exact .inl (ih mapped)

/-- What the entry of `x` holds after a run: frame 0 until its page is mapped. -/
def Entry (kimg : KernelImage) (s : PagingState) (trace : List MapCall) (x : Ptr) : Prop :=
  frameAt kimg s.ps s.tables (pdpteIdx x) (pdeIdx x) (pteIdx x) =
    if TableMapped x trace then some ((lastMapped x trace).getD 0) else none

theorem MapStep.arch {kimg : KernelImage} {s t : PagingState} {call : MapCall}
    (step : MapStep kimg s call t) :
    mmMapPageArch kimg call.mem call.vaddr call.paddr call.flags s.ps s.tables =
      (call.st, t.ps, t.tables) := by
  have done := step.done
  unfold mmMapPage at done
  rw [assert_bind_ok, assert_bind_ok] at done
  exact Except.ok.inj done.2.2

theorem MapStep.entry {kimg : KernelImage} {s t : PagingState} {trace : List MapCall}
    {call : MapCall} (step : MapStep kimg s call t) (inv : WalkInv kimg s.ps s.tables)
    (entries : ∀ x, Entry kimg s trace x) :
    WalkInv kimg t.ps t.tables ∧ ∀ x, Entry kimg t (trace ++ [call]) x := by
  obtain ⟨kept, frames⟩ := mmMapPageArch_spec inv step.fresh step.paddr step.arch
  refine ⟨kept, fun x => ?_⟩
  have old := entries x
  unfold Entry at old ⊢
  rcases frames with ⟨failed, same⟩ | ⟨done, stored⟩
  · have unsuccessful : ¬ call.st = 0 := by omega
    rw [same, lastMapped_snoc, if_neg (unsuccessful ∘ And.left), old]
    simp only [tableMapped_snoc, unsuccessful, false_and, or_false]
  · rw [stored, lastMapped_snoc, old]
    simp only [done, true_and, pdpteIdx_pdeIdx_iff, tableMapped_snoc]
    by_cases table : x.toNat / 2 ^ 21 = call.vaddr.toNat / 2 ^ 21
    · have page := page_iff x call.vaddr
      rw [if_pos table, if_pos (show TableMapped x trace ∨ _ from .inr table)]
      by_cases entry : pteIdx x = pteIdx call.vaddr
      · rw [if_pos entry, if_pos (page.mp ⟨table, entry⟩)]
        rfl
      · rw [if_neg entry, if_neg (entry ∘ And.right ∘ page.mpr)]
        split
        · rfl
        · rename_i unmapped
          have none : lastMapped x trace = none :=
            Option.eq_none_iff_forall_ne_some.mpr fun paddr mapped =>
              unmapped (lastMapped_tableMapped mapped)
          rw [none]
    · rw [if_neg table, if_neg (table ∘ And.left ∘ (page_iff x call.vaddr).mpr)]
      simp only [table, or_false]

theorem pdAt_init (kimg : KernelImage) (i : Fin 4) : pdAt kimg mmInitPagingStruct i = none :=
  tableVaddr_zero

theorem walkInv_init (kimg : KernelImage) (tables : Tables) :
    WalkInv kimg mmInitPagingStruct tables := by
  refine ⟨fun i b here => ?_, fun i j b here => ?_, fun i i' b here => ?_,
    fun i j i' j' b here => ?_⟩
  · rw [pdAt_init] at here
    cases here
  · rw [ptAt_none (pdAt_init kimg i)] at here
    cases here
  · rw [pdAt_init] at here
    cases here
  · rw [ptAt_none (pdAt_init kimg i)] at here
    cases here

theorem mapRun_entry {kimg : KernelImage} {tables : Tables} {trace : List MapCall}
    {s : PagingState} (run : Run (MapStep kimg) ⟨mmInitPagingStruct, tables⟩ trace s) :
    WalkInv kimg s.ps s.tables ∧ ∀ x, Entry kimg s trace x := by
  refine run.history (fun trace s => WalkInv kimg s.ps s.tables ∧ ∀ x, Entry kimg s trace x)
    (fun trace s call t before step => step.entry before.1 before.2)
    ⟨walkInv_init kimg tables, fun x => ?_⟩
  unfold Entry frameAt
  rw [ptAt_none (pdAt_init kimg _)]
  rfl

theorem Entry.va2pa {kimg : KernelImage} {s : PagingState} {trace : List MapCall} {x : Ptr}
    (entry : Entry kimg s trace x) :
    s.va2pa kimg x = if TableMapped x trace then
      (lastMapped x trace).getD 0 + BitVec.ofNat 32 (x.toNat % pageSize) else 0 := by
  unfold PagingState.va2pa
  rw [mmVa2pa_frameAt, entry]
  split_ifs <;> rfl

/-- `mm_va2pa` answers as documented, but for an address of an unmapped page that is not the first
    of its page and has another page mapped in its table. -/
theorem mmVa2pa_translates_iff {kimg : KernelImage} {tables : Tables} {trace : List MapCall}
    {s : PagingState} (run : Run (MapStep kimg) ⟨mmInitPagingStruct, tables⟩ trace s) :
    (∀ x, (s.va2pa kimg x = match lastMapped x trace with
        | none => 0
        | some paddr => paddr + BitVec.ofNat 32 (x.toNat % pageSize)) ↔
      ((lastMapped x trace).isSome ∨ x.toNat % pageSize = 0 ∨ ¬ TableMapped x trace)) ∧
    ∀ call t, MapStep kimg s call t → call.st ≠ 0 →
      call.st = -12 ∧ ∀ x, t.va2pa kimg x = s.va2pa kimg x := by
  obtain ⟨inv, entries⟩ := mapRun_entry run
  refine ⟨fun x => ?_, fun call t step failed => ?_⟩
  · rw [(entries x).va2pa]
    cases mapped : lastMapped x trace with
    | some paddr =>
      rw [if_pos (lastMapped_tableMapped mapped)]
      exact iff_of_true rfl (.inl rfl)
    | none =>
      by_cases table : TableMapped x trace
      · rw [if_pos table]
        simp only [Option.getD_none, Option.isSome_none, Bool.false_eq_true, table, not_true,
          false_or, or_false]
        rw [show (0 : Ptr) + BitVec.ofNat 32 (x.toNat % pageSize) =
          BitVec.ofNat 32 (x.toNat % pageSize) from BitVec.zero_add _]
        have small : x.toNat % pageSize < 4096 := Nat.mod_lt _ (by decide)
        constructor
        · intro zero
          have value := congrArg BitVec.toNat zero
          rw [BitVec.toNat_ofNat, Nat.mod_eq_of_lt (by omega)] at value
          exact value
        · intro zero
          rw [zero]
          rfl
      · rw [if_neg table]
        exact iff_of_true rfl (.inr (.inr table))
  · obtain ⟨-, frames⟩ := mmMapPageArch_spec inv step.fresh step.paddr step.arch
    rcases frames with ⟨st, same⟩ | ⟨done, -⟩
    · refine ⟨st, fun x => ?_⟩
      unfold PagingState.va2pa
      rw [mmVa2pa_frameAt, mmVa2pa_frameAt, same]
    · exact absurd done failed

/-- One page mapped in a new paging struct. -/
def onePageMapped : PagingState × MapCall × PagingState :=
  let start : PagingState := ⟨mmInitPagingStruct, ⟨fun _ => pdInit, fun _ => ptInit, []⟩⟩
  let mem : MapMem := ⟨some 0xe0001000, some 0xe0002000⟩
  let (st, ps, tables) :=
    mmMapPageArch ⟨0xc0000000⟩ mem 0x1000 0x5000 pageW start.ps start.tables
  (start, ⟨mem, 0x1000, 0x5000, pageW, st⟩, ⟨ps, tables⟩)

theorem onePageMapped_step :
    MapStep ⟨0xc0000000⟩ onePageMapped.1 onePageMapped.2.1 onePageMapped.2.2 where
  vaddr := by decide
  paddr := by decide
  some_ := by decide
  fresh := by
    refine ⟨fun b same => ?_, fun b same => ?_, fun b same => ?_⟩
    · cases same
      exact ⟨⟨by decide, by decide⟩, nofun⟩
    · cases same
      exact ⟨⟨by decide, by decide⟩, nofun⟩
    · cases same
      decide
  done := rfl

theorem mmVa2pa_translates_page :
    onePageMapped.2.2.va2pa ⟨0xc0000000⟩ 0x1004 = 0x5004 :=
  ((mmVa2pa_translates_iff (Run.single onePageMapped_step)).1 0x1004).mpr (.inl (by decide))

theorem mmVa2pa_of_unmapped :
    ∃ trace s, Run (MapStep ⟨0xc0000000⟩)
        ⟨mmInitPagingStruct, ⟨fun _ => pdInit, fun _ => ptInit, []⟩⟩ trace s ∧
      lastMapped 0x2004 trace = none ∧ s.va2pa ⟨0xc0000000⟩ 0x2004 = 4 :=
  ⟨_, _, Run.single onePageMapped_step, by decide, by decide⟩

end Dxgmx
