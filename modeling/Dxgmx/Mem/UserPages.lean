import Dxgmx.Mem.PagingEntries

open Library

namespace Dxgmx

theorem pagingstructTrackPage_new {page : Ptr} {pages : List Ptr}
    (sorted : pages.Pairwise (· < ·)) (new : page ∉ pages) :
    ∃ tracked, pagingstructTrackPage page pages = .ok tracked ∧ tracked.Pairwise (· < ·) ∧
      ∀ other, other ∈ tracked ↔ other = page ∨ other ∈ pages := by
  induction pages with
  | nil => exact ⟨[page], rfl, List.pairwise_singleton _ _, fun other => by simp⟩
  | cons vaddr rest ih =>
    obtain ⟨below, sorted⟩ := List.pairwise_cons.mp sorted
    rw [List.mem_cons, not_or] at new
    unfold pagingstructTrackPage
    rw [if_neg (Ne.symm new.1)]
    by_cases before : page < vaddr
    · rw [if_pos before]
      refine ⟨page :: vaddr :: rest, rfl, ?_, fun other => List.mem_cons⟩
      apply List.pairwise_cons.mpr
      refine ⟨fun other member => ?_, List.pairwise_cons.mpr ⟨below, sorted⟩⟩
      rcases List.mem_cons.mp member with rfl | member
      · exact before
      · exact BitVec.lt_trans before (below other member)
    · obtain ⟨tracked, done, ascending, members⟩ := ih sorted new.2
      rw [if_neg before, done]
      refine ⟨vaddr :: tracked, rfl, ?_, fun other => ?_⟩
      · apply List.pairwise_cons.mpr
        refine ⟨fun other member => ?_, ascending⟩
        rcases (members other).mp member with rfl | member
        · have different : vaddr.toNat ≠ other.toNat := fun same =>
            new.1 (BitVec.eq_of_toNat_eq same.symm)
          rw [BitVec.lt_def] at before ⊢
          omega
        · exact below other member
      · rw [List.mem_cons, members, List.mem_cons]
        tauto

theorem pagingstructTrackPage_twice {page : Ptr} {pages : List Ptr}
    (sorted : pages.Pairwise (· < ·)) (tracked : page ∈ pages) :
    pagingstructTrackPage page pages = .error .panic := by
  induction pages with
  | nil => cases tracked
  | cons vaddr rest ih =>
    obtain ⟨below, sorted⟩ := List.pairwise_cons.mp sorted
    unfold pagingstructTrackPage
    by_cases same : vaddr = page
    · rw [if_pos same]
    · have later : page ∈ rest := (List.mem_cons.mp tracked).resolve_left (Ne.symm same)
      have before : ¬ page < vaddr := by
        have less := below page later
        rw [BitVec.lt_def] at less ⊢
        omega
      rw [if_neg same, if_neg before, ih sorted later]

theorem pagingstructTrackPage_ok {page : Ptr} {pages tracked : List Ptr}
    (sorted : pages.Pairwise (· < ·)) (call : pagingstructTrackPage page pages = .ok tracked) :
    page ∉ pages ∧ tracked.Pairwise (· < ·) ∧
      ∀ other, other ∈ tracked ↔ other = page ∨ other ∈ pages := by
  have new : page ∉ pages := by
    intro twice
    rw [pagingstructTrackPage_twice sorted twice] at call
    cases call
  obtain ⟨tracked', done, ascending, members⟩ := pagingstructTrackPage_new sorted new
  cases done.symm.trans call
  exact ⟨new, ascending, members⟩

def SamePage (x y : Ptr) : Prop := x.toNat / pageSize = y.toNat / pageSize

instance decidableSamePage (x y : Ptr) : Decidable (SamePage x y) :=
  inferInstanceAs (Decidable (_ = _))

theorem samePage_iff (x vaddr : Ptr) :
    ((pdpteIdx x = pdpteIdx vaddr ∧ pdeIdx x = pdeIdx vaddr) ∧ pteIdx x = pteIdx vaddr) ↔
      SamePage x vaddr := by
  rw [pdpteIdx_pdeIdx_iff, page_iff]
  rfl

theorem SamePage.aligned_eq {x y : Ptr} (same : SamePage x y) (alignedX : PageAligned x)
    (alignedY : PageAligned y) : x = y := by
  unfold SamePage PageAligned pageSize at *
  apply BitVec.eq_of_toNat_eq
  omega

theorem pageBase_toNat (x : Ptr) : (pageBase x).toNat = x.toNat / pageSize * pageSize := by
  have bound := x.isLt
  unfold pageBase pageSize
  rw [BitVec.toNat_sub_of_le]
  · rw [BitVec.toNat_ofNat]
    omega
  · rw [BitVec.le_def, BitVec.toNat_ofNat]
    omega

theorem pageBase_aligned (x : Ptr) : PageAligned (pageBase x) := by
  unfold PageAligned
  rw [pageBase_toNat, Nat.mul_mod_left]

theorem samePage_pageBase (x : Ptr) : SamePage x (pageBase x) := by
  unfold SamePage
  rw [pageBase_toNat, Nat.mul_div_cancel _ (by decide)]

theorem pageBase_eq {x p : Ptr} (aligned : PageAligned p) : pageBase x = p ↔ SamePage x p := by
  constructor
  · rintro rfl
    exact samePage_pageBase x
  · intro same
    have symm : SamePage (pageBase x) p := (samePage_pageBase x).symm.trans same
    exact symm.aligned_eq (pageBase_aligned x) aligned

section

variable {kimg : KernelImage} {ps ps' : PagingStruct} {tables tables' : Tables}

/-- The entry of the page of an address, if it is present. -/
def presentEntry (kimg : KernelImage) (ps : PagingStruct) (tables : Tables) (x : Ptr) :
    Option PageTableEntry :=
  (pteAt kimg ps tables (pdpteIdx x) (pdeIdx x) (pteIdx x)).filter (·.present)

theorem presentEntry_track (pages : List Ptr) :
    presentEntry kimg { ps with allocatedPages := pages } tables = presentEntry kimg ps tables := by
  funext x
  unfold presentEntry
  rw [pteAt_track]

theorem presentEntry_some {x : Ptr} {pte : PageTableEntry} :
    presentEntry kimg ps tables x = some pte ↔
      pteAt kimg ps tables (pdpteIdx x) (pdeIdx x) (pteIdx x) = some pte ∧ pte.present = true :=
  Option.filter_eq_some_iff

theorem presentEntry_samePage {x y : Ptr} (same : SamePage x y) :
    presentEntry kimg ps tables x = presentEntry kimg ps tables y := by
  obtain ⟨⟨pdpte, pde⟩, pte⟩ := (samePage_iff x y).mpr same
  unfold presentEntry
  rw [pdpte, pde, pte]

theorem mmMapPageArch_present (inv : WalkInv kimg ps tables) {mem : MapMem}
    (fresh : mem.Fresh kimg tables) {vaddr paddr : Ptr} {flags : BitVec 16}
    (call : mmMapPageArch kimg mem vaddr paddr flags ps tables = (0, ps', tables')) (x : Ptr) :
    presentEntry kimg ps' tables' x =
      if SamePage x vaddr then some (pageEntry paddr flags) else presentEntry kimg ps tables x := by
  obtain ⟨-, ⟨failed, -⟩ | ⟨-, entries⟩⟩ := mmMapPageArch_entries inv fresh call
  · exact absurd failed (by decide)
  · have page := samePage_iff x vaddr
    unfold presentEntry
    rw [entries]
    by_cases table : pdpteIdx x = pdpteIdx vaddr ∧ pdeIdx x = pdeIdx vaddr
    · rw [if_pos table]
      by_cases entry : pteIdx x = pteIdx vaddr
      · rw [if_pos entry, if_pos (page.mp ⟨table, entry⟩)]
        rfl
      · rw [if_neg entry, if_neg (entry ∘ And.right ∘ page.mpr)]
        cases pteAt kimg ps tables (pdpteIdx x) (pdeIdx x) (pteIdx x) with
        | none => rfl
        | some pte => rfl
    · rw [if_neg table, if_neg (table ∘ And.left ∘ page.mpr)]

theorem setPdpte_self (i : Fin 4) : ps.setPdpte i (ps.data i) = ps := by
  unfold PagingStruct.setPdpte
  rw [Function.update_eq_self]

/-- How many tables the walk reaches. -/
def tableCount (kimg : KernelImage) (ps : PagingStruct) (tables : Tables) : Nat :=
  (Finset.univ.filter fun i => (pdAt kimg ps i).isSome).card +
    (Finset.univ.filter fun at_ : Fin 4 × Fin 512 =>
      (ptAt kimg ps tables at_.1 at_.2).isSome).card

theorem tableCount_track (pages : List Ptr) :
    tableCount kimg { ps with allocatedPages := pages } tables = tableCount kimg ps tables := by
  unfold tableCount
  rw [pdAt_track, ptAt_track]

theorem tableCount_le : tableCount kimg ps tables ≤ 2052 := by
  have dirs := Finset.card_filter_le (Finset.univ : Finset (Fin 4)) fun i => (pdAt kimg ps i).isSome
  have pts := Finset.card_filter_le (Finset.univ : Finset (Fin 4 × Fin 512))
    fun at_ => (ptAt kimg ps tables at_.1 at_.2).isSome
  rw [Finset.card_univ, Fintype.card_fin] at dirs
  rw [Finset.card_univ, Fintype.card_prod, Fintype.card_fin, Fintype.card_fin] at pts
  exact Nat.add_le_add dirs pts

theorem ptAt_isSome (i : Fin 4) (j k : Fin 512) :
    (ptAt kimg ps tables i j).isSome = (pteAt kimg ps tables i j k).isSome := by
  unfold pteAt
  rw [Option.isSome_map]

theorem tableCount_congr (dirs : ∀ i, (pdAt kimg ps' i).isSome = (pdAt kimg ps i).isSome)
    (pts : ∀ i j, (ptAt kimg ps' tables' i j).isSome = (ptAt kimg ps tables i j).isSome) :
    tableCount kimg ps' tables' = tableCount kimg ps tables := by
  unfold tableCount
  simp only [dirs, pts]

/-- An entry with the flags of `mm_set_pte_and_pde_flags`. -/
def PageTableEntry.withFlags (pte : PageTableEntry) (flags : BitVec 16) : PageTableEntry :=
  { pte with
    writable := flags &&& pageW ≠ 0
    execDisable := flags &&& pageX = 0
    userAccess := flags &&& pageUser ≠ 0 }

/-- A page directory entry and a page table entry are written, and the pointer table is left. -/
theorem setEntries_spec (inv : WalkInv kimg ps tables) {i : Fin 4} {j : Fin 512} {pd pt : Ptr}
    (table : ptAt kimg ps tables i j = some pt) {pde : PageDirectoryEntry}
    (base : pde.tableBase = (tables.pds pd j).tableBase) (k : Fin 512) (pte : PageTableEntry) :
    WalkInv kimg ps ((tables.setPde pd j pde).setPte pt k pte) ∧
      ∀ i' j' k', pteAt kimg ps ((tables.setPde pd j pde).setPte pt k pte) i' j' k' =
        if (i' = i ∧ j' = j) ∧ k' = k then some pte else pteAt kimg ps tables i' j' k' := by
  have same : ps.setPdpte i { ps.data i with present := (ps.data i).present } = ps := setPdpte_self i
  have written := setEntry_spec inv table (ps.data i).present pde k pte base
  rwa [same] at written

/-- The two ways that `mm_set_page_flags` returns. -/
theorem mmSetPageFlagsArch_returns {vaddr : Ptr} (aligned : PageAligned vaddr) (flags : BitVec 16) :
    (mmSetPageFlagsArch kimg vaddr flags ps tables = .ok (-22, tables) ∧
      ∀ pte, pteAt kimg ps tables (pdpteIdx vaddr) (pdeIdx vaddr) (pteIdx vaddr) = some pte →
        pteFramePaddr pte = 0) ∨
    ∃ pd pt, pdAt kimg ps (pdpteIdx vaddr) = some pd ∧
      ptAt kimg ps tables (pdpteIdx vaddr) (pdeIdx vaddr) = some pt ∧
      pteFramePaddr (tables.pts pt (pteIdx vaddr)) ≠ 0 ∧
      mmSetPageFlagsArch kimg vaddr flags ps tables = .ok (0,
        (tables.setPde pd (pdeIdx vaddr) (mmSetPteAndPdeFlags (tables.pts pt (pteIdx vaddr))
          (tables.pds pd (pdeIdx vaddr)) flags).2).setPte pt (pteIdx vaddr)
            ((tables.pts pt (pteIdx vaddr)).withFlags flags)) := by
  have page : vaddr.toNat % pageSize = 0 := aligned
  unfold mmSetPageFlagsArch
  rw [assert, if_pos page, Exec.ok_bind]
  cases dir : pdAt kimg ps (pdpteIdx vaddr) with
  | none =>
    refine .inl ⟨?_, fun pte here => ?_⟩
    · rw [show tableVaddr kimg (ps.data (pdpteIdx vaddr)).pdBase = none from dir]
      rfl
    · obtain ⟨pt, table, -⟩ := pteAt_table here
      rw [ptAt_none dir] at table
      cases table
  | some pd =>
    rw [show tableVaddr kimg (ps.data (pdpteIdx vaddr)).pdBase = some pd from dir]
    dsimp only
    rw [← ptAt_some dir]
    cases table : ptAt kimg ps tables (pdpteIdx vaddr) (pdeIdx vaddr) with
    | none =>
      refine .inl ⟨rfl, fun pte here => ?_⟩
      obtain ⟨pt, there, -⟩ := pteAt_table here
      cases table.symm.trans there
    | some pt =>
      by_cases zero : pteFramePaddr (tables.pts pt (pteIdx vaddr)) = 0
      · refine .inl ⟨if_pos zero, fun pte here => ?_⟩
        cases (pteAt_some table (pteIdx vaddr)).symm.trans here
        exact zero
      · exact .inr ⟨pd, pt, rfl, rfl, zero, if_neg zero⟩

/-- On a page that is mapped, `mm_set_page_flags` sets the flags of its entry. -/
theorem mmSetPageFlagsArch_spec (inv : WalkInv kimg ps tables) (granted : Granted kimg ps tables)
    {vaddr : Ptr} (aligned : PageAligned vaddr) {pte : PageTableEntry}
    (here : presentEntry kimg ps tables vaddr = some pte) (frame : pteFramePaddr pte ≠ 0)
    (flags : BitVec 16) :
    ∃ tables', mmSetPageFlagsArch kimg vaddr flags ps tables = .ok (0, tables') ∧
      WalkInv kimg ps tables' ∧ Granted kimg ps tables' ∧ tables'.blocks = tables.blocks ∧
      tableCount kimg ps tables' = tableCount kimg ps tables ∧ ∀ x, presentEntry kimg ps tables' x =
          if SamePage x vaddr then some (pte.withFlags flags) else presentEntry kimg ps tables x := by
  obtain ⟨entry, present⟩ := presentEntry_some.mp here
  obtain ⟨-, unmapped⟩ | ⟨pd, pt, dir, table, -, call⟩ :=
    @mmSetPageFlagsArch_returns kimg ps tables vaddr aligned flags
  · exact absurd (unmapped pte entry) frame
  cases (pteAt_some table (pteIdx vaddr)).symm.trans entry
  obtain ⟨_, above, up, -⟩ := granted.pde _ _ _ _ entry present
  cases (pdeAt_some dir (pdeIdx vaddr)).symm.trans above
  have up' := granted.pdpte _ _ _ _ entry present
  generalize flagged : (mmSetPteAndPdeFlags (tables.pts pt (pteIdx vaddr))
    (tables.pds pd (pdeIdx vaddr)) flags).2 = pde at call
  have base : pde.tableBase = (tables.pds pd (pdeIdx vaddr)).tableBase := by
    rw [← flagged]
    rfl
  have present' : pde.present = true := by
    rw [← flagged]
    exact up
  have writable' : pde.writable = ((tables.pds pd (pdeIdx vaddr)).writable ||
      decide (flags &&& pageW ≠ 0)) := by
    rw [← flagged]
    rfl
  obtain ⟨walk, entries⟩ := setEntries_spec inv table base (pteIdx vaddr)
    ((tables.pts pt (pteIdx vaddr)).withFlags flags)
  generalize result : (tables.setPde pd (pdeIdx vaddr) pde).setPte pt (pteIdx vaddr)
    ((tables.pts pt (pteIdx vaddr)).withFlags flags) = tables' at call walk entries
  have pds : tables'.pds = (tables.setPde pd (pdeIdx vaddr) pde).pds := by
    rw [← result]
    rfl
  have blocks : tables'.blocks = tables.blocks := by
    rw [← result]
    rfl
  refine ⟨tables', call, walk, ?_, blocks, ?_, fun x => ?_⟩
  · have promotes : Promotes kimg ps tables ps tables' :=
      setPde_promotes pd (pdeIdx vaddr) pde (fun _ => rfl) (fun _ old => old) (fun _ => present')
        (fun old => by rw [writable', old, Bool.true_or]) pds
    refine granted.step promotes (pdpteIdx vaddr) (pdeIdx vaddr) up' (fun i j k pte there _ => ?_)
    rw [entries] at there
    split at there
    · rename_i same
      cases there
      refine .inr ⟨same.1, pde, ?_, present', fun flag => ?_⟩
      · rw [pdeAt_some dir, pds, setPde_pds, if_pos ⟨rfl, rfl⟩]
      · rw [writable']
        exact Bool.or_eq_true_iff.mpr (.inr flag)
    · exact .inl there
  · apply tableCount_congr (fun _ => rfl)
    intro i j
    rw [ptAt_isSome i j (pteIdx vaddr), ptAt_isSome i j (pteIdx vaddr), entries]
    split
    · rename_i same
      rw [same.1.1, same.1.2, entry]
      rfl
    · rfl
  · unfold presentEntry
    rw [entries]
    simp only [samePage_iff]
    split
    · exact Option.filter_some_pos present
    · rfl

theorem card_filter_insert {α : Type} [Fintype α] [DecidableEq α] {p q : α → Bool} (new : α)
    (missing : p new = false) (grown : ∀ x, q x = (decide (x = new) || p x)) :
    (Finset.univ.filter fun x => q x = true).card =
      (Finset.univ.filter fun x => p x = true).card + 1 := by
  have inserted : (Finset.univ.filter fun x => q x = true) =
      insert new (Finset.univ.filter fun x => p x = true) := by
    ext x
    simp [grown]
  rw [inserted, Finset.card_insert_of_notMem (by simp [missing])]

theorem mapPageDirectory_count (inv : WalkInv kimg ps tables) {mem : MapMem}
    (fresh : mem.Fresh kimg tables) {idx : Fin 4} {pd : Ptr}
    (call : mapPageDirectory kimg mem idx ps tables = some (pd, ps', tables')) :
    tables'.blocks.length + tableCount kimg ps tables =
      tables.blocks.length + tableCount kimg ps' tables' := by
  obtain ⟨-, -, -, pts, -⟩ := mapPageDirectory_spec inv fresh call
  obtain ⟨-, rfl, rfl⟩ | ⟨missing, new, rfl, rfl⟩ := mapPageDirectory_made call
  · rfl
  · have pds := card_filter_insert (p := fun i => (pdAt kimg ps i).isSome)
      (q := fun i => (pdAt kimg (ps.setPdpte idx
        { ps.data idx with pdBase := baseOf (mmKva2pa kimg pd) }) i).isSome) idx
      (Option.isSome_eq_false_iff.mpr (Option.isNone_iff_eq_none.mpr missing)) (fun i => by
        rw [pdAt_setPdpte, (fresh.pdMappable pd new).1.tableVaddr]
        by_cases same : i = idx
        · simp [same]
        · simp [same])
    unfold tableCount
    simp only [pts]
    rw [pds]
    show tables.blocks.length + 1 + _ = _
    omega

theorem mapPageTable_count (inv : WalkInv kimg ps tables) {mem : MapMem}
    (fresh : ∀ b, mem.pt = some b → Mappable kimg b ∧ b ∉ tables.blocks) {i : Fin 4} {j : Fin 512}
    {pd pt : Ptr} (dir : pdAt kimg ps i = some pd)
    (call : mapPageTable kimg mem pd j tables = some (pt, tables')) :
    tables'.blocks.length + tableCount kimg ps tables =
      tables.blocks.length + tableCount kimg ps tables' := by
  obtain ⟨-, here, -, others⟩ := mapPageTable_spec inv fresh dir call
  have entry : ptAt kimg ps tables i j = tableVaddr kimg (tables.pds pd j).tableBase :=
    ptAt_some dir j
  obtain ⟨-, rfl⟩ | ⟨missing, -, rfl⟩ := mapPageTable_made call
  · rfl
  · rw [missing] at entry
    have grown := card_filter_insert
      (p := fun at_ : Fin 4 × Fin 512 => (ptAt kimg ps tables at_.1 at_.2).isSome)
      (q := fun at_ : Fin 4 × Fin 512 => (ptAt kimg ps _ at_.1 at_.2).isSome) (i, j)
      (Option.isSome_eq_false_iff.mpr (Option.isNone_iff_eq_none.mpr entry)) (fun at_ => by
        obtain ⟨i', j'⟩ := at_
        by_cases same : i' = i ∧ j' = j
        · rw [same.1, same.2, here]
          simp
        · dsimp only
          rw [ptAt_isSome i' j' 0, others i' j' (by tauto) 0, ← ptAt_isSome]
          simp [same])
    unfold tableCount
    rw [grown]
    show tables.blocks.length + 1 + _ = _
    omega

/-- Every block that `mm_map_page_arch` takes becomes a table of the walk. -/
theorem mmMapPageArch_count (inv : WalkInv kimg ps tables) {mem : MapMem}
    (fresh : mem.Fresh kimg tables) {vaddr paddr : Ptr} {flags : BitVec 16}
    (call : mmMapPageArch kimg mem vaddr paddr flags ps tables = (0, ps', tables')) :
    tables'.blocks.length + tableCount kimg ps tables =
      tables.blocks.length + tableCount kimg ps' tables' := by
  cases mmMapPageArch_returns call with
  | done pd ps1 tables1 pt tables2 pde made madePt flagged =>
    have first := mapPageDirectory_count inv fresh made
    obtain ⟨inv1, dir, -, -, unused⟩ := mapPageDirectory_spec inv fresh made
    have fresh1 : ∀ b, mem.pt = some b → Mappable kimg b ∧ b ∉ tables1.blocks :=
      fun b new => ⟨(fresh.ptMappable b new).1, unused b new⟩
    have second := mapPageTable_count inv1 fresh1 dir madePt
    obtain ⟨inv2, table, -⟩ := mapPageTable_spec inv1 fresh1 dir madePt
    have base : pde.tableBase = (tables2.pds pd (pdeIdx vaddr)).tableBase := by
      rw [flagged]
      rfl
    obtain ⟨-, stored⟩ := setEntry_spec inv2 table true pde (pteIdx vaddr)
      (pageEntry paddr flags) base
    have third : tableCount kimg _ _ = tableCount kimg ps1 tables2 := tableCount_congr
      (fun i => congrArg Option.isSome (pdAt_present (pdpteIdx vaddr) true i)) (fun i j => by
        rw [ptAt_isSome i j (pteIdx vaddr), stored, ptAt_isSome i j (pteIdx vaddr)]
        split
        · rename_i same
          rw [same.1.1, same.1.2, pteAt_some table]
          rfl
        · rfl)
    rw [third]
    show tables2.blocks.length + _ = _
    omega

/-- The tracked pages are mapped, in ascending order. -/
structure UserSpace (kimg : KernelImage) (ps : PagingStruct) (tables : Tables) : Prop where
  walk : WalkInv kimg ps tables
  granted : Granted kimg ps tables
  sorted : ps.allocatedPages.Pairwise (· < ·)
  tracked : ∀ p ∈ ps.allocatedPages, PageAligned p ∧
    ∃ pte, presentEntry kimg ps tables p = some pte ∧ pteFramePaddr pte ≠ 0

theorem pteFramePaddr_pageEntry {paddr : Ptr} (aligned : PageAligned paddr) (flags : BitVec 16) :
    pteFramePaddr (pageEntry paddr flags) = paddr := paddrOf_baseOf aligned

theorem mapPageDirectory_pages {mem : MapMem} {idx : Fin 4} {pd : Ptr}
    (made : mapPageDirectory kimg mem idx ps tables = some (pd, ps', tables')) :
    ps'.allocatedPages = ps.allocatedPages := by
  obtain ⟨-, rfl, -⟩ | ⟨-, -, rfl, -⟩ := mapPageDirectory_made made
  · rfl
  · rfl

theorem mmMapPageArch_pages {mem : MapMem} {vaddr paddr : Ptr} {flags : BitVec 16} {st : Int}
    (call : mmMapPageArch kimg mem vaddr paddr flags ps tables = (st, ps', tables')) :
    ps'.allocatedPages = ps.allocatedPages := by
  cases mmMapPageArch_returns call with
  | noPd => rfl
  | noPt pd ps1 tables1 made => exact mapPageDirectory_pages made
  | done pd ps1 tables1 pt tables2 pde made =>
    have same := mapPageDirectory_pages made
    exact same

theorem mmMapPageArch_done {mem : MapMem} (dirs : mem.pd ≠ none) (pts : mem.pt ≠ none)
    (vaddr paddr : Ptr) (flags : BitVec 16) (ps : PagingStruct) (tables : Tables) :
    ∃ ps' tables', mmMapPageArch kimg mem vaddr paddr flags ps tables = (0, ps', tables') := by
  rcases call : mmMapPageArch kimg mem vaddr paddr flags ps tables with ⟨st, ps', tables'⟩
  cases mmMapPageArch_returns call with
  | noPd stuck => exact absurd (mapPageDirectory_stuck stuck).2 dirs
  | noPt pd ps1 tables1 made stuck => exact absurd (mapPageTable_stuck stuck).2 pts
  | done => exact ⟨_, _, rfl⟩

theorem mmNewUserPage_mapped {free : Ptr → Falloc → Exec Falloc} {mem : MapMem} {vaddr : Ptr}
    (aligned : PageAligned vaddr) {flags : BitVec 16} {falloc : Falloc}
    (frame : (fallocOneUser falloc).1 ≠ 0)
    (mapped : mmMapPageArch kimg mem vaddr (fallocOneUser falloc).1 (flags ||| pageUser) ps tables =
      (0, ps', tables')) :
    mmNewUserPage kimg free mem true vaddr flags ps tables falloc =
      (pagingstructTrackPage vaddr ps.allocatedPages).bind fun pages =>
        .ok (0, { ps' with allocatedPages := pages }, tables', (fallocOneUser falloc).2) := by
  have pages := mmMapPageArch_pages mapped
  unfold mmNewUserPage
  rw [← pages]
  simp only [assert, if_pos (show vaddr.toNat % pageSize = 0 from aligned), Exec.ok_bind, if_neg frame,
    mapped]
  rfl

theorem mmNewUserPage_done (space : UserSpace kimg ps tables)
    (free : Ptr → Falloc → Exec Falloc) {mem : MapMem} (dirs : mem.pd ≠ none) (pts : mem.pt ≠ none)
    {vaddr : Ptr} (aligned : PageAligned vaddr) (new : vaddr ∉ ps.allocatedPages)
    (flags : BitVec 16) {falloc : Falloc} (frame : (fallocOneUser falloc).1 ≠ 0) :
    ∃ ps' tables', mmNewUserPage kimg free mem true vaddr flags ps tables falloc =
      .ok (0, ps', tables', (fallocOneUser falloc).2) := by
  obtain ⟨ps', tables', mapped⟩ := mmMapPageArch_done dirs pts vaddr (fallocOneUser falloc).1
    (flags ||| pageUser) ps tables
  obtain ⟨pages, done, -⟩ := pagingstructTrackPage_new space.sorted new
  rw [mmNewUserPage_mapped aligned frame mapped, done]
  exact ⟨_, _, rfl⟩

theorem flags_user (flags : BitVec 16) : (flags ||| pageUser) &&& pageUser ≠ 0 := by
  intro zero
  have bit := congrArg (fun word => BitVec.getLsbD word 3) zero
  simp [pageUser] at bit

/-- What a successful `mm_new_user_page` does. -/
structure PageAdded (kimg : KernelImage) (vaddr : Ptr) (flags : BitVec 16) (ps : PagingStruct)
    (tables : Tables) (falloc : Falloc) (ps' : PagingStruct) (tables' : Tables) (falloc' : Falloc) :
    Prop where
  took : fallocOneUser falloc = ((fallocOneUser falloc).1, falloc')
  frame : (fallocOneUser falloc).1 ≠ 0
  new : vaddr ∉ ps.allocatedPages
  space : UserSpace kimg ps' tables'
  pages : ∀ p, p ∈ ps'.allocatedPages ↔ p = vaddr ∨ p ∈ ps.allocatedPages
  present : ∀ x, presentEntry kimg ps' tables' x =
    if SamePage x vaddr then some (pageEntry (fallocOneUser falloc).1 (flags ||| pageUser))
    else presentEntry kimg ps tables x
  count : tables'.blocks.length + tableCount kimg ps tables =
    tables.blocks.length + tableCount kimg ps' tables'
  user : ∃ pde, pdeAt kimg ps' tables' (pdpteIdx vaddr) (pdeIdx vaddr) = some pde ∧
    pde.userAccess = true

theorem mmNewUserPage_added (space : UserSpace kimg ps tables)
    {free : Ptr → Falloc → Exec Falloc} {mem : MapMem} (fresh : mem.Fresh kimg tables)
    {track : Bool} {vaddr : Ptr} {flags : BitVec 16} {falloc falloc' : Falloc}
    (call : mmNewUserPage kimg free mem track vaddr flags ps tables falloc =
      .ok (0, ps', tables', falloc')) :
    PageAdded kimg vaddr flags ps tables falloc ps' tables' falloc' := by
  have step : UserPageStep kimg free ⟨ps, tables, falloc⟩
      ⟨mem, track, vaddr, flags, (fallocOneUser falloc).1⟩ ⟨ps', tables', falloc'⟩ := ⟨rfl, call⟩
  obtain ⟨frame, aligned, -⟩ := step.falloc
  dsimp only at frame aligned
  obtain ⟨page, ⟨-, error, -⟩ | ⟨-, error, -⟩ | ⟨-, -, kept, ps1, pages, mapped, tracked, rfl⟩⟩ :=
    mmNewUserPage_returns call
  · exact absurd error (by decide)
  · exact absurd error (by decide)
  · obtain ⟨walk, -⟩ := mmMapPageArch_entries space.walk fresh mapped
    rw [mmMapPageArch_pages mapped] at tracked
    obtain ⟨new, sorted, members⟩ := pagingstructTrackPage_ok space.sorted tracked
    have present := mmMapPageArch_present space.walk fresh mapped
    have granted := mmMapPageArch_granted space.walk space.granted fresh mapped
    have count := mmMapPageArch_count space.walk fresh mapped
    obtain ⟨-, pde, above, -, user, -⟩ := (mmMapPageArch_promotes space.walk fresh mapped).2 rfl
    rw [decide_eq_true (flags_user flags)] at user
    have entries : presentEntry kimg { ps1 with allocatedPages := pages } tables' =
        presentEntry kimg ps1 tables' := presentEntry_track pages
    have counted : tableCount kimg { ps1 with allocatedPages := pages } tables' =
        tableCount kimg ps1 tables' := tableCount_track pages
    have dirs : pdeAt kimg { ps1 with allocatedPages := pages } tables' = pdeAt kimg ps1 tables' :=
      pdeAt_track pages
    rw [← entries] at present
    rw [← counted] at count
    rw [← dirs] at above
    refine ⟨by rw [kept], frame, new, ⟨walk.track pages, granted.track pages, sorted,
      fun p member => ?_⟩, members, present, count, pde, above, user⟩
    rcases (members p).mp member with rfl | member
    · refine ⟨page, pageEntry (fallocOneUser falloc).1 (flags ||| pageUser), ?_, ?_⟩
      · exact (present p).trans (if_pos rfl)
      · rw [pteFramePaddr_pageEntry aligned]
        exact frame
    · obtain ⟨alignedP, pte, here, some_⟩ := space.tracked p member
      refine ⟨alignedP, pte, (present p).trans ?_, some_⟩
      rw [if_neg, here]
      intro same
      exact new (same.aligned_eq alignedP page ▸ member)

end

end Dxgmx
