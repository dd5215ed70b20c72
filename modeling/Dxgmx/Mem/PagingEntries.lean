import Mathlib.Data.Fintype.Card
import Mathlib.Data.Fintype.Prod
import Dxgmx.Mem.PagingTeardown

open Library

namespace Dxgmx

section

variable {kimg : KernelImage} {ps ps' ps'' : PagingStruct} {tables tables' tables'' : Tables}

def pdeAt (kimg : KernelImage) (ps : PagingStruct) (tables : Tables) (i : Fin 4) (j : Fin 512) :
    Option PageDirectoryEntry :=
  (pdAt kimg ps i).map fun pd => tables.pds pd j

theorem pdeAt_track (pages : List Ptr) :
    pdeAt kimg { ps with allocatedPages := pages } tables = pdeAt kimg ps tables := by
  funext i j
  unfold pdeAt
  rw [pdAt_track]

/-- The entries above the pages allow at least what they allowed. -/
structure Promotes (kimg : KernelImage) (ps : PagingStruct) (tables : Tables) (ps' : PagingStruct)
    (tables' : Tables) : Prop where
  pdpte : ∀ i, (ps.data i).present = true → (ps'.data i).present = true
  pde : ∀ i j pde, pdeAt kimg ps tables i j = some pde →
    ∃ pde', pdeAt kimg ps' tables' i j = some pde' ∧
      (pde.present = true → pde'.present = true) ∧ (pde.writable = true → pde'.writable = true)

theorem Promotes.refl (kimg : KernelImage) (ps : PagingStruct) (tables : Tables) :
    Promotes kimg ps tables ps tables :=
  ⟨fun _ here => here, fun _ _ pde here => ⟨pde, here, id, id⟩⟩

theorem Promotes.trans (first : Promotes kimg ps tables ps' tables')
    (second : Promotes kimg ps' tables' ps'' tables'') :
    Promotes kimg ps tables ps'' tables'' := by
  refine ⟨fun i here => second.pdpte i (first.pdpte i here), fun i j pde here => ?_⟩
  obtain ⟨pde', there, present', writable'⟩ := first.pde i j pde here
  obtain ⟨pde'', last, present'', writable''⟩ := second.pde i j pde' there
  exact ⟨pde'', last, present'' ∘ present', writable'' ∘ writable'⟩

theorem pdeAt_some {i : Fin 4} {pd : Ptr} (here : pdAt kimg ps i = some pd) (j : Fin 512) :
    pdeAt kimg ps tables i j = some (tables.pds pd j) := by
  unfold pdeAt
  rw [here]
  rfl

theorem pdeAt_dir {i : Fin 4} {j : Fin 512} {pde : PageDirectoryEntry}
    (here : pdeAt kimg ps tables i j = some pde) :
    ∃ pd, pdAt kimg ps i = some pd ∧ tables.pds pd j = pde := Option.map_eq_some_iff.mp here

theorem ptAt_dir {i : Fin 4} {j : Fin 512} {pt : Ptr} (here : ptAt kimg ps tables i j = some pt) :
    ∃ pd, pdAt kimg ps i = some pd := by
  cases dir : pdAt kimg ps i with
  | none =>
    rw [ptAt_none dir] at here
    cases here
  | some pd => exact ⟨pd, rfl⟩

theorem pteAt_table {i : Fin 4} {j k : Fin 512} {pte : PageTableEntry}
    (here : pteAt kimg ps tables i j k = some pte) :
    ∃ pt, ptAt kimg ps tables i j = some pt ∧ tables.pts pt k = pte :=
  Option.map_eq_some_iff.mp here

theorem pteAt_some {i : Fin 4} {j : Fin 512} {pt : Ptr}
    (here : ptAt kimg ps tables i j = some pt) (k : Fin 512) :
    pteAt kimg ps tables i j k = some (tables.pts pt k) := by
  unfold pteAt
  rw [here]
  rfl

theorem setPdpte_data (idx : Fin 4) (pdpte : PageDirectoryPointerTableEntry) (i : Fin 4) :
    (ps.setPdpte idx pdpte).data i = if i = idx then pdpte else ps.data i := by
  unfold PagingStruct.setPdpte
  dsimp only
  by_cases same : i = idx
  · rw [same, Function.update_self, if_pos rfl]
  · rw [Function.update_of_ne same, if_neg same]

theorem mapPageDirectory_promotes (inv : WalkInv kimg ps tables) {mem : MapMem}
    (fresh : mem.Fresh kimg tables) {idx : Fin 4} {pd : Ptr}
    (call : mapPageDirectory kimg mem idx ps tables = some (pd, ps', tables')) :
    Promotes kimg ps tables ps' tables' := by
  obtain ⟨-, rfl, rfl⟩ | ⟨missing, new, rfl, rfl⟩ := mapPageDirectory_made call
  · exact Promotes.refl kimg ps tables
  · refine ⟨fun i present => ?_, fun i j pde here => ?_⟩
    · rw [setPdpte_data]
      split
      · rename_i same
        rw [← same]
        exact present
      · exact present
    · obtain ⟨other, dir, rfl⟩ := pdeAt_dir here
      have elsewhere : i ≠ idx := by
        rintro rfl
        exact absurd (dir.symm.trans missing) (Option.some_ne_none other)
      have different : other ≠ pd := fun eq =>
        (fresh.pdMappable pd new).2 (eq ▸ inv.pdBlock i other dir)
      have dir' : pdAt kimg (ps.setPdpte idx
          { ps.data idx with pdBase := baseOf (mmKva2pa kimg pd) }) i = some other := by
        rw [pdAt_setPdpte, if_neg elsewhere, dir]
      refine ⟨tables.pds other j, ?_, id, id⟩
      rw [pdeAt_some dir', addPd_pds, if_neg different]

theorem setPde_promotes (pd : Ptr) (j : Fin 512) (pde : PageDirectoryEntry)
    (pds : ∀ i, pdAt kimg ps' i = pdAt kimg ps i)
    (pdpte : ∀ i, (ps.data i).present = true → (ps'.data i).present = true)
    (present : (tables.pds pd j).present = true → pde.present = true)
    (writable : (tables.pds pd j).writable = true → pde.writable = true)
    (stored : tables'.pds = (tables.setPde pd j pde).pds) : Promotes kimg ps tables ps' tables' := by
  refine ⟨pdpte, fun i j' old here => ?_⟩
  obtain ⟨other, dir, rfl⟩ := pdeAt_dir here
  rw [pdeAt_some ((pds i).trans dir), stored, setPde_pds]
  by_cases same : other = pd ∧ j' = j
  · rw [if_pos same, same.1, same.2]
    exact ⟨pde, rfl, present, writable⟩
  · rw [if_neg same]
    exact ⟨_, rfl, id, id⟩

theorem mapPageTable_promotes {mem : MapMem} {j : Fin 512} {pd pt : Ptr}
    (call : mapPageTable kimg mem pd j tables = some (pt, tables')) :
    Promotes kimg ps tables ps tables' := by
  obtain ⟨-, rfl⟩ | ⟨-, -, rfl⟩ := mapPageTable_made call
  · exact Promotes.refl kimg ps tables
  · exact setPde_promotes pd j { tables.pds pd j with tableBase := baseOf (mmKva2pa kimg pt) }
      (fun _ => rfl) (fun _ here => here) id id rfl

theorem mmMapPageArch_promotes (inv : WalkInv kimg ps tables) {mem : MapMem}
    (fresh : mem.Fresh kimg tables) {vaddr paddr : Ptr} {flags : BitVec 16} {st : Int}
    (call : mmMapPageArch kimg mem vaddr paddr flags ps tables = (st, ps', tables')) :
    Promotes kimg ps tables ps' tables' ∧
      (st = 0 → (ps'.data (pdpteIdx vaddr)).present = true ∧
        ∃ pde, pdeAt kimg ps' tables' (pdpteIdx vaddr) (pdeIdx vaddr) = some pde ∧
          pde.present = true ∧ pde.userAccess = decide (flags &&& pageUser ≠ 0) ∧
          (flags &&& pageW ≠ 0 → pde.writable = true)) := by
  cases mmMapPageArch_returns call with
  | noPd => exact ⟨Promotes.refl kimg ps tables, fun done => absurd done (by decide)⟩
  | noPt pd ps1 tables1 made =>
    exact ⟨mapPageDirectory_promotes inv fresh made, fun done => absurd done (by decide)⟩
  | done pd ps1 tables1 pt tables2 pde made madePt flagged =>
    have first := mapPageDirectory_promotes inv fresh made
    have second : Promotes kimg ps1 tables1 ps1 tables2 := mapPageTable_promotes madePt
    obtain ⟨-, dir, -⟩ := mapPageDirectory_spec inv fresh made
    have present : pde.present = true := by
      rw [flagged]
      rfl
    have user : pde.userAccess = decide (flags &&& pageUser ≠ 0) := by
      rw [flagged]
      rfl
    have writable : pde.writable = ((tables2.pds pd (pdeIdx vaddr)).writable ||
        decide (flags &&& pageW ≠ 0)) := by
      rw [flagged]
      rfl
    refine ⟨(first.trans second).trans ?_, fun _ => ⟨?_, pde, ?_, present, user, fun flag => ?_⟩⟩
    · refine setPde_promotes pd (pdeIdx vaddr) pde (fun i => pdAt_present _ _ i)
        (fun i here => ?_) (fun _ => present) (fun old => ?_) rfl
      · rw [setPdpte_data]
        split
        · rfl
        · exact here
      · rw [writable, old, Bool.true_or]
    · rw [setPdpte_data, if_pos rfl]
    · rw [pdeAt_some ((pdAt_present _ _ _).trans dir)]
      show some ((tables2.setPde pd (pdeIdx vaddr) pde).pds pd (pdeIdx vaddr)) = some pde
      rw [setPde_pds, if_pos ⟨rfl, rfl⟩]
    · rw [writable, decide_eq_true flag, Bool.or_true]

/-- What the entry of a page allows, the entries above it allow. -/
structure Granted (kimg : KernelImage) (ps : PagingStruct) (tables : Tables) : Prop where
  pdpte : ∀ i j k pte, pteAt kimg ps tables i j k = some pte → pte.present = true →
    (ps.data i).present = true
  pde : ∀ i j k pte, pteAt kimg ps tables i j k = some pte → pte.present = true →
    ∃ pde, pdeAt kimg ps tables i j = some pde ∧ pde.present = true ∧
      (pte.writable = true → pde.writable = true)

theorem Granted.track (granted : Granted kimg ps tables) (pages : List Ptr) :
    Granted kimg { ps with allocatedPages := pages } tables := by
  constructor
  · rw [pteAt_track]
    exact granted.pdpte
  · rw [pteAt_track, pdeAt_track]
    exact granted.pde

/-- Entries that were there before, with no more access, and one that the entries above it allow. -/
theorem Granted.step (granted : Granted kimg ps tables)
    (promotes : Promotes kimg ps tables ps' tables') (i : Fin 4) (j : Fin 512)
    (pdpte : (ps'.data i).present = true)
    (entries : ∀ i' j' k' pte, pteAt kimg ps' tables' i' j' k' = some pte → pte.present = true →
      pteAt kimg ps tables i' j' k' = some pte ∨ ((i' = i ∧ j' = j) ∧
        ∃ pde, pdeAt kimg ps' tables' i j = some pde ∧ pde.present = true ∧
          (pte.writable = true → pde.writable = true))) : Granted kimg ps' tables' := by
  constructor
  · intro i' j' k' pte here present
    rcases entries i' j' k' pte here present with old | ⟨⟨rfl, rfl⟩, -⟩
    · exact promotes.pdpte i' (granted.pdpte i' j' k' pte old present)
    · exact pdpte
  · intro i' j' k' pte here present
    rcases entries i' j' k' pte here present with old | ⟨⟨rfl, rfl⟩, allowed⟩
    · obtain ⟨pde, above, up, writable⟩ := granted.pde i' j' k' pte old present
      obtain ⟨pde', above', up', writable'⟩ := promotes.pde i' j' pde above
      exact ⟨pde', above', up' up, writable' ∘ writable⟩
    · exact allowed

theorem mmMapPageArch_granted (inv : WalkInv kimg ps tables) (granted : Granted kimg ps tables)
    {mem : MapMem} (fresh : mem.Fresh kimg tables) {vaddr paddr : Ptr} {flags : BitVec 16}
    (call : mmMapPageArch kimg mem vaddr paddr flags ps tables = (0, ps', tables')) :
    Granted kimg ps' tables' := by
  obtain ⟨promotes, above⟩ := mmMapPageArch_promotes inv fresh call
  obtain ⟨pdpte, pde, there, present, -, writable⟩ := above rfl
  obtain ⟨-, ⟨failed, -⟩ | ⟨-, entries⟩⟩ := mmMapPageArch_entries inv fresh call
  · exact absurd failed (by decide)
  · apply granted.step promotes (pdpteIdx vaddr) (pdeIdx vaddr) pdpte
    intro i j k pte here up
    rw [entries] at here
    split at here
    · rename_i table
      split at here
      · cases here
        refine .inr ⟨table, pde, there, present, fun flag => writable ?_⟩
        exact of_decide_eq_true flag
      · cases old : pteAt kimg ps tables i j k with
        | none =>
          rw [old] at here
          cases here
          cases up
        | some pte' =>
          rw [old] at here
          cases here
          exact .inl rfl
    · exact .inl here

end

end Dxgmx
