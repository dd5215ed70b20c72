import Dxgmx.Elf.ElfLoader
import Dxgmx.Mem.UserPages

open Library

namespace Dxgmx

section Walk

variable {kimg : KernelImage} {ps : PagingStruct} {tables : Tables}

theorem mmuWalk_some {x : Ptr} {pde : PageDirectoryEntry} {pte : PageTableEntry}
    (walk : mmuWalk kimg ps tables x = some (pde, pte)) :
    presentEntry kimg ps tables x = some pte ∧
      pdeAt kimg ps tables (pdpteIdx x) (pdeIdx x) = some pde := by
  unfold mmuWalk at walk
  split at walk
  · cases walk
  · split at walk
    · cases walk
    · rename_i pd dir
      split at walk
      · cases walk
      · split at walk
        · cases walk
        · rename_i pt table
          split at walk
          · cases walk
          · rename_i present
            cases walk
            rw [presentEntry_some]
            have dir' : pdAt kimg ps (pdpteIdx x) = some pd := dir
            have entry := pteAt_some ((ptAt_some dir' (pdeIdx x)).trans table) (pteIdx x)
            exact ⟨⟨entry, Bool.eq_true_of_not_eq_false present⟩, pdeAt_some dir' (pdeIdx x)⟩

theorem mmuWalk_present (granted : Granted kimg ps tables) {x : Ptr} {pte : PageTableEntry}
    (here : presentEntry kimg ps tables x = some pte) :
    ∃ pde, mmuWalk kimg ps tables x = some (pde, pte) ∧
      (pte.writable = true → pde.writable = true) := by
  obtain ⟨entry, present⟩ := presentEntry_some.mp here
  have pdpte := granted.pdpte _ _ _ _ entry present
  obtain ⟨pde, above, up, writable⟩ := granted.pde _ _ _ _ entry present
  obtain ⟨pt, table, rfl⟩ := pteAt_table entry
  obtain ⟨pd, dir, rfl⟩ := pdeAt_dir above
  have dir' : pdFromVaddrAbs kimg ps.data x = some pd := dir
  rw [ptAt_some dir] at table
  refine ⟨tables.pds pd (pdeIdx x), ?_, writable⟩
  unfold mmuWalk
  rw [if_neg (by rw [pdpte]; decide), dir']
  dsimp only
  rw [if_neg (by rw [up]; decide), table]
  dsimp only
  rw [if_neg (by rw [present]; decide)]

theorem mmuWalk_isSome (granted : Granted kimg ps tables) (x : Ptr) :
    (mmuWalk kimg ps tables x).isSome = (presentEntry kimg ps tables x).isSome := by
  cases walk : mmuWalk kimg ps tables x with
  | some entries =>
    obtain ⟨pde, pte⟩ := entries
    rw [(mmuWalk_some walk).1]
    rfl
  | none =>
    cases here : presentEntry kimg ps tables x with
    | none => rfl
    | some pte =>
      obtain ⟨pde, found, -⟩ := mmuWalk_present granted here
      cases walk.symm.trans found

end Walk

section Stores

variable {env : LoadEnv} {s : LoadState}

/-- A store goes by the entry of the page alone. -/
theorem storeTarget_eq (granted : Granted env.kimg s.ps s.tables) (x : Ptr) :
    storeTarget env x s = match presentEntry env.kimg s.ps s.tables x with
      | none => if env.kmallocOwnsVa x then .kernel else .fault
      | some pte =>
        if pte.writable = false then .fault
        else if pageBase x ∈ s.ps.allocatedPages then
          .page (pteFramePaddr pte + BitVec.ofNat 32 (x.toNat % pageSize))
        else .kernel := by
  unfold storeTarget
  cases here : presentEntry env.kimg s.ps s.tables x with
  | none =>
    have walk := mmuWalk_isSome granted x
    rw [here, Option.isSome_none, Option.isSome_eq_false_iff, Option.isNone_iff_eq_none] at walk
    rw [walk]
  | some pte =>
    obtain ⟨pde, walk, writable⟩ := mmuWalk_present granted here
    rw [walk]
    dsimp only
    cases flag : pte.writable with
    | false => simp
    | true => simp [writable flag]

def Stored (env : LoadEnv) (s : LoadState) (x : Ptr) : Prop := ∃ paddr, storeTarget env x s = .page paddr

end Stores

end Dxgmx
