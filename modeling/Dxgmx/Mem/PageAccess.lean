import Dxgmx.Mem.PageRights
import Dxgmx.Mem.PagingTables

open Library

namespace Dxgmx

/-- What an entry lets be done with the pages below it. -/
structure Access where
  writable : Bool
  executable : Bool
  user : Bool
  deriving DecidableEq, Repr

def PageTableEntry.access (pte : PageTableEntry) : Access :=
  ⟨pte.writable, !pte.execDisable, pte.userAccess⟩

def PageDirectoryEntry.access (pde : PageDirectoryEntry) : Access :=
  ⟨pde.writable, !pde.execDisable, pde.userAccess⟩

/-- The access that the flags ask for. -/
def flagAccess (flags : BitVec 16) : Access :=
  ⟨flags &&& pageW ≠ 0, flags &&& pageX ≠ 0, flags &&& pageUser ≠ 0⟩

/-- What both entries allow. -/
def Access.meet (a b : Access) : Access :=
  ⟨a.writable && b.writable, a.executable && b.executable, a.user && b.user⟩

/-- What a directory entry allows after a call with the flags. -/
def Access.promote (a : Access) (flags : BitVec 16) : Access :=
  ⟨a.writable || flags &&& pageW ≠ 0, a.executable || flags &&& pageX ≠ 0, flags &&& pageUser ≠ 0⟩

/-- What an entry of `pd_init` allows. -/
def newAccess : Access := ⟨false, true, false⟩

def mmSetPageFlags (kimg : KernelImage) (va : Ptr) (flags : BitVec 16) (ps : PagingStruct)
    (tables : Tables) : Exec (Int × Tables) := mmSetPageFlagsArch kimg va flags ps tables

section

variable {kimg : KernelImage} {ps ps' : PagingStruct} {tables tables' : Tables} {mem : MapMem}
  {vaddr paddr : Ptr} {flags : BitVec 16} {st : Int}

theorem mmSetPteAndPdeFlags_access (pte : PageTableEntry) (pde : PageDirectoryEntry) :
    (mmSetPteAndPdeFlags pte pde flags).1.access = flagAccess flags ∧
      (mmSetPteAndPdeFlags pte pde flags).2.access = pde.access.promote flags := by
  unfold mmSetPteAndPdeFlags PageTableEntry.access PageDirectoryEntry.access flagAccess Access.promote
  simp

def pdeAccess (kimg : KernelImage) (ps : PagingStruct) (tables : Tables) (i : Fin 4) (j : Fin 512) :
    Option Access := (pdeAt kimg ps tables i j).map (·.access)

theorem pdeAccess_some {i : Fin 4} {pd : Ptr} (dir : pdAt kimg ps i = some pd) (j : Fin 512) :
    pdeAccess kimg ps tables i j = some (tables.pds pd j).access := by
  rw [pdeAccess, pdeAt_some dir]
  rfl

theorem pdeAccess_none {i : Fin 4} (dir : pdAt kimg ps i = none) (j : Fin 512) :
    pdeAccess kimg ps tables i j = none := by
  unfold pdeAccess pdeAt
  rw [dir]
  rfl

theorem mapPageDirectory_access (inv : WalkInv kimg ps tables) (fresh : mem.Fresh kimg tables)
    {idx : Fin 4} {pd : Ptr}
    (call : mapPageDirectory kimg mem idx ps tables = some (pd, ps', tables')) (i : Fin 4)
    (j : Fin 512) : pdeAccess kimg ps' tables' i j =
      if i = idx then some ((pdeAccess kimg ps tables i j).getD newAccess)
      else pdeAccess kimg ps tables i j := by
  rcases mapPageDirectory_spec inv fresh call with ⟨-, dir, -⟩
  rcases mapPageDirectory_tables inv fresh call with ⟨pds, -⟩
  obtain ⟨-, rfl, rfl⟩ | ⟨missing, new, rfl, rfl⟩ := mapPageDirectory_made call
  · split
    · rename_i same
      rw [same, pdeAccess_some dir]
      rfl
    · rfl
  · split
    · rename_i same
      rw [same, pdeAccess_some dir, pdeAccess_none missing, addPd_pds, if_pos rfl]
      rfl
    · rename_i other
      have kept := (pds i).trans (if_neg other)
      cases there : pdAt kimg ps i with
      | none => rw [pdeAccess_none there, pdeAccess_none (kept.trans there)]
      | some old =>
        have different : old ≠ pd := fun eq =>
          (fresh.pdMappable pd new).2 (eq ▸ inv.pdBlock i old there)
        rw [pdeAccess_some there, pdeAccess_some (kept.trans there), addPd_pds, if_neg different]

theorem setPde_access (j : Fin 512) (pde : PageDirectoryEntry) {i : Fin 4} {pd : Ptr}
    (inv : WalkInv kimg ps tables) (dir : pdAt kimg ps i = some pd)
    (pds : ∀ i, pdAt kimg ps' i = pdAt kimg ps i)
    (stored : tables'.pds = (tables.setPde pd j pde).pds) (i' : Fin 4) (j' : Fin 512) :
    pdeAccess kimg ps' tables' i' j' =
      if i' = i ∧ j' = j then some pde.access else pdeAccess kimg ps tables i' j' := by
  cases there : pdAt kimg ps i' with
  | none =>
    rw [pdeAccess_none there, pdeAccess_none ((pds i').trans there), if_neg]
    rintro ⟨rfl, -⟩
    cases dir.symm.trans there
  | some other =>
    rw [pdeAccess_some there, pdeAccess_some ((pds i').trans there), stored, setPde_pds]
    by_cases same : i' = i
    · cases same
      cases dir.symm.trans there
      by_cases here : j' = j
      · rw [if_pos ⟨rfl, here⟩, if_pos ⟨rfl, here⟩]
      · rw [if_neg (here ∘ And.right), if_neg (here ∘ And.right)]
    · have different : other ≠ pd := fun eq => same (inv.pdInj i' i pd (eq ▸ there) dir)
      rw [if_neg (different ∘ And.left), if_neg (same ∘ And.left)]

theorem mapPageTable_access (inv : WalkInv kimg ps tables) {i : Fin 4} {j : Fin 512} {pd pt : Ptr}
    (dir : pdAt kimg ps i = some pd)
    (call : mapPageTable kimg mem pd j tables = some (pt, tables')) (i' : Fin 4) (j' : Fin 512) :
    pdeAccess kimg ps tables' i' j' = pdeAccess kimg ps tables i' j' := by
  obtain ⟨-, rfl⟩ | ⟨-, -, rfl⟩ := mapPageTable_made call
  · rfl
  · refine Eq.trans (setPde_access j { tables.pds pd j with tableBase := baseOf (mmKva2pa kimg pt) }
      inv dir (fun _ => rfl) rfl i' j') ?_
    split
    · rename_i same
      rw [same.1, same.2, pdeAccess_some dir]
      rfl
    · rfl

theorem mmMapPageArch_access (inv : WalkInv kimg ps tables) (fresh : mem.Fresh kimg tables)
    (call : mmMapPageArch kimg mem vaddr paddr flags ps tables = (st, ps', tables')) :
    (st = 0 → ∀ i j, pdeAccess kimg ps' tables' i j =
      if i = pdpteIdx vaddr ∧ j = pdeIdx vaddr then
        some (((pdeAccess kimg ps tables i j).getD newAccess).promote flags)
      else if i = pdpteIdx vaddr then some ((pdeAccess kimg ps tables i j).getD newAccess)
      else pdeAccess kimg ps tables i j) ∧
    (st ≠ 0 → ∀ i j, pdeAccess kimg ps' tables' i j = pdeAccess kimg ps tables i j ∨
      pdeAccess kimg ps' tables' i j = some ((pdeAccess kimg ps tables i j).getD newAccess)) := by
  cases mmMapPageArch_returns call with
  | noPd => exact ⟨fun done => absurd done (by decide), fun _ _ _ => .inl rfl⟩
  | noPt pd ps1 tables1 made =>
    refine ⟨fun done => absurd done (by decide), fun _ i j => ?_⟩
    rw [mapPageDirectory_access inv fresh made]
    split
    · exact .inr rfl
    · exact .inl rfl
  | done pd ps1 tables1 pt tables2 pde made madePt set =>
    rcases mapPageDirectory_spec inv fresh made with ⟨inv1, dir, -, -, unused⟩
    have first := mapPageDirectory_access inv fresh made
    have second := mapPageTable_access inv1 dir madePt
    have fresh1 : ∀ b, mem.pt = some b → Mappable kimg b ∧ b ∉ tables1.blocks :=
      fun b new => ⟨(fresh.ptMappable b new).1, unused b new⟩
    rcases mapPageTable_spec inv1 fresh1 dir madePt with ⟨inv2, -⟩
    have flagged := (@mmSetPteAndPdeFlags_access flags (tables2.pts pt (pteIdx vaddr))
      { tables2.pds pd (pdeIdx vaddr) with present := true }).2
    rw [← set] at flagged
    refine ⟨fun _ i j => ?_, fun failed => absurd rfl failed⟩
    refine Eq.trans (setPde_access (pdeIdx vaddr) pde inv2 dir
      (fun i => pdAt_present (pdpteIdx vaddr) true i) rfl i j) ?_
    have old := (second (pdpteIdx vaddr) (pdeIdx vaddr)).trans
      ((first (pdpteIdx vaddr) (pdeIdx vaddr)).trans (if_pos rfl))
    rw [pdeAccess_some dir, Option.some.injEq] at old
    split
    · rename_i same
      rw [same.1, same.2, ← old, flagged]
      rfl
    · rw [second, first]

/-- What `mm_set_page_flags` does: nothing, or the flags of one entry and of the one above it. -/
theorem mmSetPageFlagsArch_effect (inv : WalkInv kimg ps tables)
    (call : mmSetPageFlagsArch kimg vaddr flags ps tables = .ok (st, tables')) :
    (st = -22 ∧ tables' = tables ∧
      ∀ pte, entryOf kimg ps tables vaddr = some pte → pteFramePaddr pte = 0) ∨
    (st = 0 ∧ WalkInv kimg ps tables' ∧ ∃ pte, entryOf kimg ps tables vaddr = some pte ∧
      pteFramePaddr pte ≠ 0 ∧
      (∀ i j k, pteAt kimg ps tables' i j k =
        if (i = pdpteIdx vaddr ∧ j = pdeIdx vaddr) ∧ k = pteIdx vaddr then some (pte.withFlags flags)
        else pteAt kimg ps tables i j k) ∧
      ∀ i j, pdeAccess kimg ps tables' i j = if i = pdpteIdx vaddr ∧ j = pdeIdx vaddr then
          some (((pdeAccess kimg ps tables i j).getD newAccess).promote flags)
        else pdeAccess kimg ps tables i j) := by
  have aligned : PageAligned vaddr := (assert_bind_ok.mp call).1
  rcases @mmSetPageFlagsArch_returns kimg ps tables vaddr aligned flags with
    ⟨fails, unmapped⟩ | ⟨pd, pt, dir, table, frame, done⟩
  · cases fails.symm.trans call
    exact .inl ⟨rfl, rfl, unmapped⟩
  · cases done.symm.trans call
    have flagged := (@mmSetPteAndPdeFlags_access flags (tables.pts pt (pteIdx vaddr))
      (tables.pds pd (pdeIdx vaddr))).2
    generalize set : (mmSetPteAndPdeFlags (tables.pts pt (pteIdx vaddr))
      (tables.pds pd (pdeIdx vaddr)) flags).2 = pde at flagged ⊢
    have base : pde.tableBase = (tables.pds pd (pdeIdx vaddr)).tableBase := by
      rw [← set]
      rfl
    rcases setEntries_spec inv table base (pteIdx vaddr)
      ((tables.pts pt (pteIdx vaddr)).withFlags flags) with ⟨walk, entries⟩
    refine .inr ⟨rfl, walk, _, pteAt_some table (pteIdx vaddr), frame, entries, fun i j => ?_⟩
    refine Eq.trans (setPde_access (pdeIdx vaddr) pde inv dir (fun _ => rfl) rfl i j) ?_
    split
    · rename_i same
      rw [same.1, same.2, pdeAccess_some dir, flagged]
      rfl
    · rfl

end

inductive FlagsOp
  | map (mem : MapMem) (paddr : Ptr)
  | set

/-- One call of `mm_map_page` or `mm_set_page_flags` with what it returned. -/
structure FlagsCall where
  op : FlagsOp
  vaddr : Ptr
  flags : BitVec 16
  st : Int

def FlagsStep (kimg : KernelImage) (s : PagingState) (call : FlagsCall) (t : PagingState) : Prop :=
  match call.op with
  | .map mem paddr => mem.Fresh kimg s.tables ∧
      mmMapPage kimg mem call.vaddr paddr call.flags s.ps s.tables = .ok (call.st, t.ps, t.tables)
  | .set => mmSetPageFlags kimg call.vaddr call.flags s.ps s.tables = .ok (call.st, t.tables) ∧
      t.ps = s.ps

/-- The flags of the last call for the page of `x` that returned 0. -/
def lastFlags (x : Ptr) (trace : List FlagsCall) : Option (BitVec 16) :=
  trace.foldl (fun last call => if call.st = 0 ∧ SamePage x call.vaddr then some call.flags else last)
    none

/-- All pages of the range of a page table are given the same user access. -/
def SameUser (trace : List FlagsCall) : Prop :=
  ∀ c ∈ trace, ∀ d ∈ trace, c.vaddr.toNat / 2 ^ 21 = d.vaddr.toNat / 2 ^ 21 →
    (c.flags &&& pageUser ≠ 0 ↔ d.flags &&& pageUser ≠ 0)

theorem lastFlags_snoc (x : Ptr) (trace : List FlagsCall) (call : FlagsCall) :
    lastFlags x (trace ++ [call]) =
      if call.st = 0 ∧ SamePage x call.vaddr then some call.flags else lastFlags x trace := by
  unfold lastFlags
  rw [List.foldl_append]
  rfl

theorem lastFlags_some {x : Ptr} {trace : List FlagsCall} {flags : BitVec 16}
    (last : lastFlags x trace = some flags) :
    ∃ call ∈ trace, call.st = 0 ∧ SamePage x call.vaddr ∧ call.flags = flags := by
  induction trace using List.reverseRecOn with
  | nil => cases last
  | append_singleton trace call ih =>
    rw [lastFlags_snoc] at last
    split at last
    · rename_i here
      cases last
      exact ⟨call, List.mem_append_right _ (List.mem_singleton_self _), here.1, here.2, rfl⟩
    · rcases ih last with ⟨other, member, rest⟩
      exact ⟨other, List.mem_append_left _ member, rest⟩

/-- What the two entries of a mapped page allow together. -/
def effectiveAccess (kimg : KernelImage) (s : PagingState) (x : Ptr) : Option Access :=
  match presentEntry kimg s.ps s.tables x, pdeAccess kimg s.ps s.tables (pdpteIdx x) (pdeIdx x) with
  | some pte, some above => some (pte.access.meet above)
  | _, _ => none

/-- After the calls, the entries hold the flags of the last ones, and the directories allow them. -/
structure AccessInv (kimg : KernelImage) (trace : List FlagsCall) (s : PagingState) : Prop where
  walk : WalkInv kimg s.ps s.tables
  absent : ∀ i j k pte, pteAt kimg s.ps s.tables i j k = some pte → pte.present = false →
    pteFramePaddr pte = 0
  entries : ∀ x, (presentEntry kimg s.ps s.tables x).map (·.access) =
    (lastFlags x trace).map flagAccess
  executable : ∀ i j a, pdeAccess kimg s.ps s.tables i j = some a → a.executable = true
  above : ∀ call ∈ trace, call.st = 0 → ∃ a,
    pdeAccess kimg s.ps s.tables (pdpteIdx call.vaddr) (pdeIdx call.vaddr) = some a ∧
      (a.user = true ↔ call.flags &&& pageUser ≠ 0) ∧ (call.flags &&& pageW ≠ 0 → a.writable = true)

section

variable {kimg : KernelImage} {s t : PagingState} {trace : List FlagsCall} {call : FlagsCall}

theorem flagAccess_meet {flags : BitVec 16} {a : Access} (executable : a.executable = true)
    (user : a.user = true ↔ flags &&& pageUser ≠ 0)
    (writable : flags &&& pageW ≠ 0 → a.writable = true) :
    (flagAccess flags).meet a = flagAccess flags := by
  unfold flagAccess Access.meet
  simp only [Access.mk.injEq, executable, Bool.and_true, Bool.and_eq_left_iff_imp,
    decide_eq_true_iff, true_and]
  exact ⟨writable, user.mpr⟩

theorem AccessInv.effective (inv : AccessInv kimg trace s) (x : Ptr) :
    effectiveAccess kimg s x = (lastFlags x trace).map flagAccess := by
  have entry := inv.entries x
  unfold effectiveAccess
  cases last : lastFlags x trace with
  | none =>
    rw [last] at entry
    rw [Option.map_eq_none_iff.mp entry]
    rfl
  | some flags =>
    rw [last] at entry
    rcases Option.map_eq_some_iff.mp entry with ⟨pte, here, access⟩
    rcases lastFlags_some last with ⟨call, member, done, same, rfl⟩
    rcases inv.above call member done with ⟨a, above, user, writable⟩
    rcases (samePage_iff x call.vaddr).mpr same with ⟨⟨pdpte, pde⟩, -⟩
    rw [← pdpte, ← pde] at above
    have executable := inv.executable _ _ a above
    rw [here, above]
    exact congrArg some ((congrArg (·.meet a) access).trans (flagAccess_meet executable user writable))

theorem AccessInv.failed (inv : AccessInv kimg trace s) (failed : call.st ≠ 0)
    (walk : WalkInv kimg t.ps t.tables)
    (same : ∀ i j k, pteAt kimg t.ps t.tables i j k = pteAt kimg s.ps s.tables i j k)
    (above : ∀ i j, pdeAccess kimg t.ps t.tables i j = pdeAccess kimg s.ps s.tables i j ∨
      pdeAccess kimg t.ps t.tables i j = some ((pdeAccess kimg s.ps s.tables i j).getD newAccess)) :
    AccessInv kimg (trace ++ [call]) t := by
  have kept : ∀ i j a, pdeAccess kimg s.ps s.tables i j = some a →
      pdeAccess kimg t.ps t.tables i j = some a := fun i j a here => by
    rcases above i j with now | now
    · rw [now, here]
    · rw [now, here, Option.getD_some]
  refine ⟨walk, fun i j k pte here => inv.absent i j k pte ((same i j k).symm.trans here), fun x => ?_,
    fun i j a here => ?_, fun other member done => ?_⟩
  · rw [lastFlags_snoc, if_neg (failed ∘ And.left), ← inv.entries x]
    unfold presentEntry
    rw [same]
  · cases old : pdeAccess kimg s.ps s.tables i j with
    | some b =>
      cases (kept i j b old).symm.trans here
      exact inv.executable i j a old
    | none =>
      rcases above i j with now | now
      · rw [now, old] at here
        cases here
      · rw [now, old] at here
        cases here
        rfl
  · rcases List.mem_append.mp member with before | now
    · rcases inv.above other before done with ⟨a, here, rest⟩
      exact ⟨a, kept _ _ a here, rest⟩
    · cases List.mem_singleton.mp now
      exact absurd done failed

/-- A call that set the flags of one entry and of the one above it. -/
theorem AccessInv.set (inv : AccessInv kimg trace s) (consistent : SameUser (trace ++ [call]))
    (done : call.st = 0) (walk : WalkInv kimg t.ps t.tables)
    (absent : ∀ i j k pte, pteAt kimg t.ps t.tables i j k = some pte → pte.present = false →
      pteFramePaddr pte = 0)
    (entries : ∀ x, (presentEntry kimg t.ps t.tables x).map (·.access) =
      if SamePage x call.vaddr then some (flagAccess call.flags)
      else (presentEntry kimg s.ps s.tables x).map (·.access))
    (above : ∀ i j, pdeAccess kimg t.ps t.tables i j =
      if i = pdpteIdx call.vaddr ∧ j = pdeIdx call.vaddr then
        some (((pdeAccess kimg s.ps s.tables i j).getD newAccess).promote call.flags)
      else if i = pdpteIdx call.vaddr then some ((pdeAccess kimg s.ps s.tables i j).getD newAccess)
      else pdeAccess kimg s.ps s.tables i j) :
    AccessInv kimg (trace ++ [call]) t := by
  have old (i : Fin 4) (j : Fin 512) :
      ((pdeAccess kimg s.ps s.tables i j).getD newAccess).executable = true := by
    cases here : pdeAccess kimg s.ps s.tables i j with
    | none => rfl
    | some a => exact inv.executable i j a here
  refine ⟨walk, absent, fun x => ?_, fun i j a here => ?_, fun other member now => ?_⟩
  · rw [lastFlags_snoc, entries]
    simp only [done, true_and]
    split
    · rfl
    · exact inv.entries x
  · rw [above] at here
    split_ifs at here
    · cases here
      unfold Access.promote
      rw [old, Bool.true_or]
    · cases here
      exact old i j
    · exact inv.executable i j a here
  · rw [above]
    by_cases table : pdpteIdx other.vaddr = pdpteIdx call.vaddr ∧ pdeIdx other.vaddr = pdeIdx call.vaddr
    · rw [if_pos table]
      have user := consistent other member call (List.mem_append_right _ (List.mem_singleton_self _))
        ((pdpteIdx_pdeIdx_iff _ _).mp table)
      refine ⟨_, rfl, decide_eq_true_iff.trans user.symm, fun flag => ?_⟩
      rcases List.mem_append.mp member with before | here
      · rcases inv.above other before now with ⟨a, there, -, writable⟩
        rw [there]
        unfold Access.promote
        rw [Option.getD_some, writable flag, Bool.true_or]
      · cases List.mem_singleton.mp here
        unfold Access.promote
        rw [decide_eq_true flag, Bool.or_true]
    · rw [if_neg table]
      rcases List.mem_append.mp member with before | here
      · rcases inv.above other before now with ⟨a, there, rest⟩
        refine ⟨a, ?_, rest⟩
        rw [there, Option.getD_some, ite_self]
      · cases List.mem_singleton.mp here
        exact absurd ⟨rfl, rfl⟩ table

theorem pageEntry_access (paddr : Ptr) (flags : BitVec 16) :
    (pageEntry paddr flags).access = flagAccess flags := by
  unfold pageEntry PageTableEntry.access flagAccess
  simp

theorem AccessInv.map {mem : MapMem} {paddr : Ptr} (inv : AccessInv kimg trace s)
    (consistent : SameUser (trace ++ [call])) (fresh : mem.Fresh kimg s.tables)
    (arch : mmMapPageArch kimg mem call.vaddr paddr call.flags s.ps s.tables =
      (call.st, t.ps, t.tables)) : AccessInv kimg (trace ++ [call]) t := by
  rcases mmMapPageArch_access inv.walk fresh arch with ⟨stored, kept⟩
  rcases mmMapPageArch_entries inv.walk fresh arch with ⟨walk, ⟨failed, same⟩ | ⟨done, entries⟩⟩
  · have nonzero : call.st ≠ 0 := by omega
    exact inv.failed nonzero walk same (kept nonzero)
  · refine inv.set consistent done walk (fun i j k pte here missing => ?_) (fun x => ?_) (stored done)
    · rw [entries] at here
      split_ifs at here
      · rw [Option.some.injEq] at here
        rw [← here] at missing
        cases missing
      · cases old : pteAt kimg s.ps s.tables i j k with
        | none =>
          rw [old, Option.getD_none, Option.some.injEq] at here
          rw [← here]
          exact pteFramePaddr_ptInit k
        | some pte' =>
          rw [old, Option.getD_some, Option.some.injEq] at here
          rw [← here] at missing ⊢
          exact inv.absent i j k pte' old missing
      · exact inv.absent i j k pte here missing
    · rw [done] at arch
      rw [mmMapPageArch_present inv.walk fresh arch]
      split
      · exact congrArg some (pageEntry_access paddr call.flags)
      · rfl

theorem AccessInv.setFlags (inv : AccessInv kimg trace s) (consistent : SameUser (trace ++ [call]))
    (arch : mmSetPageFlagsArch kimg call.vaddr call.flags s.ps s.tables = .ok (call.st, t.tables))
    (kept : t.ps = s.ps) : AccessInv kimg (trace ++ [call]) t := by
  rcases t with ⟨ps, tables⟩
  cases kept
  rcases mmSetPageFlagsArch_effect inv.walk arch with ⟨failed, rfl, -⟩ |
    ⟨done, walk, pte, here, frame, entries, above⟩
  · have nonzero : call.st ≠ 0 := by omega
    exact inv.failed nonzero inv.walk (fun _ _ _ => rfl) fun _ _ => .inl rfl
  · have present : pte.present = true := by
      by_contra missing
      exact frame (inv.absent _ _ _ pte here (Bool.not_eq_true _ ▸ missing))
    refine inv.set consistent done walk (fun i j k pte' there missing => ?_) (fun x => ?_)
      (fun i j => ?_)
    · rw [entries] at there
      split_ifs at there
      · cases there
        cases present.symm.trans missing
      · exact inv.absent i j k pte' there missing
    · unfold presentEntry
      rw [entries]
      simp only [samePage_iff]
      split
      · rw [Option.filter_some_pos (show (pte.withFlags call.flags).present = true from present)]
        exact congrArg some (mmSetPteAndPdeFlags_access pte ⟨false, false, false, 0, false⟩).1
      · rfl
    · rw [above]
      split_ifs with table dir
      · rfl
      · rcases pteAt_table here with ⟨pt, there, -⟩
        rcases ptAt_dir there with ⟨pd, known⟩
        rw [← dir] at known
        rw [pdeAccess_some known, Option.getD_some]
      · rfl

theorem AccessInv.step (inv : AccessInv kimg trace s) (consistent : SameUser (trace ++ [call]))
    (step : FlagsStep kimg s call t) : AccessInv kimg (trace ++ [call]) t := by
  unfold FlagsStep at step
  split at step
  · rcases step with ⟨fresh, done⟩
    unfold mmMapPage at done
    rw [assert_bind_ok, assert_bind_ok] at done
    exact inv.map consistent fresh (Except.ok.inj done.2.2)
  · exact inv.setFlags consistent step.1 step.2

theorem accessInv_init (kimg : KernelImage) (tables : Tables) :
    AccessInv kimg [] ⟨mmInitPagingStruct, tables⟩ := by
  have none_ (i : Fin 4) (j k : Fin 512) : pteAt kimg mmInitPagingStruct tables i j k = none := by
    unfold pteAt
    rw [ptAt_none (pdAt_init kimg i)]
    rfl
  refine ⟨walkInv_init kimg tables, fun i j k pte here => ?_, fun x => ?_, fun i j a here => ?_, nofun⟩
  · cases (none_ i j k).symm.trans here
  · unfold presentEntry
    rw [none_]
    rfl
  · cases (pdeAccess_none (pdAt_init kimg i) j).symm.trans here

theorem accessInv_run {tables : Tables}
    (run : Run (FlagsStep kimg) ⟨mmInitPagingStruct, tables⟩ trace s) (consistent : SameUser trace) :
    AccessInv kimg trace s := by
  refine run.history (fun trace s => SameUser trace → AccessInv kimg trace s)
    (fun trace s call t before step consistent => ?_) (fun _ => accessInv_init kimg tables) consistent
  refine (before fun c member d there => ?_).step consistent step
  exact consistent c (List.mem_append_left _ member) d (List.mem_append_left _ there)

/-- A call for a mapped page fails if and only if it is to set the flags of a page of frame 0. -/
theorem flagsStep_fails_iff (walk : WalkInv kimg s.ps s.tables) {pte : PageTableEntry}
    (here : presentEntry kimg s.ps s.tables call.vaddr = some pte) (step : FlagsStep kimg s call t) :
    call.st ≠ 0 ↔ call.op = .set ∧ pteFramePaddr pte = 0 := by
  rcases presentEntry_some.mp here with ⟨entry, -⟩
  unfold FlagsStep at step
  split at step
  · rename_i mem paddr map
    rcases step with ⟨fresh, done⟩
    unfold mmMapPage at done
    rw [assert_bind_ok, assert_bind_ok] at done
    rcases pteAt_table entry with ⟨pt, table, -⟩
    rcases ptAt_dir table with ⟨pd, dir⟩
    have succeeds : call.st = 0 := by
      rw [mmMapPageArch_done_iff walk fresh (Except.ok.inj done.2.2), dir, table]
      exact ⟨.inl rfl, .inl rfl⟩
    rw [map]
    exact ⟨fun failed => absurd succeeds failed, nofun⟩
  · rename_i set
    rw [set]
    rcases mmSetPageFlagsArch_effect walk step.1 with ⟨failed, -, zero⟩ | ⟨done, -, pte', there, frame, -⟩
    · exact iff_of_true (by omega) ⟨rfl, zero pte entry⟩
    · cases entry.symm.trans there
      exact ⟨fun failed => absurd done failed, fun both => absurd both.2 frame⟩

end

/-- Where the pages of every page table are given the same user access, a page has exactly the access
    of the flags of the last call for it that succeeded. -/
theorem effectiveAccess_last {kimg : KernelImage} {tables : Tables} {trace : List FlagsCall}
    {s : PagingState} (run : Run (FlagsStep kimg) ⟨mmInitPagingStruct, tables⟩ trace s)
    (consistent : SameUser trace) :
    (∀ x, effectiveAccess kimg s x = (lastFlags x trace).map flagAccess) ∧
    ∀ call t pte, FlagsStep kimg s call t → presentEntry kimg s.ps s.tables call.vaddr = some pte →
      (call.st ≠ 0 ↔ call.op = .set ∧ pteFramePaddr pte = 0) := by
  have inv := accessInv_run run consistent
  exact ⟨inv.effective, fun call t pte step here => flagsStep_fails_iff inv.walk here step⟩

def flagsMap (paddr : Ptr) : FlagsCall :=
  ⟨.map ⟨some 0xe0001000, some 0xe0002000⟩ paddr, 0x1000, pageW, 0⟩

def flagsSet (st : Int) : FlagsCall := ⟨.set, 0x1000, pageX, st⟩

theorem sameUser_page (paddr : Ptr) (st : Int) : SameUser [flagsMap paddr, flagsSet st] := by
  have none_ : ∀ c ∈ [flagsMap paddr, flagsSet st], ¬c.flags &&& pageUser ≠ 0 := by
    rw [List.forall_mem_cons, List.forall_mem_singleton]
    exact ⟨show ¬pageW &&& pageUser ≠ 0 by decide, show ¬pageX &&& pageUser ≠ 0 by decide⟩
  exact fun c first d second _ => iff_of_false (none_ c first) (none_ d second)

theorem effectiveAccess_last_page : ∃ s,
    Run (FlagsStep ⟨0xc0000000⟩) onePageMapped.1 [flagsMap 0x5000, flagsSet 0] s ∧
      effectiveAccess ⟨0xc0000000⟩ s 0x1000 = some ⟨false, true, false⟩ := by
  have first : FlagsStep ⟨0xc0000000⟩ onePageMapped.1 (flagsMap 0x5000) onePageMapped.2.2 :=
    ⟨onePageMapped_step.fresh, onePageMapped_step.done⟩
  have done : (mmSetPageFlags ⟨0xc0000000⟩ 0x1000 pageX onePageMapped.2.2.ps
      onePageMapped.2.2.tables).map Prod.fst = .ok 0 := by rfl
  rcases set : mmSetPageFlags ⟨0xc0000000⟩ 0x1000 pageX onePageMapped.2.2.ps
    onePageMapped.2.2.tables with stop | ⟨st, tables⟩
  · rw [set] at done
    cases done
  · rw [set] at done
    cases done
    have second : FlagsStep ⟨0xc0000000⟩ onePageMapped.2.2 (flagsSet 0)
        ⟨onePageMapped.2.2.ps, tables⟩ := ⟨set, rfl⟩
    have run := (Run.single first).snoc second
    exact ⟨_, run, (effectiveAccess_last run (sameUser_page _ _)).1 0x1000⟩

/-- The same page mapped to frame 0. -/
def onePageMappedZero : PagingState :=
  let (_, ps, tables) := mmMapPageArch ⟨0xc0000000⟩ ⟨some 0xe0001000, some 0xe0002000⟩ 0x1000 0 pageW
    onePageMapped.1.ps onePageMapped.1.tables
  ⟨ps, tables⟩

/-- The flags of a page that is mapped to frame 0 cannot be set. -/
theorem effectiveAccess_of_frame_zero :
    Run (FlagsStep ⟨0xc0000000⟩) onePageMapped.1 [flagsMap 0, flagsSet (-22)] onePageMappedZero ∧
      SameUser [flagsMap 0, flagsSet (-22)] ∧
      effectiveAccess ⟨0xc0000000⟩ onePageMappedZero 0x1000 = some ⟨true, false, false⟩ ∧
      flagAccess (flagsSet (-22)).flags = ⟨false, true, false⟩ := by
  have first : FlagsStep ⟨0xc0000000⟩ onePageMapped.1 (flagsMap 0) onePageMappedZero :=
    ⟨onePageMapped_step.fresh, rfl⟩
  have second : FlagsStep ⟨0xc0000000⟩ onePageMappedZero (flagsSet (-22)) onePageMappedZero :=
    ⟨rfl, rfl⟩
  exact ⟨(Run.single first).snoc second, sameUser_page _ _, by decide, by decide⟩

end Dxgmx
