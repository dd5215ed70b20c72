import Dxgmx.Mem.UserPages

open Library

namespace Dxgmx

def pagePresent : BitVec 16 := 16

def pageWX : BitVec 16 := pageW ||| pageX

inductive Right
  | present
  | writable
  | executable
  | user
  deriving DecidableEq, Repr

def Right.flag : Right → BitVec 16
  | .present => pagePresent
  | .writable => pageW
  | .executable => pageX
  | .user => pageUser

/-- The entry stores the rights with mixed polarity. -/
def PageTableEntry.has (pte : PageTableEntry) : Right → Bool
  | .present => pte.present
  | .writable => pte.writable
  | .executable => !pte.execDisable
  | .user => pte.userAccess

/-- What the code stores for the flags that are removed. -/
def PageTableEntry.without (pte : PageTableEntry) (flags : BitVec 16) : PageTableEntry :=
  { pte with
    execDisable := flags &&& pageX ≠ 0
    writable := flags &&& pageW = 0
    userAccess := flags &&& pageUser = 0
    present := flags &&& pagePresent = 0 }

def mmRmPageFlagsArch (kimg : KernelImage) (vaddr : Ptr) (flags : BitVec 16) (ps : PagingStruct)
    (tables : Tables) : Exec (Int × Tables) := do
  assert (vaddr.toNat % pageSize = 0)
  match ptFromVaddrAbs kimg ps.data tables vaddr with
  | none => pure (-2, tables)
  | some pt => pure (0, tables.setPte pt (pteIdx vaddr) ((tables.pts pt (pteIdx vaddr)).without flags))

def mmRmPageFlags (kimg : KernelImage) (va : Ptr) (flags : BitVec 16) (ps : PagingStruct)
    (tables : Tables) : Exec (Int × Tables) := mmRmPageFlagsArch kimg va flags ps tables

/-- A section of the kernel image. The image does not reach into the last page. -/
structure KimgSection where
  start : Ptr
  finish : Ptr
  fits : finish.toNat + pageSize ≤ 2 ^ 32

/-- The pages that `FOR_EACH_PAGE` goes through. -/
def KimgSection.pages (s : KimgSection) : List Ptr :=
  (List.range ((s.finish.toNat - s.start.toNat + (pageSize - 1)) / pageSize)).map fun i =>
    s.start + BitVec.ofNat 32 (i * pageSize)

structure KimgSections where
  bootloader : KimgSection
  text : KimgSection
  syscalls : KimgSection
  useraccess : KimgSection
  module : KimgSection
  init : KimgSection
  data : KimgSection
  roPostinit : KimgSection
  rodata : KimgSection
  bss : KimgSection
  ksyms : KimgSection

/-- What is removed from which section, in the order of the loops. -/
def KimgSections.removals (kimg : KimgSections) : List (KimgSection × BitVec 16) :=
  [(kimg.bootloader, pagePresent), (kimg.text, pageW), (kimg.syscalls, pageWX),
    (kimg.useraccess, pageW), (kimg.module, pageX), (kimg.init, pageW), (kimg.data, pageX),
    (kimg.roPostinit, pageX), (kimg.rodata, pageWX), (kimg.bss, pageX), (kimg.ksyms, pageWX)]

/-- One of the loops. What `mm_rm_page_flags` returns is not looked at. -/
def rmSectionFlags (kimg : KernelImage) (s : KimgSection) (flags : BitVec 16) (ps : PagingStruct)
    (tables : Tables) : Exec Tables := do
  assert (s.start.toNat % pageSize = 0)
  s.pages.foldlM (fun tables page => do
    let (_, tables) ← mmRmPageFlags kimg page flags ps tables
    pure tables) tables

def mmEnforceKsectionsPerms (kimg : KernelImage) (sections : KimgSections) (kps : PagingStruct)
    (tables : Tables) : Exec Tables :=
  sections.removals.foldlM (fun tables loop => rmSectionFlags kimg loop.1 loop.2 kps tables) tables

section

variable {kimg : KernelImage} {ps : PagingStruct} {tables tables' : Tables} {vaddr : Ptr}
  {flags : BitVec 16} {pte : PageTableEntry}

/-- The entry of the page of an address, if there is a table with the entry. -/
def entryOf (kimg : KernelImage) (ps : PagingStruct) (tables : Tables) (x : Ptr) :
    Option PageTableEntry := pteAt kimg ps tables (pdpteIdx x) (pdeIdx x) (pteIdx x)

def pageHas (kimg : KernelImage) (ps : PagingStruct) (tables : Tables) (x : Ptr) (r : Right) : Bool :=
  (entryOf kimg ps tables x).any (·.has r)

/-- The rights of two pages are stored in the same entry. -/
def SameEntry (kimg : KernelImage) (ps : PagingStruct) (tables : Tables) (x y : Ptr) : Prop :=
  ptAt kimg ps tables (pdpteIdx x) (pdeIdx x) = ptAt kimg ps tables (pdpteIdx y) (pdeIdx y) ∧
    pteIdx x = pteIdx y

theorem SamePage.sameEntry {x y : Ptr} (same : SamePage x y) : SameEntry kimg ps tables x y := by
  rcases (samePage_iff x y).mpr same with ⟨⟨pdpte, pde⟩, pte⟩
  unfold SameEntry
  rw [pdpte, pde, pte]
  exact ⟨rfl, rfl⟩

theorem WalkInv.sameEntry_iff (walk : WalkInv kimg ps tables) {x y : Ptr}
    (mapped : (entryOf kimg ps tables y).isSome) :
    SameEntry kimg ps tables x y ↔ SamePage x y := by
  refine ⟨fun ⟨table, entry⟩ => (samePage_iff x y).mp ⟨?_, entry⟩, SamePage.sameEntry⟩
  rcases Option.isSome_iff_exists.mp mapped with ⟨pte, here⟩
  rcases pteAt_table here with ⟨pt, there, -⟩
  exact walk.ptInj _ _ _ _ pt (table.trans there) there

theorem without_has (r : Right) : (pte.without flags).has r = decide (flags &&& r.flag = 0) := by
  cases r
  · rfl
  · rfl
  · unfold PageTableEntry.has PageTableEntry.without Right.flag
    simp
  · rfl

theorem mmRmPageFlags_entries (aligned : PageAligned vaddr)
    (mapped : entryOf kimg ps tables vaddr = some pte) :
    ∃ tables', mmRmPageFlags kimg vaddr flags ps tables = .ok (0, tables') ∧
      ∀ x, (SameEntry kimg ps tables x vaddr → entryOf kimg ps tables' x = some (pte.without flags)) ∧
        (¬SameEntry kimg ps tables x vaddr → entryOf kimg ps tables' x = entryOf kimg ps tables x) := by
  rcases pteAt_table mapped with ⟨pt, table, rfl⟩
  refine ⟨tables.setPte pt (pteIdx vaddr) ((tables.pts pt (pteIdx vaddr)).without flags), ?_,
    fun x => ⟨?_, ?_⟩⟩
  · unfold mmRmPageFlags mmRmPageFlagsArch
    rw [assert_bind_ok]
    refine ⟨aligned, ?_⟩
    change (match ptAt kimg ps tables (pdpteIdx vaddr) (pdeIdx vaddr) with
      | none => _
      | some pt => _) = _
    rw [table]
    rfl
  · rintro ⟨sameTable, sameEntry⟩
    have there : ptAt kimg ps (tables.setPte pt (pteIdx vaddr)
        ((tables.pts pt (pteIdx vaddr)).without flags)) (pdpteIdx x) (pdeIdx x) = some pt :=
      sameTable.trans table
    rw [entryOf, pteAt_some there, setPte_pts, if_pos ⟨rfl, sameEntry⟩]
  · intro other
    unfold entryOf pteAt
    apply Option.map_congr
    intro pt' there
    rw [setPte_pts, if_neg]
    rintro ⟨rfl, sameEntry⟩
    have sameTable : ptAt kimg ps tables (pdpteIdx x) (pdeIdx x) = some pt' := there
    exact other ⟨sameTable.trans table.symm, sameEntry⟩

/-- The call takes from the page the rights that are given, and nothing else from any page. -/
def RemovesRights (kimg : KernelImage) (ps : PagingStruct) (vaddr : Ptr) (flags : BitVec 16)
    (tables tables' : Tables) : Prop :=
  ∀ x r, pageHas kimg ps tables' x r = true ↔
    pageHas kimg ps tables x r = true ∧ ¬(SamePage x vaddr ∧ flags &&& r.flag ≠ 0)

/-- The page holds every right that is not given, and no other page has its rights in the same entry,
    unless the page holds none of the rights given. -/
def RightsRemovable (kimg : KernelImage) (ps : PagingStruct) (tables : Tables) (vaddr : Ptr)
    (flags : BitVec 16) : Prop :=
  (∀ r : Right, flags &&& r.flag = 0 → pageHas kimg ps tables vaddr r = true) ∧
    ((∀ x, SameEntry kimg ps tables x vaddr → SamePage x vaddr) ∨
      ∀ r : Right, flags &&& r.flag ≠ 0 → pageHas kimg ps tables vaddr r = false)

theorem pageHas_some (r : Right) {x : Ptr} (here : entryOf kimg ps tables x = some pte) :
    pageHas kimg ps tables x r = pte.has r := by
  rw [pageHas, here]
  rfl

theorem SameEntry.pageHas_eq {x y : Ptr} (same : SameEntry kimg ps tables x y) (r : Right) :
    pageHas kimg ps tables x r = pageHas kimg ps tables y r := by
  rcases same with ⟨table, entry⟩
  unfold pageHas entryOf pteAt
  rw [table, entry]

/-- Where no table is reached in two ways, the page only has to hold the rights that are not given. -/
theorem WalkInv.rightsRemovable_iff (walk : WalkInv kimg ps tables)
    (mapped : (entryOf kimg ps tables vaddr).isSome) :
    RightsRemovable kimg ps tables vaddr flags ↔
      ∀ r : Right, flags &&& r.flag = 0 → pageHas kimg ps tables vaddr r = true :=
  ⟨And.left, fun holds => ⟨holds, .inl fun _ same => (walk.sameEntry_iff mapped).mp same⟩⟩

theorem mmRmPageFlags_removes_iff (aligned : PageAligned vaddr)
    (mapped : entryOf kimg ps tables vaddr = some pte) :
    (∃ tables', mmRmPageFlags kimg vaddr flags ps tables = .ok (0, tables') ∧
      RemovesRights kimg ps vaddr flags tables tables') ↔ RightsRemovable kimg ps tables vaddr flags := by
  rcases @mmRmPageFlags_entries _ _ _ _ flags _ aligned mapped with ⟨tables', call, entries⟩
  have stored : ∀ x, SameEntry kimg ps tables x vaddr → ∀ r,
      pageHas kimg ps tables' x r = decide (flags &&& r.flag = 0) := fun x same r => by
    rw [pageHas_some r ((entries x).1 same), without_has]
  have kept : ∀ x, ¬SameEntry kimg ps tables x vaddr → ∀ r,
      pageHas kimg ps tables' x r = pageHas kimg ps tables x r := fun x other r => by
    rw [pageHas, pageHas, (entries x).2 other]
  have self : SamePage vaddr vaddr := rfl
  constructor
  · rintro ⟨after, again, removes⟩
    cases call.symm.trans again
    refine ⟨fun r free => ?_, or_iff_not_imp_left.mpr fun shared r given => ?_⟩
    · refine ((removes vaddr r).mp ?_).1
      rw [stored vaddr self.sameEntry, decide_eq_true free]
    · push Not at shared
      rcases shared with ⟨x, same, other⟩
      have gone := stored x same r
      rw [decide_eq_false given] at gone
      rw [← same.pageHas_eq]
      by_contra held
      rw [Bool.not_eq_false] at held
      have there := (removes x r).mpr ⟨held, fun both => other both.1⟩
      exact absurd (gone.symm.trans there) (by decide)
  · rintro ⟨holds, unshared⟩
    refine ⟨tables', call, fun x r => ?_⟩
    by_cases same : SameEntry kimg ps tables x vaddr
    · rw [stored x same, same.pageHas_eq, decide_eq_true_iff]
      constructor
      · exact fun free => ⟨holds r free, fun both => both.2 free⟩
      · rintro ⟨held, left_⟩
        by_contra given
        rcases unshared with alone | none_
        · exact left_ ⟨alone x same, given⟩
        · rw [none_ r given] at held
          cases held
    · rw [kept x same]
      exact ⟨fun held => ⟨held, fun both => same both.1.sameEntry⟩, And.left⟩

end

/-- One call of `mm_rm_page_flags`. -/
structure RmCall where
  vaddr : Ptr
  flags : BitVec 16

def RmStep (kimg : KernelImage) (ps : PagingStruct) (tables : Tables) (call : RmCall)
    (tables' : Tables) : Prop :=
  ∃ st, mmRmPageFlags kimg call.vaddr call.flags ps tables = .ok (st, tables')

/-- The call takes the right from the page. -/
def RmCall.takes (call : RmCall) (x : Ptr) (r : Right) : Prop :=
  SamePage x call.vaddr ∧ call.flags &&& r.flag ≠ 0

/-- The condition of a call on a page, which is void on a page that is not mapped. -/
def RmCall.Fits (kimg : KernelImage) (ps : PagingStruct) (tables : Tables) (call : RmCall) : Prop :=
  (entryOf kimg ps tables call.vaddr).isSome → RightsRemovable kimg ps tables call.vaddr call.flags

def KimgSections.calls (sections : KimgSections) : List RmCall :=
  sections.removals.flatMap fun loop => loop.1.pages.map fun page => ⟨page, loop.2⟩

section

variable {kimg : KernelImage} {ps : PagingStruct} {tables tables' : Tables}

theorem RmStep.takesAway {call : RmCall} (step : RmStep kimg ps tables call tables')
    (fits : call.Fits kimg ps tables) :
    TakesAway (fun tables x r => pageHas kimg ps tables x r = true) RmCall.takes tables call
      tables' := by
  rcases step with ⟨st, done⟩
  have aligned : PageAligned call.vaddr := (assert_bind_ok.mp done).1
  cases mapped : entryOf kimg ps tables call.vaddr with
  | some pte =>
    rw [RmCall.Fits, mapped] at fits
    rcases (mmRmPageFlags_removes_iff aligned mapped).mpr (fits rfl) with ⟨after, again, removes⟩
    cases done.symm.trans again
    exact removes
  | none =>
    have same : tables' = tables := by
      have rest := (assert_bind_ok.mp done).2
      change (match ptAt kimg ps tables (pdpteIdx call.vaddr) (pdeIdx call.vaddr) with
        | none => _
        | some pt => _) = _ at rest
      rw [Option.map_eq_none_iff.mp mapped] at rest
      cases rest
      rfl
    intro x r
    rw [same]
    refine ⟨fun held => ⟨held, fun both => ?_⟩, And.left⟩
    have shared : SameEntry kimg ps tables x call.vaddr := both.1.sameEntry
    change pageHas kimg ps tables x r = true at held
    rw [shared.pageHas_eq, pageHas, mapped] at held
    cases held

/-- The loops of `mm_enforce_ksections_perms` are a run of calls. -/
theorem mmEnforceKsectionsPerms_run {sections : KimgSections}
    (done : mmEnforceKsectionsPerms kimg sections ps tables = .ok tables') :
    Run (RmStep kimg ps) tables sections.calls tables' := by
  refine (Run.of_foldlM_ok done).flatMap fun s loop t finished => ?_
  rcases assert_bind_ok.mp finished with ⟨-, pages⟩
  rw [List.map_eq_flatMap]
  refine (Run.of_foldlM_ok pages).flatMap fun s page t called => ?_
  rcases Exec.bind_ok.mp called with ⟨⟨st, after⟩, removed, rest⟩
  cases rest
  exact .single ⟨st, removed⟩

end

/-- A call removes exactly the rights that are given if and only if the page holds all the others and
    no other page loses one with it. In a run of such calls, also in that of
    `mm_enforce_ksections_perms`, the rights that were removed stay removed. -/
theorem mmRmPageFlags_exact_iff (kimg : KernelImage) (ps : PagingStruct) :
    (∀ tables vaddr flags, PageAligned vaddr → (entryOf kimg ps tables vaddr).isSome →
      ((∃ tables', mmRmPageFlags kimg vaddr flags ps tables = .ok (0, tables') ∧
        RemovesRights kimg ps vaddr flags tables tables') ↔ RightsRemovable kimg ps tables vaddr flags)) ∧
    (∀ tables calls tables',
      Run (fun s call t => RmStep kimg ps s call t ∧ call.Fits kimg ps s) tables calls tables' →
      ∀ x r, pageHas kimg ps tables' x r = true ↔
        pageHas kimg ps tables x r = true ∧ ∀ call ∈ calls, ¬call.takes x r) ∧
    ∀ sections tables tables', mmEnforceKsectionsPerms kimg sections ps tables = .ok tables' →
      Run (RmStep kimg ps) tables sections.calls tables' := by
  refine ⟨fun tables vaddr flags aligned mapped => ?_, fun tables calls tables' run x r => ?_,
    fun sections tables tables' done => mmEnforceKsectionsPerms_run done⟩
  · rcases Option.isSome_iff_exists.mp mapped with ⟨pte, here⟩
    exact mmRmPageFlags_removes_iff aligned here
  · exact run.takesAway (fun _ _ _ step => step.1.takesAway step.2) x r

def noSection : KimgSection := ⟨0, 0, by decide⟩

/-- A kernel image with one page of text. -/
def onePageOfText : KimgSections where
  bootloader := noSection
  text := ⟨0x1000, 0x2000, by decide⟩
  syscalls := noSection
  useraccess := noSection
  module := noSection
  init := noSection
  data := noSection
  roPostinit := noSection
  rodata := noSection
  bss := noSection
  ksyms := noSection

/-- A page that is present and writable loses the rights to execute and to user access. -/
theorem mmRmPageFlags_exact_iff_page : ∃ tables',
    (mmRmPageFlags ⟨0xc0000000⟩ 0x1000 (pageX ||| pageUser) onePageMapped.2.2.ps
        onePageMapped.2.2.tables = .ok (0, tables') ∧
      RemovesRights ⟨0xc0000000⟩ onePageMapped.2.2.ps 0x1000 (pageX ||| pageUser)
        onePageMapped.2.2.tables tables') ∧
    (∀ x r, pageHas ⟨0xc0000000⟩ onePageMapped.2.2.ps tables' x r = true ↔
      pageHas ⟨0xc0000000⟩ onePageMapped.2.2.ps onePageMapped.2.2.tables x r = true ∧
        ∀ call ∈ [⟨0x1000, pageX ||| pageUser⟩], ¬RmCall.takes call x r) ∧
    ∃ tables', Run (RmStep ⟨0xc0000000⟩ onePageMapped.2.2.ps) onePageMapped.2.2.tables
      onePageOfText.calls tables' := by
  have walk := (mapRun_entry (Run.single onePageMapped_step)).1
  have removable : RightsRemovable ⟨0xc0000000⟩ onePageMapped.2.2.ps onePageMapped.2.2.tables 0x1000
      (pageX ||| pageUser) := by
    rw [walk.rightsRemovable_iff (by decide)]
    rintro (_ | _ | _ | _) <;> decide
  rcases mmRmPageFlags_exact_iff ⟨0xc0000000⟩ onePageMapped.2.2.ps with ⟨exact_iff, runs, loops⟩
  rcases (exact_iff onePageMapped.2.2.tables 0x1000 (pageX ||| pageUser) (by decide) (by decide)).mpr
    removable with ⟨tables', call, removes⟩
  refine ⟨tables', ⟨call, removes⟩, ?_, _, loops onePageOfText _ _ rfl⟩
  exact runs _ _ _ (.single ⟨⟨0, call⟩, fun _ => removable⟩)

/-- Once the right to execute is removed, removing the right to write gives it back, and user access with
    it. -/
theorem mmRmPageFlags_adds : ∃ first second,
    mmRmPageFlags ⟨0xc0000000⟩ 0x1000 pageX onePageMapped.2.2.ps onePageMapped.2.2.tables =
      .ok (0, first) ∧
    mmRmPageFlags ⟨0xc0000000⟩ 0x1000 pageW onePageMapped.2.2.ps first = .ok (0, second) ∧
    pageHas ⟨0xc0000000⟩ onePageMapped.2.2.ps first 0x1000 .executable = false ∧
    pageHas ⟨0xc0000000⟩ onePageMapped.2.2.ps second 0x1000 .executable = true ∧
    pageHas ⟨0xc0000000⟩ onePageMapped.2.2.ps onePageMapped.2.2.tables 0x1000 .user = false ∧
    pageHas ⟨0xc0000000⟩ onePageMapped.2.2.ps second 0x1000 .user = true := by
  refine ⟨_, _, rfl, rfl, by decide, by decide, by decide, by decide⟩

end Dxgmx
