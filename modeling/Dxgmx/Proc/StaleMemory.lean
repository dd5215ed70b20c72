import Dxgmx.Elf.ElfReturns
import Dxgmx.Proc.AddressSpace

open Library

namespace Dxgmx

/-- The frames of the tracked pages are in use, and only they are stored to. -/
structure Lent (env : LoadEnv) (s : LoadState) : Prop where
  space : UserSpace env.kimg s.ps s.tables
  frames : ∀ p ∈ s.ps.allocatedPages, ∀ pte, presentEntry env.kimg s.ps s.tables p = some pte →
    s.falloc.available (pteFramePaddr pte) = false
  stores : ∀ store ∈ s.stores, s.falloc.available store.1 = false

/-- Pages stay tracked, and no frame becomes available. -/
structure Grows (s s' : LoadState) : Prop where
  pages : ∀ p ∈ s.ps.allocatedPages, p ∈ s'.ps.allocatedPages
  frames : ∀ g, s'.falloc.available g = true → s.falloc.available g = true

theorem Grows.refl (s : LoadState) : Grows s s := ⟨fun _ member => member, fun _ free => free⟩

theorem Grows.trans {s s' s'' : LoadState} (first : Grows s s') (second : Grows s' s'') :
    Grows s s'' :=
  ⟨fun p member => second.pages p (first.pages p member),
    fun g free => first.frames g (second.frames g free)⟩

theorem available_samePage {f g : Ptr} (same : SamePage f g) (falloc : Falloc) :
    falloc.available f = falloc.available g := by
  have word : frameWord f = frameWord g := by
    unfold SamePage at same
    apply Fin.ext
    show f.toNat / pageSize / 64 = g.toNat / pageSize / 64
    rw [same]
  have bit : frameBit f = frameBit g := by
    rw [frameBit_eq, frameBit_eq, same]
  unfold Falloc.available
  rw [word, bit]

theorem paddrOf_aligned (base : Nat) : PageAligned (paddrOf base) := by
  unfold PageAligned paddrOf pageSize
  rw [BitVec.toNat_ofNat]
  omega

theorem samePage_offset {frame : Ptr} (aligned : PageAligned frame) {off : Nat}
    (small : off < pageSize) : SamePage (frame + BitVec.ofNat 32 off) frame := by
  have bound := frame.isLt
  unfold PageAligned pageSize at *
  unfold SamePage pageSize
  rw [BitVec.toNat_add, BitVec.toNat_ofNat]
  omega

section

variable {env : LoadEnv} {s s' : LoadState}

/-- A store to a page of the process goes to a frame that is in use. -/
theorem Lent.storeTarget (lent : Lent env s) {addr paddr : Ptr}
    (target : storeTarget env addr s = .page paddr) : s.falloc.available paddr = false := by
  rw [storeTarget_eq lent.space.granted] at target
  split at target
  · split at target <;> cases target
  · rename_i pte here
    split at target
    · cases target
    · split at target
      · rename_i tracked
        cases target
        rw [presentEntry_samePage (samePage_pageBase addr)] at here
        have inside : SamePage (pteFramePaddr pte + BitVec.ofNat 32 (addr.toNat % pageSize))
            (pteFramePaddr pte) :=
          samePage_offset (paddrOf_aligned _) (Nat.mod_lt _ (by decide))
        rw [available_samePage inside]
        exact lent.frames _ tracked pte here
      · cases target

theorem Lent.store (lent : Lent env s) {paddr : Ptr} (used : s.falloc.available paddr = false)
    (byte : Byte) : Lent env (s.store paddr byte) := by
  refine ⟨lent.space, lent.frames, fun store member => ?_⟩
  rcases List.mem_cons.mp member with rfl | member
  · exact used
  · exact lent.stores store member

theorem userCopyToPages_lent {dest : Ptr} {src : Nat → Byte} {left i : Nat} {st : Int}
    (lent : Lent env s) (call : userCopyToPages env dest src left i s = .ok (st, s')) :
    Lent env s' ∧ Grows s s' := by
  induction left generalizing i s with
  | zero =>
    cases call
    exact ⟨lent, Grows.refl _⟩
  | succ left ih =>
    unfold userCopyToPages at call
    split at call
    · rename_i paddr target
      obtain ⟨lent', grows⟩ := ih (lent.store (lent.storeTarget target) (src i)) call
      exact ⟨lent', grows.pages, grows.frames⟩
    · cases call
    · cases call
      exact ⟨lent, Grows.refl _⟩

theorem memsetPages_lent {dest : Ptr} {left i : Nat} (lent : Lent env s)
    (call : memsetPages env dest left i s = .ok s') : Lent env s' ∧ Grows s s' := by
  induction left generalizing i s with
  | zero =>
    cases call
    exact ⟨lent, Grows.refl _⟩
  | succ left ih =>
    unfold memsetPages at call
    split at call
    · rename_i paddr target
      obtain ⟨lent', grows⟩ := ih (lent.store (lent.storeTarget target) 0) call
      exact ⟨lent', grows.pages, grows.frames⟩
    · cases call
    · cases call

/-- A page that the process gets, with the frame for it. -/
structure GotPage (env : LoadEnv) (vaddr : Ptr) (flags : BitVec 16) (s s' : LoadState) : Prop where
  lent : Lent env s'
  grows : Grows s s'
  page : vaddr ∈ s'.ps.allocatedPages
  stores : s'.stores = s.stores
  free : s.falloc.available (fallocOneUser s.falloc).1 = true
  aligned : PageAligned (fallocOneUser s.falloc).1
  present : presentEntry env.kimg s'.ps s'.tables vaddr =
    some (pageEntry (fallocOneUser s.falloc).1 (flags ||| pageUser))
  user : ∃ pde, pdeAt env.kimg s'.ps s'.tables (pdpteIdx vaddr) (pdeIdx vaddr) = some pde ∧
    pde.userAccess = true

theorem newUserPage_done {vaddr : Ptr} {flags : BitVec 16} {st : Int}
    (call : newUserPage env vaddr flags s = .ok (st, s')) (done : ¬ st < 0) :
    mmNewUserPage env.kimg ffreeOne (env.kmallocAligned s.tables.blocks)
        (env.track s.ps.allocatedPages) vaddr flags s.ps s.tables s.falloc =
      .ok (0, s'.ps, s'.tables, s'.falloc) ∧ s'.stores = s.stores := by
  obtain ⟨⟨st', ps', tables', falloc'⟩, mapped, rest⟩ := Exec.bind_ok.mp call
  dsimp only at rest
  split at rest
  · cases rest
  · cases rest
    obtain rfl : st = 0 := by
      rcases (mmNewUserPage_returns mapped).2 with ⟨-, error, -⟩ | ⟨-, error, -⟩ | ⟨-, zero, -⟩
      · omega
      · omega
      · exact zero
    exact ⟨mapped, rfl⟩

theorem newUserPage_got (fresh : ∀ tables : Tables,
      (env.kmallocAligned tables.blocks).Fresh env.kimg tables) (lent : Lent env s) {vaddr : Ptr}
    {flags : BitVec 16} {st : Int} (call : newUserPage env vaddr flags s = .ok (st, s'))
    (done : ¬ st < 0) : GotPage env vaddr flags s s' := by
  obtain ⟨mapped, stores⟩ := newUserPage_done call done
  have added := mmNewUserPage_added lent.space (fresh s.tables) mapped
  rcases fallocOneUser_cases added.took with ⟨zero, -⟩ | ⟨-, aligned, free, marked⟩
  · exact absurd zero added.frame
  · have shrinks (g : Ptr) (used : s.falloc.available g = false) :
        s'.falloc.available g = false := by
      rw [marked, used]
      rfl
    have page : PageAligned vaddr := (added.space.tracked vaddr ((added.pages _).mpr (.inl rfl))).1
    refine ⟨⟨added.space, fun p member pte here => ?_, fun store member => ?_⟩, ⟨?_, ?_⟩,
      (added.pages _).mpr (.inl rfl), stores, free, aligned, ?_, added.user⟩
    · rw [added.present] at here
      split at here
      · cases here
        rw [pteFramePaddr_pageEntry aligned, marked]
        simp
      · rename_i different
        apply shrinks
        rcases (added.pages p).mp member with rfl | old
        · exact absurd rfl different
        · exact lent.frames p old pte here
    · rw [stores] at member
      exact shrinks _ (lent.stores store member)
    · exact fun p member => (added.pages p).mpr (.inr member)
    · intro g still
      rw [marked, Bool.and_eq_true] at still
      exact still.1
    · exact (added.present vaddr).trans (if_pos rfl)

theorem mapPages_lent (fresh : ∀ tables : Tables,
      (env.kmallocAligned tables.blocks).Fresh env.kimg tables) (lent : Lent env s)
    {phdr : Elf32Phdr} {left i : Nat} {st : Int} (call : mapPages env phdr left i s = .ok (st, s'))
    (done : ¬ st < 0) :
    Lent env s' ∧ Grows s s' ∧ ∀ p ∈ phdr.pagesFrom left i, p ∈ s'.ps.allocatedPages := by
  induction left generalizing i s with
  | zero =>
    cases call
    exact ⟨lent, Grows.refl _, fun p member => absurd member List.not_mem_nil⟩
  | succ left ih =>
    obtain ⟨⟨st1, s1⟩, mapped, call⟩ := Exec.bind_ok.mp call
    dsimp only at call
    split at call
    · rename_i negative
      cases call
      exact absurd negative done
    · rename_i done1
      have got := newUserPage_got fresh lent mapped done1
      obtain ⟨lent', grows, tracked⟩ := ih got.lent call
      refine ⟨lent', got.grows.trans grows, fun p member => ?_⟩
      rw [pagesFrom_succ] at member
      rcases List.mem_cons.mp member with rfl | later
      · exact grows.pages _ got.page
      · exact tracked p later

theorem Lent.setFlags (lent : Lent env s) {page : Ptr} (tracked : page ∈ s.ps.allocatedPages)
    (flags : BitVec 16) :
    ∃ tables', mmSetPageFlagsArch env.kimg page flags s.ps s.tables = .ok (0, tables') ∧
      Lent env { s with tables := tables' } ∧ ∀ x, presentEntry env.kimg s.ps tables' x =
        if SamePage x page then (presentEntry env.kimg s.ps s.tables x).map (·.withFlags flags)
        else presentEntry env.kimg s.ps s.tables x := by
  obtain ⟨aligned, pte, present, frame⟩ := lent.space.tracked page tracked
  obtain ⟨tables', flagged, walk, granted, -, -, entries⟩ :=
    mmSetPageFlagsArch_spec lent.space.walk lent.space.granted aligned present frame flags
  refine ⟨tables', flagged, ⟨⟨walk, granted, lent.space.sorted, fun p member => ?_⟩,
    fun p member found there => ?_, lent.stores⟩, fun x => ?_⟩
  · obtain ⟨alignedP, old, presentP, frameP⟩ := lent.space.tracked p member
    refine ⟨alignedP, ?_⟩
    rw [entries]
    split
    · exact ⟨_, rfl, frame⟩
    · exact ⟨old, presentP, frameP⟩
  · dsimp only at there member ⊢
    rw [entries] at there
    split at there
    · cases there
      exact lent.frames page tracked pte present
    · exact lent.frames p member found there
  · rw [entries]
    split
    · rename_i same
      rw [presentEntry_samePage same, present]
      rfl
    · rfl

theorem setPagesFlags_lent (lent : Lent env s) {phdr : Elf32Phdr} {left i : Nat}
    (tracked : ∀ p ∈ phdr.pagesFrom left i, p ∈ s.ps.allocatedPages)
    (call : setPagesFlags env phdr left i s = .ok s') : Lent env s' ∧ Grows s s' := by
  induction left generalizing i s with
  | zero =>
    cases call
    exact ⟨lent, Grows.refl _⟩
  | succ left ih =>
    rw [pagesFrom_succ] at tracked
    obtain ⟨tables', flagged, lent1, -⟩ :=
      lent.setFlags (tracked _ List.mem_cons_self) (phdr.accessMode ||| pageUser)
    unfold setPagesFlags at call
    rw [flagged, Exec.ok_bind] at call
    dsimp only at call
    obtain ⟨-, call⟩ := assert_bind_ok.mp call
    obtain ⟨lent', grows⟩ := ih lent1 (fun p member => tracked p (List.mem_cons_of_mem _ member)) call
    exact ⟨lent', grows.pages, grows.frames⟩

theorem fillSection_lent (lent : Lent env s) {file : RamfsFile} {phdr : Elf32Phdr} {st : Int}
    (call : fillSection env file phdr s = .ok (st, s')) : Lent env s' ∧ Grows s s' := by
  rcases fillSection_cases call with ⟨rfl, -⟩ | ⟨-, -, -, _, copied⟩
  · exact ⟨lent, Grows.refl _⟩
  · exact userCopyToPages_lent lent copied

theorem padSection_lent (lent : Lent env s) {phdr : Elf32Phdr}
    (call : padSection env phdr s = .ok s') : Lent env s' ∧ Grows s s' := by
  unfold padSection at call
  split at call
  · exact memsetPages_lent lent call
  · cases call
    exact ⟨lent, Grows.refl _⟩

theorem loadPhdr_lent (fresh : ∀ tables : Tables,
      (env.kmallocAligned tables.blocks).Fresh env.kimg tables) (lent : Lent env s)
    {file : RamfsFile} {phdr : Elf32Phdr} {st : Int}
    (call : loadPhdr env file phdr s = .ok (st, s')) (done : ¬ st < 0) :
    Lent env s' ∧ Grows s s' := by
  by_cases load : phdr.type = 1
  · unfold loadPhdr at call
    rw [if_neg (not_not.mpr load)] at call
    obtain ⟨⟨st1, s1⟩, mapped, call⟩ := Exec.bind_ok.mp call
    dsimp only at call
    split at call
    · rename_i negative
      cases call
      exact absurd negative done
    · rename_i done1
      obtain ⟨lent1, grows1, tracked⟩ := mapPages_lent fresh lent mapped done1
      obtain ⟨⟨st2, s2⟩, filled, call⟩ := Exec.bind_ok.mp call
      obtain ⟨lent2, grows2⟩ := fillSection_lent lent1 filled
      dsimp only at call
      split at call
      · rename_i negative
        cases call
        exact absurd negative done
      · obtain ⟨s3, padded, call⟩ := Exec.bind_ok.mp call
        obtain ⟨lent3, grows3⟩ := padSection_lent lent2 padded
        obtain ⟨s4, flagged, call⟩ := Exec.bind_ok.mp call
        cases call
        obtain ⟨lent4, grows4⟩ := setPagesFlags_lent lent3
          (fun p member => grows3.pages p (grows2.pages p (tracked p member))) flagged
        exact ⟨lent4, ((grows1.trans grows2).trans grows3).trans grows4⟩
  · have skipped : loadPhdr env file phdr s = .ok (0, s) := if_pos load
    rw [skipped] at call
    cases call
    exact ⟨lent, Grows.refl _⟩

theorem loadPhdrs_lent (fresh : ∀ tables : Tables,
      (env.kmallocAligned tables.blocks).Fresh env.kimg tables) (lent : Lent env s)
    {file : RamfsFile} {phdrs : List Elf32Phdr} {st : Int}
    (call : loadPhdrs env file phdrs s = .ok (st, s')) (done : ¬ st < 0) :
    Lent env s' ∧ Grows s s' := by
  induction phdrs generalizing s with
  | nil =>
    cases call
    exact ⟨lent, Grows.refl _⟩
  | cons phdr rest ih =>
    obtain ⟨⟨st1, s1⟩, loaded, call⟩ := Exec.bind_ok.mp call
    dsimp only at call
    split at call
    · rename_i negative
      cases call
      exact absurd negative done
    · rename_i done1
      obtain ⟨lent1, grows1⟩ := loadPhdr_lent fresh lent loaded done1
      obtain ⟨lent2, grows2⟩ := ih lent1 call
      exact ⟨lent2, grows1.trans grows2⟩

theorem elfloaderLoadFromFile_lent (fresh : ∀ tables : Tables,
      (env.kmallocAligned tables.blocks).Fresh env.kimg tables) (lent : Lent env s)
    {file : RamfsFile} {st : Int} (call : elfloaderLoadFromFile env file s = .ok (st, s'))
    (done : ¬ st < 0) : Lent env s' ∧ Grows s s' := by
  have unchanged {result : Int} (same : (Except.ok (result, s) : Exec _) = .ok (st, s')) :
      Lent env s' ∧ Grows s s' := by
    cases same
    exact ⟨lent, Grows.refl _⟩
  unfold elfloaderLoadFromFile at call
  split at call
  · exact unchanged call
  · split at call
    · exact unchanged call
    · split at call
      · unfold elfloaderLoadFromFile32 at call
        split at call
        · exact unchanged call
        · split at call
          · exact unchanged call
          · split at call
            · exact unchanged call
            · obtain ⟨⟨st1, s1⟩, loaded, call⟩ := Exec.bind_ok.mp call
              dsimp only at call
              split at call
              · rename_i negative
                cases call
                exact absurd negative done
              · rename_i done1
                cases call
                obtain ⟨lent1, grows1⟩ := loadPhdrs_lent fresh lent loaded done1
                exact ⟨⟨lent1.space, lent1.frames, lent1.stores⟩, grows1.pages, grows1.frames⟩
      · split at call
        · cases call
        · exact unchanged call

theorem procCreateStackLoop_last (fresh : ∀ tables : Tables,
      (env.kmallocAligned tables.blocks).Fresh env.kimg tables) (lent : Lent env s) {left i : Nat}
    {st : Int} (call : procCreateStackLoop env (left + 1) i s = .ok (st, s')) (done : ¬ st < 0) :
    ∃ s1, Lent env s1 ∧ Grows s s1 ∧ GotPage env (procStackPage (i + left)) pageRW s1 s' := by
  induction left generalizing i s with
  | zero =>
    obtain ⟨⟨st1, s1⟩, mapped, call⟩ := Exec.bind_ok.mp call
    dsimp only at call
    split at call
    · rename_i negative
      cases call
      exact absurd negative done
    · rename_i done1
      cases call
      exact ⟨s, lent, Grows.refl s, newUserPage_got fresh lent mapped done1⟩
  | succ left ih =>
    obtain ⟨⟨st1, s1⟩, mapped, call⟩ := Exec.bind_ok.mp call
    dsimp only at call
    split at call
    · rename_i negative
      cases call
      exact absurd negative done
    · rename_i done1
      have got := newUserPage_got fresh lent mapped done1
      obtain ⟨s2, lent2, grows, last⟩ := ih got.lent call
      rw [Nat.add_right_comm] at last
      exact ⟨s2, lent2, got.grows.trans grows, last⟩

theorem memory_untouched {paddr : Ptr} (untouched : ∀ store ∈ s.stores, store.1 ≠ paddr)
    (before : Ptr → Byte) : s.memory before paddr = before paddr := by
  unfold LoadState.memory
  rw [List.find?_eq_none.mpr]
  intro store member
  simpa using untouched store member

/-- A page that was just got shows user space what its frame held. -/
theorem GotPage.userByte {s1 : LoadState} {vaddr : Ptr} {flags : BitVec 16} (lent : Lent env s1)
    (got : GotPage env vaddr flags s1 s') (before : Ptr → Byte) :
    userByte env s' before vaddr = some (before (fallocOneUser s1.falloc).1) := by
  obtain ⟨pde, walk, -⟩ := mmuWalk_present got.lent.space.granted got.present
  obtain ⟨pde', above, user⟩ := got.user
  cases above.symm.trans (mmuWalk_some walk).2
  have page : vaddr.toNat % pageSize = 0 := (got.lent.space.tracked vaddr got.page).1
  have access : (pageEntry (fallocOneUser s1.falloc).1 (flags ||| pageUser)).userAccess = true :=
    decide_eq_true (flags_user flags)
  unfold Dxgmx.userByte
  rw [walk]
  dsimp only
  rw [user, access, page, pteFramePaddr_pageEntry got.aligned, BitVec.add_zero, memory_untouched]
  · rfl
  · intro store member same
    rw [got.stores] at member
    have used := lent.stores store member
    rw [same, got.free] at used
    cases used

end

/-- The last page of the stack is never stored to, and shows what its frame held. -/
theorem procCreateAddressSpace_stack {env : AddressSpaceEnv} {tables : Tables} {falloc : Falloc}
    (walk : WalkInv env.kimg (mappedKernel env tables falloc).ps tables)
    (granted : Granted env.kimg (mappedKernel env tables falloc).ps tables)
    (fresh : ∀ tables : Tables, (env.kmallocAligned tables.blocks).Fresh env.kimg tables)
    {s : LoadState} (call : env.procCreateAddressSpace tables falloc = .ok (0, s)) :
    ∃ frame, falloc.available frame = true ∧
      ∀ before, userByte env.toLoadEnv s before (procStackPage 1) = some (before frame) := by
  have lent : Lent env.toLoadEnv (mappedKernel env tables falloc) :=
    ⟨⟨walk, granted, List.Pairwise.nil, fun p member => absurd member List.not_mem_nil⟩,
      fun p member => absurd member List.not_mem_nil,
      fun store member => absurd member List.not_mem_nil⟩
  unfold AddressSpaceEnv.procCreateAddressSpace at call
  dsimp only at call
  split at call
  · cases call
  · obtain ⟨⟨st1, s1⟩, loaded, call⟩ := Exec.bind_ok.mp call
    dsimp only at call
    split at call
    · rename_i negative
      cases call
      exact absurd negative (by decide)
    · rename_i done1
      have first : Lent env.toLoadEnv s1 ∧ Grows (mappedKernel env tables falloc) s1 := by
        unfold AddressSpaceEnv.procLoadFromFile at loaded
        split at loaded
        · cases loaded
          exact ⟨lent, Grows.refl _⟩
        · exact elfloaderLoadFromFile_lent fresh lent loaded done1
      obtain ⟨⟨st2, s2⟩, stack, call⟩ := Exec.bind_ok.mp call
      dsimp only at call
      split at call
      · rename_i negative
        cases call
        exact absurd negative (by decide)
      · rename_i done2
        cases call
        obtain ⟨s3, lent3, grows3, last⟩ := procCreateStackLoop_last fresh first.1 stack done2
        have free : falloc.available (fallocOneUser s3.falloc).1 = true :=
          (first.2.trans grows3).frames _ last.free
        exact ⟨_, free, last.userByte lent3⟩

theorem not_noStaleMemory {env : LoadEnv} {falloc : Falloc} {s : LoadState} {addr frame : Ptr}
    (free : falloc.available frame = true)
    (shows : ∀ before, userByte env s before addr = some (before frame)) :
    ¬ NoStaleMemory env falloc s := by
  intro same
  have outside : ∀ paddr, falloc.available paddr = false →
      (0 : Byte) = Function.update (fun _ : Ptr => (0 : Byte)) frame 1 paddr := by
    intro paddr used
    rw [Function.update_of_ne]
    rintro rfl
    rw [free] at used
    cases used
  have agree := same (fun _ => 0) _ outside addr
  rw [shows, shows, Function.update_self] at agree
  exact absurd agree (by decide)

/-- No successful run keeps what the free frames held from the new process. -/
theorem procCreateAddressSpace_stale {env : AddressSpaceEnv} {tables : Tables} {falloc : Falloc}
    (walk : WalkInv env.kimg (mappedKernel env tables falloc).ps tables)
    (granted : Granted env.kimg (mappedKernel env tables falloc).ps tables)
    (fresh : ∀ tables : Tables, (env.kmallocAligned tables.blocks).Fresh env.kimg tables)
    {s : LoadState} (call : env.procCreateAddressSpace tables falloc = .ok (0, s)) :
    ¬ NoStaleMemory env.toLoadEnv falloc s := by
  obtain ⟨frame, free, shows⟩ := procCreateAddressSpace_stack walk granted fresh call
  exact not_noStaleMemory free shows

/-- The kernel starts the executable of two segments. -/
def twoSegments : AddressSpaceEnv :=
  { roomyEnv with
    pagingStruct := true
    allocatedPages := true
    pdpt := true
    kimgVaddr := 0xc0100000
    kernelPdpt := pdptInit
    opened := .ok (execFile [textPhdr, dataPhdr]) }

theorem twoSegments_started :
    ∃ s, twoSegments.procCreateAddressSpace freshProcess.tables freshProcess.falloc =
      .ok (0, s) := by
  have status : (twoSegments.procCreateAddressSpace freshProcess.tables
      freshProcess.falloc).map Prod.fst = .ok 0 := by decide +kernel
  exact Exec.of_status status

theorem twoSegments_pdAt (i : Fin 4) :
    pdAt twoSegments.kimg (mappedKernel twoSegments freshProcess.tables freshProcess.falloc).ps i =
      none := by
  show pdAt _ (PagingStruct.setPdpte mmInitPagingStruct _ _) i = none
  rw [pdAt_setPdpte]
  split
  · exact tableVaddr_zero
  · exact pdAt_init _ i

theorem twoSegments_walk : WalkInv twoSegments.kimg
    (mappedKernel twoSegments freshProcess.tables freshProcess.falloc).ps freshProcess.tables where
  pdBlock := by
    intro i b here
    rw [twoSegments_pdAt] at here
    cases here
  ptBlock := by
    intro i j b here
    rw [ptAt_none (twoSegments_pdAt i)] at here
    cases here
  pdInj := by
    intro i i' b here
    rw [twoSegments_pdAt] at here
    cases here
  ptInj := by
    intro i j i' j' b here
    rw [ptAt_none (twoSegments_pdAt i)] at here
    cases here

theorem twoSegments_granted : Granted twoSegments.kimg
    (mappedKernel twoSegments freshProcess.tables freshProcess.falloc).ps freshProcess.tables where
  pdpte := by
    intro i j k pte here
    obtain ⟨pt, table, -⟩ := pteAt_table here
    rw [ptAt_none (twoSegments_pdAt i)] at table
    cases table
  pde := by
    intro i j k pte here
    obtain ⟨pt, table, -⟩ := pteAt_table here
    rw [ptAt_none (twoSegments_pdAt i)] at table
    cases table

theorem twoSegments_fresh (tables : Tables) :
    (twoSegments.kmallocAligned tables.blocks).Fresh twoSegments.kimg tables := by
  have same : twoSegments.toLoadEnv = roomyEnv := rfl
  rw [same]
  exact roomyEnv_fresh tables

theorem procCreateAddressSpace_stale_two :
    ∃ s, twoSegments.procCreateAddressSpace freshProcess.tables freshProcess.falloc = .ok (0, s) ∧
      ¬ NoStaleMemory twoSegments.toLoadEnv freshProcess.falloc s := by
  obtain ⟨s, call⟩ := twoSegments_started
  exact ⟨s, call, procCreateAddressSpace_stale twoSegments_walk twoSegments_granted
    twoSegments_fresh call⟩

theorem twoSegments_stack :
    ¬ ∀ s, twoSegments.procCreateAddressSpace freshProcess.tables freshProcess.falloc = .ok (0, s) →
      NoStaleMemory twoSegments.toLoadEnv freshProcess.falloc s := by
  intro claim
  obtain ⟨s, call⟩ := twoSegments_started
  obtain ⟨frame, free, shows⟩ := procCreateAddressSpace_stack twoSegments_walk twoSegments_granted
    twoSegments_fresh call
  exact not_noStaleMemory free shows (claim s call)

end Dxgmx
