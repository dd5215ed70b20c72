import Dxgmx.Proc.StaleMemory

open Library

namespace Dxgmx

/-- The addresses that a copy to `dest` stores to, the first that is no page of the process with
    them. -/
def touched (env : LoadEnv) (s : LoadState) (dest : Ptr) : (left i : Nat) → List Ptr
  | 0, _ => []
  | left + 1, i =>
    (dest + BitVec.ofNat 32 i) ::
      match storeTarget env (dest + BitVec.ofNat 32 i) s with
      | .page _ => touched env s dest left (i + 1)
      | _ => []

attribute [grind =] touched

/-- The addresses that `loadPhdr` stores to. -/
def segmentWrites (env : LoadEnv) (file : RamfsFile) (phdr : Elf32Phdr) (s : LoadState) : List Ptr :=
  match mapPages env phdr phdr.pagespan 0 s with
  | .error _ => []
  | .ok (st, s) =>
    if st < 0 then []
    else
      touched env s phdr.vaddr (sectionCount file phdr) 0 ++
        match fillSection env file phdr s with
        | .error _ => []
        | .ok (st, s) =>
          if st < 0 then [] else touched env s (phdr.vaddr + phdr.filesize) (paddingCount phdr) 0

/-- Neither the length of the mapped part nor the address of a page exceeds 32 bits. -/
structure PagesUnwrapped (phdr : Elf32Phdr) : Prop where
  length : phdr.memsize.toNat + (phdr.vaddr - phdr.alignedStart).toNat < 2 ^ 32
  pages : ∀ i < phdr.pagespan, phdr.alignedStart.toNat + i * pageSize < 2 ^ 32

/-- Where the pages of the segment end that `memsize` asks for. -/
def Elf32Phdr.pagesEnd (phdr : Elf32Phdr) : Nat :=
  (phdr.vaddr.toNat + phdr.memsize.toNat + 4095) / 4096 * 4096

/-- The segment ends with the address space at the latest, and what the file has of the section ends
    with the pages at the latest, unless they are the whole address space. -/
structure SegmentCovered (file : RamfsFile) (phdr : Elf32Phdr) : Prop where
  ends : phdr.vaddr.toNat + phdr.memsize.toNat ≤ 2 ^ 32
  length : phdr.vaddr.toNat < 4096 → phdr.vaddr.toNat + phdr.memsize.toNat < 2 ^ 32
  copied : phdr.vaddr.toNat + sectionCount file phdr ≤ phdr.pagesEnd ∨
    phdr.vaddr.toNat < 4096 ∧ phdr.pagesEnd = 2 ^ 32

/-- The loader comes to the program header in the state `s`. -/
def LoaderReaches (env : LoadEnv) (file : RamfsFile) (start : LoadState) (phdr : Elf32Phdr)
    (s : LoadState) : Prop :=
  ∃ before rest, programHeaders file = before ++ phdr :: rest ∧
    loadPhdrs env file before start = .ok (0, s)

section Pages

variable {phdr : Elf32Phdr}

theorem vaddr_sub_alignedStart (phdr : Elf32Phdr) :
    (phdr.vaddr - phdr.alignedStart).toNat = phdr.vaddr.toNat % 4096 := by
  have aligned := alignedStart_toNat phdr
  rw [BitVec.toNat_sub_of_le (by rw [BitVec.le_def, aligned]; omega), aligned]
  omega

theorem pagespan_unwrapped
    (length : phdr.memsize.toNat + (phdr.vaddr - phdr.alignedStart).toNat < 2 ^ 32) :
    phdr.alignedStart.toNat + phdr.pagespan * 4096 = phdr.pagesEnd := by
  rw [vaddr_sub_alignedStart] at length
  have sum : (phdr.memsize + (phdr.vaddr - phdr.alignedStart)).toNat =
      phdr.memsize.toNat + phdr.vaddr.toNat % 4096 := by
    rw [BitVec.toNat_add, vaddr_sub_alignedStart, Nat.mod_eq_of_lt length]
  rw [pagespan_eq, sum, alignedStart_toNat]
  unfold Elf32Phdr.pagesEnd
  omega

theorem pagesUnwrapped_iff (phdr : Elf32Phdr) : PagesUnwrapped phdr ↔
    phdr.vaddr.toNat + phdr.memsize.toNat ≤ 2 ^ 32 ∧
      (phdr.vaddr.toNat < 4096 → phdr.vaddr.toNat + phdr.memsize.toNat < 2 ^ 32) := by
  have start := alignedStart_toNat phdr
  have bound := phdr.vaddr.isLt
  constructor
  · rintro ⟨length, pages⟩
    have last := pagespan_unwrapped length
    rw [vaddr_sub_alignedStart] at length
    unfold Elf32Phdr.pagesEnd pageSize at *
    cases span : phdr.pagespan with
    | zero => omega
    | succ n =>
      have inside := pages n (by omega)
      omega
  · rintro ⟨ends, low⟩
    have length : phdr.memsize.toNat + (phdr.vaddr - phdr.alignedStart).toNat < 2 ^ 32 := by
      rw [vaddr_sub_alignedStart]
      omega
    have last := pagespan_unwrapped length
    refine ⟨length, fun i inside => ?_⟩
    unfold Elf32Phdr.pagesEnd at last
    unfold pageSize
    omega

theorem mem_pages_iff (unwrapped : PagesUnwrapped phdr) (x : Ptr) :
    pageBase x ∈ phdr.pages ↔ phdr.alignedStart.toNat ≤ x.toNat ∧ x.toNat < phdr.pagesEnd := by
  have start := alignedStart_toNat phdr
  have last := pagespan_unwrapped unwrapped.length
  unfold Elf32Phdr.pages Elf32Phdr.pagesFrom
  rw [List.mem_map]
  constructor
  · rintro ⟨i, inside, same⟩
    have less := (List.mem_range'_1.mp inside).2
    have small := unwrapped.pages i (by omega)
    have value := congrArg BitVec.toNat same
    rw [page_toNat, pageBase_toNat] at value
    unfold pageSize at *
    rw [Nat.mod_eq_of_lt small] at value
    omega
  · rintro ⟨low, high⟩
    refine ⟨(x.toNat - phdr.alignedStart.toNat) / 4096, List.mem_range'_1.mpr ⟨Nat.zero_le _, ?_⟩, ?_⟩
    · omega
    · apply BitVec.eq_of_toNat_eq
      rw [page_toNat, pageBase_toNat]
      unfold pageSize
      omega

theorem copied_iff (unwrapped : PagesUnwrapped phdr) {count : Nat} (small : count < 2 ^ 32) :
    (∀ k < count, pageBase (phdr.vaddr + BitVec.ofNat 32 (0 + k)) ∈ phdr.pages) ↔
      phdr.vaddr.toNat + count ≤ phdr.pagesEnd ∨
        phdr.vaddr.toNat < 4096 ∧ phdr.pagesEnd = 2 ^ 32 := by
  have start := alignedStart_toNat phdr
  have bound := phdr.vaddr.isLt
  have ends := ((pagesUnwrapped_iff phdr).mp unwrapped).1
  have high : phdr.vaddr.toNat ≤ phdr.pagesEnd ∧ phdr.pagesEnd ≤ 2 ^ 32 := by
    unfold Elf32Phdr.pagesEnd
    omega
  have value (k : Nat) :
      (phdr.vaddr + BitVec.ofNat 32 (0 + k)).toNat = (phdr.vaddr.toNat + k) % 2 ^ 32 := by
    rw [BitVec.toNat_add, BitVec.toNat_ofNat, Nat.add_mod_mod, Nat.zero_add]
  simp only [mem_pages_iff unwrapped, value]
  constructor
  · intro inside
    by_contra outside
    -- the first byte behind the pages
    have first := inside (phdr.pagesEnd - phdr.vaddr.toNat) (by omega)
    omega
  · rintro (short | ⟨low, whole⟩) k less
    · omega
    · omega

end Pages

section Writes

variable {env : LoadEnv} {s s' : LoadState} {file : RamfsFile} {phdr : Elf32Phdr}

theorem mem_touched {dest x : Ptr} {left i : Nat} (member : x ∈ touched env s dest left i) :
    ∃ k < left, x = dest + BitVec.ofNat 32 (i + k) := by
  induction left generalizing i with
  | zero => cases member
  | succ left ih =>
    unfold touched at member
    rcases List.mem_cons.mp member with rfl | later
    · exact ⟨0, Nat.succ_pos left, rfl⟩
    · split at later
      · obtain ⟨k, less, rfl⟩ := ih later
        refine ⟨k + 1, Nat.succ_lt_succ less, ?_⟩
        rw [Nat.add_right_comm]
        rfl
      · cases later

theorem touched_inside_iff {pages : List Ptr} (stored : ∀ x, pageBase x ∈ pages → Stored env s x)
    {dest : Ptr} {left i : Nat} :
    (∀ x ∈ touched env s dest left i, pageBase x ∈ pages) ↔
      ∀ k < left, pageBase (dest + BitVec.ofNat 32 (i + k)) ∈ pages := by
  constructor
  · intro inside
    induction left generalizing i with
    | zero =>
      intro k less
      cases less
    | succ left ih =>
      unfold touched at inside
      have first := inside _ List.mem_cons_self
      obtain ⟨paddr, target⟩ := stored _ first
      rw [target] at inside
      intro k less
      cases k with
      | zero => exact first
      | succ k =>
        have later := ih (fun x member => inside x (List.mem_cons_of_mem _ member)) k
          (Nat.lt_of_succ_lt_succ less)
        rw [Nat.add_right_comm] at later
        exact later
  · intro inside x member
    obtain ⟨k, less, rfl⟩ := mem_touched member
    exact inside k less

theorem storeTarget_congr (ps : s'.ps = s.ps) (tables : s'.tables = s.tables) (x : Ptr) :
    storeTarget env x s' = storeTarget env x s := by
  unfold storeTarget
  rw [ps, tables]

theorem touched_congr (ps : s'.ps = s.ps) (tables : s'.tables = s.tables) (dest : Ptr)
    (left i : Nat) : touched env s' dest left i = touched env s dest left i := by
  induction left generalizing i with
  | zero => rfl
  | succ left ih =>
    unfold touched
    rw [ih, storeTarget_congr ps tables]

/-- Where in physical memory the stores to the addresses go. -/
def LoadState.targets (env : LoadEnv) (s : LoadState) (addrs : List Ptr) : List Ptr :=
  addrs.filterMap fun addr =>
    match storeTarget env addr s with
    | .page paddr => some paddr
    | _ => none

theorem targets_page {addr paddr : Ptr} (target : storeTarget env addr s = .page paddr)
    (addrs : List Ptr) : s.targets env (addr :: addrs) = paddr :: s.targets env addrs :=
  List.filterMap_cons_some (by rw [target])

theorem targets_fault {addr : Ptr} (target : storeTarget env addr s = .fault) (addrs : List Ptr) :
    s.targets env (addr :: addrs) = s.targets env addrs :=
  List.filterMap_cons_none (by rw [target])

theorem userCopyToPages_touched {dest : Ptr} {src : Nat → Byte} {left i : Nat} {st : Int}
    (call : userCopyToPages env dest src left i s = .ok (st, s')) :
    s'.ps = s.ps ∧ s'.tables = s.tables ∧ s'.stores.map Prod.fst =
      (s.targets env (touched env s dest left i)).reverse ++ s.stores.map Prod.fst := by
  induction left generalizing i s with
  | zero =>
    cases call
    exact ⟨rfl, rfl, rfl⟩
  | succ left ih =>
    unfold userCopyToPages at call
    unfold touched
    split at call
    · rename_i paddr target
      obtain ⟨ps, tables, stores⟩ := ih call
      rw [@touched_congr env s (s.store paddr (src i)) rfl rfl] at stores
      refine ⟨ps, tables, ?_⟩
      rw [target, stores, targets_page target, List.reverse_cons, List.append_assoc]
      rfl
    · cases call
    · rename_i target
      cases call
      rw [target, targets_fault target]
      exact ⟨rfl, rfl, rfl⟩

theorem targets_congr (ps : s'.ps = s.ps) (tables : s'.tables = s.tables) (addrs : List Ptr) :
    s'.targets env addrs = s.targets env addrs := by
  unfold LoadState.targets
  simp only [storeTarget_congr ps tables]

/-- A `memset` that comes to its end is a copy of zeros. -/
theorem memsetPages_copy {dest : Ptr} {left i : Nat}
    (call : memsetPages env dest left i s = .ok s') :
    userCopyToPages env dest (fun _ => 0) left i s = .ok (0, s') := by
  induction left generalizing i s with
  | zero =>
    cases call
    rfl
  | succ left ih =>
    unfold memsetPages at call
    unfold userCopyToPages
    split at call
    · exact ih call
    · cases call
    · cases call

theorem fillSection_touched {st : Int} (call : fillSection env file phdr s = .ok (st, s')) :
    s'.ps = s.ps ∧ s'.tables = s.tables ∧ s'.stores.map Prod.fst =
      (s.targets env (touched env s phdr.vaddr (sectionCount file phdr) 0)).reverse ++
        s.stores.map Prod.fst := by
  rcases fillSection_cases call with ⟨rfl, none_, -⟩ | ⟨-, -, -, _, copied⟩
  · rw [none_]
    exact ⟨rfl, rfl, rfl⟩
  · exact userCopyToPages_touched copied

theorem padSection_touched (call : padSection env phdr s = .ok s') :
    s'.ps = s.ps ∧ s'.tables = s.tables ∧ s'.stores.map Prod.fst =
      (s.targets env (touched env s (phdr.vaddr + phdr.filesize) (paddingCount phdr) 0)).reverse ++
        s.stores.map Prod.fst := by
  unfold padSection at call
  unfold paddingCount
  split at call
  · rename_i longer
    rw [if_pos longer]
    exact userCopyToPages_touched (memsetPages_copy call)
  · rename_i full
    cases call
    rw [if_neg full]
    exact ⟨rfl, rfl, rfl⟩

theorem mapPages_stores {left i : Nat} {st : Int}
    (call : mapPages env phdr left i s = .ok (st, s')) : s'.stores = s.stores ∧ st ≤ 0 := by
  induction left generalizing i s with
  | zero =>
    cases call
    exact ⟨rfl, Int.le_refl 0⟩
  | succ left ih =>
    obtain ⟨⟨st1, s1⟩, mapped, call⟩ := Exec.bind_ok.mp call
    have kept : s1.stores = s.stores := by
      obtain ⟨⟨st', ps', tables', falloc'⟩, -, mapped⟩ := Exec.bind_ok.mp mapped
      dsimp only at mapped
      split at mapped
      · cases mapped
      · cases mapped
        rfl
    dsimp only at call
    split at call
    · cases call
      exact ⟨kept, by omega⟩
    · obtain ⟨stores, status⟩ := ih call
      exact ⟨stores.trans kept, status⟩

theorem setPagesFlags_stores {left i : Nat} (call : setPagesFlags env phdr left i s = .ok s') :
    s'.stores = s.stores := by
  induction left generalizing i s with
  | zero =>
    cases call
    rfl
  | succ left ih =>
    obtain ⟨⟨st, tables⟩, -, call⟩ := Exec.bind_ok.mp call
    have stores := ih (assert_bind_ok.mp call).2
    exact stores

/-- The bytes that a segment has stored are those that its writes have reached pages with. -/
theorem loadPhdr_touched {st : Int} (load : phdr.type = 1)
    (call : loadPhdr env file phdr s = .ok (st, s')) :
    ∃ st1 s1, mapPages env phdr phdr.pagespan 0 s = .ok (st1, s1) ∧ s'.stores.map Prod.fst =
      (s1.targets env (segmentWrites env file phdr s)).reverse ++ s.stores.map Prod.fst := by
  unfold loadPhdr at call
  rw [if_neg (not_not.mpr load)] at call
  obtain ⟨⟨st1, s1⟩, mapped, call⟩ := Exec.bind_ok.mp call
  refine ⟨st1, s1, mapped, ?_⟩
  rw [← (mapPages_stores mapped).1]
  unfold segmentWrites
  rw [mapped]
  dsimp only at call ⊢
  split at call
  · rename_i failed
    cases call
    rw [if_pos failed]
    rfl
  · rename_i done
    rw [if_neg done]
    obtain ⟨⟨st2, s2⟩, filled, call⟩ := Exec.bind_ok.mp call
    obtain ⟨ps2, tables2, stores2⟩ := fillSection_touched filled
    rw [filled]
    dsimp only at call ⊢
    split at call
    · rename_i failed
      cases call
      rw [if_pos failed, List.append_nil]
      exact stores2
    · rename_i done2
      rw [if_neg done2]
      obtain ⟨s3, padded, call⟩ := Exec.bind_ok.mp call
      obtain ⟨-, -, stores3⟩ := padSection_touched padded
      obtain ⟨s4, flagged, call⟩ := Exec.bind_ok.mp call
      cases call
      rw [targets_congr ps2 tables2] at stores3
      rw [setPagesFlags_stores flagged, stores3, stores2, LoadState.targets, LoadState.targets,
        LoadState.targets, List.filterMap_append, List.reverse_append, List.append_assoc]

end Writes

/-- New pages, each with a frame of its own. -/
structure PagesMapped (env : LoadEnv) (pages : List Ptr) (flags : BitVec 16) (s s' : LoadState) :
    Prop where
  lent : Lent env s'
  tracked : ∀ p, p ∈ s'.ps.allocatedPages ↔ p ∈ pages ∨ p ∈ s.ps.allocatedPages
  new : ∀ p ∈ pages, p ∉ s.ps.allocatedPages
  own : ∀ p ∈ pages, ∃ frame, PageAligned frame ∧
    presentEntry env.kimg s'.ps s'.tables p = some (pageEntry frame (flags ||| pageUser))
  others : ∀ x, pageBase x ∉ pages →
    presentEntry env.kimg s'.ps s'.tables x = presentEntry env.kimg s.ps s.tables x

section Mapped

variable {env : LoadEnv} {start s s1 : LoadState} {file : RamfsFile} {phdr : Elf32Phdr}

theorem mapPages_mapped (fresh : ∀ tables : Tables,
      (env.kmallocAligned tables.blocks).Fresh env.kimg tables) (lent : Lent env s) {left i : Nat}
    (call : mapPages env phdr left i s = .ok (0, s1)) :
    PagesMapped env (phdr.pagesFrom left i) (phdr.accessMode ||| pageW) s s1 := by
  induction left generalizing i s with
  | zero =>
    cases call
    exact ⟨lent, fun p => by simp [Elf32Phdr.pagesFrom],
      fun p member => absurd member List.not_mem_nil, fun p member => absurd member List.not_mem_nil,
      fun _ _ => rfl⟩
  | succ left ih =>
    obtain ⟨⟨st2, s2⟩, mapped, call⟩ := Exec.bind_ok.mp call
    dsimp only at call
    split at call
    · rename_i negative
      cases call
      exact absurd negative (by decide)
    · rename_i done
      have got := newUserPage_got fresh lent mapped done
      have added := mmNewUserPage_added lent.space (fresh s.tables) (newUserPage_done mapped done).1
      have rest := ih got.lent call
      rw [pagesFrom_succ]
      have apart : phdr.page i ∉ phdr.pagesFrom left (i + 1) :=
        fun member => rest.new _ member got.page
      refine ⟨rest.lent, fun p => ?_, fun p member => ?_, fun p member => ?_, fun x outside => ?_⟩
      · rw [rest.tracked, added.pages, List.mem_cons, or_left_comm, or_assoc]
      · rcases List.mem_cons.mp member with rfl | later
        · exact added.new
        · exact fun old => rest.new p later ((added.pages p).mpr (.inr old))
      · rcases List.mem_cons.mp member with rfl | later
        · refine ⟨_, got.aligned, ?_⟩
          rw [rest.others _ (by rw [(pageBase_eq (page_aligned phdr i)).mpr rfl]; exact apart)]
          exact got.present
        · exact rest.own p later
      · rw [List.mem_cons, not_or] at outside
        rw [rest.others x outside.2, added.present, if_neg]
        exact fun same => outside.1 ((pageBase_eq (page_aligned phdr i)).mpr same)

theorem PagesMapped.stored {pages : List Ptr} {flags : BitVec 16}
    (mapped : PagesMapped env pages flags s s1) (writable : flags &&& pageW ≠ 0) {x : Ptr}
    (inside : pageBase x ∈ pages) : Stored env s1 x := by
  obtain ⟨frame, aligned, here⟩ := mapped.own _ inside
  have flag : (pageEntry frame (flags ||| pageUser)).writable = true := by
    unfold pageEntry
    rw [flags_pageUser]
    exact decide_eq_true writable
  rw [← presentEntry_samePage (samePage_pageBase x)] at here
  unfold Stored
  rw [storeTarget_eq mapped.lent.space.granted, here]
  dsimp only
  rw [flag, if_neg (by decide), if_pos ((mapped.tracked _).mpr (.inl inside))]
  exact ⟨_, rfl⟩

theorem sectionCount_lt (file : RamfsFile) (phdr : Elf32Phdr) : sectionCount file phdr < 2 ^ 32 := by
  have bound := phdr.filesize.isLt
  have count := readCount_le file phdr.filesize phdr.offset
  unfold sectionCount
  split <;> omega

theorem padding_inside (unwrapped : PagesUnwrapped phdr) {k : Nat} (inside : k < paddingCount phdr) :
    pageBase (phdr.vaddr + phdr.filesize + BitVec.ofNat 32 (0 + k)) ∈ phdr.pages := by
  have start := alignedStart_toNat phdr
  have ends := ((pagesUnwrapped_iff phdr).mp unwrapped).1
  unfold paddingCount at inside
  split at inside
  · rename_i longer
    rw [BitVec.lt_def] at longer
    rw [BitVec.toNat_sub_of_le (by rw [BitVec.le_def]; omega)] at inside
    rw [mem_pages_iff unwrapped, BitVec.toNat_add, BitVec.toNat_add, BitVec.toNat_ofNat]
    unfold Elf32Phdr.pagesEnd
    omega
  · cases inside

theorem segmentWrites_unmapped (failed : ∀ s1, mapPages env phdr phdr.pagespan 0 s ≠ .ok (0, s1)) :
    segmentWrites env file phdr s = [] := by
  unfold segmentWrites
  cases mapped : mapPages env phdr phdr.pagespan 0 s with
  | error stop => rfl
  | ok result =>
    obtain ⟨st, s1⟩ := result
    dsimp only
    rw [if_pos]
    rcases Int.lt_or_eq_of_le (mapPages_stores mapped).2 with negative | rfl
    · exact negative
    · exact absurd mapped (failed s1)

theorem segmentWrites_mapped (mapped : mapPages env phdr phdr.pagespan 0 s = .ok (0, s1)) :
    ∃ rest, segmentWrites env file phdr s =
        touched env s1 phdr.vaddr (sectionCount file phdr) 0 ++ rest ∧
      ∀ x ∈ rest, ∃ k < paddingCount phdr,
        x = phdr.vaddr + phdr.filesize + BitVec.ofNat 32 (0 + k) := by
  unfold segmentWrites
  rw [mapped]
  dsimp only
  rw [if_neg (by decide)]
  refine ⟨_, rfl, fun x member => ?_⟩
  split at member
  · cases member
  · split at member
    · cases member
    · exact mem_touched member

/-- What is stored for a program header goes to the pages mapped for it exactly when the segment is
    covered by them. -/
theorem segmentWrites_inside_iff (fresh : ∀ tables : Tables,
      (env.kmallocAligned tables.blocks).Fresh env.kimg tables) (lent : Lent env start)
    (reached : LoaderReaches env file start phdr s) :
    ((∀ s1, mapPages env phdr phdr.pagespan 0 s ≠ .ok (0, s1)) →
      segmentWrites env file phdr s = []) ∧
    ∀ s1, mapPages env phdr phdr.pagespan 0 s = .ok (0, s1) →
      ((∀ x ∈ segmentWrites env file phdr s, pageBase x ∈ phdr.pages) ∧ PagesUnwrapped phdr ↔
        SegmentCovered file phdr) := by
  refine ⟨segmentWrites_unmapped, fun s1 mapped => ?_⟩
  obtain ⟨before, rest, -, loaded⟩ := reached
  have lent' := (loadPhdrs_lent fresh lent loaded (by decide)).1
  have pages := mapPages_mapped fresh lent' mapped
  have writable : (phdr.accessMode ||| pageW) &&& pageW ≠ 0 := of_decide_eq_true (decide_pageW _)
  have copy := @touched_inside_iff env s1 phdr.pages (fun x inside => pages.stored writable inside)
    phdr.vaddr (sectionCount file phdr) 0
  obtain ⟨padding, writes, padded⟩ := @segmentWrites_mapped env s s1 file phdr mapped
  rw [writes]
  simp only [List.mem_append, or_imp, forall_and]
  constructor
  · rintro ⟨⟨inside, -⟩, unwrapped⟩
    obtain ⟨ends, length⟩ := (pagesUnwrapped_iff phdr).mp unwrapped
    exact ⟨ends, length, (copied_iff unwrapped (sectionCount_lt file phdr)).mp (copy.mp inside)⟩
  · intro covered
    have unwrapped := (pagesUnwrapped_iff phdr).mpr ⟨covered.ends, covered.length⟩
    refine ⟨⟨?_, fun x member => ?_⟩, unwrapped⟩
    · exact copy.mpr ((copied_iff unwrapped (sectionCount_lt file phdr)).mpr covered.copied)
    · obtain ⟨k, inside, rfl⟩ := padded x member
      exact padding_inside unwrapped inside

end Mapped

theorem freshProcess_lent : Lent roomyEnv freshProcess where
  space := freshProcess_empty.loaded.space
  frames := fun _ member => absurd member List.not_mem_nil
  stores := fun _ member => absurd member List.not_mem_nil

theorem segmentWrites_inside_text :
    ∃ s1, mapPages roomyEnv textPhdr textPhdr.pagespan 0 freshProcess = .ok (0, s1) ∧
      (∀ x ∈ segmentWrites roomyEnv (execFile [textPhdr, dataPhdr]) textPhdr freshProcess,
        pageBase x ∈ textPhdr.pages) ∧ PagesUnwrapped textPhdr := by
  have reached : LoaderReaches roomyEnv (execFile [textPhdr, dataPhdr]) freshProcess textPhdr
      freshProcess := ⟨[], [dataPhdr], by decide +kernel, rfl⟩
  have status : (mapPages roomyEnv textPhdr textPhdr.pagespan 0 freshProcess).map Prod.fst =
      .ok 0 := by decide +kernel
  cases mapped : mapPages roomyEnv textPhdr textPhdr.pagespan 0 freshProcess with
  | error stop =>
    rw [mapped] at status
    cases status
  | ok result =>
    obtain ⟨st, s1⟩ := result
    rw [mapped] at status
    cases Except.ok.inj status
    refine ⟨s1, rfl, ?_⟩
    exact ((segmentWrites_inside_iff roomyEnv_fresh freshProcess_lent reached).2 s1 mapped).mpr
      ⟨by decide, by decide, .inl (by decide +kernel)⟩

/-- It has a section of 8 bytes and a segment of 4, which end a page. -/
def overrunPhdr : Elf32Phdr := ⟨1, 0, 0x8048ffc, 8, 4, 6⟩

def overrunFile : RamfsFile := execFile [dataPhdr, overrunPhdr]

/-- The process with the first segment of `overrunFile` loaded. -/
def dataLoaded : LoadState :=
  match loadPhdrs roomyEnv overrunFile [dataPhdr] freshProcess with
  | .ok (_, s) => s
  | .error _ => freshProcess

/-- The second section runs into the page of the first segment, and the file is loaded. -/
theorem segmentWrites_overrun :
    Lent roomyEnv freshProcess ∧
      LoaderReaches roomyEnv overrunFile freshProcess overrunPhdr dataLoaded ∧
      (mapPages roomyEnv overrunPhdr overrunPhdr.pagespan 0 dataLoaded).map Prod.fst = .ok 0 ∧
      0x8049000 ∈ segmentWrites roomyEnv overrunFile overrunPhdr dataLoaded ∧
      pageBase 0x8049000 ∉ overrunPhdr.pages ∧ pageBase 0x8049000 ∈ dataPhdr.pages ∧
      (elfloaderLoadFromFile roomyEnv overrunFile freshProcess).map Prod.fst = .ok 0 := by
  have status : (loadPhdrs roomyEnv overrunFile [dataPhdr] freshProcess).map Prod.fst = .ok 0 := by
    decide +kernel
  refine ⟨freshProcess_lent, ⟨[dataPhdr], [], by decide +kernel, ?_⟩, by decide +kernel,
    by decide +kernel, by decide, by decide, by decide +kernel⟩
  unfold dataLoaded
  cases loaded : loadPhdrs roomyEnv overrunFile [dataPhdr] freshProcess with
  | error stop =>
    rw [loaded] at status
    cases status
  | ok result =>
    rw [loaded] at status
    rw [← Except.ok.inj status]

end Dxgmx
