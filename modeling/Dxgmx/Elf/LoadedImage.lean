import Dxgmx.Elf.SegmentWrites
import Dxgmx.Mem.PageAccess

open Library

namespace Dxgmx

def LoadState.frame (env : LoadEnv) (s : LoadState) (x : Ptr) : Option Ptr :=
  (presentEntry env.kimg s.ps s.tables x).map pteFramePaddr

/-- What the memory holds at a virtual address. -/
def LoadState.byteAt (env : LoadEnv) (s : LoadState) (before : Ptr → Byte) (x : Ptr) : Option Byte :=
  (s.frame env x).map fun frame => s.memory before (frame + BitVec.ofNat 32 (x.toNat % pageSize))

/-- The byte of the segment that the file says. -/
def segmentByte (file : RamfsFile) (phdr : Elf32Phdr) (k : Nat) : Byte :=
  if k < phdr.filesize.toNat then file.data (phdr.offset.toNat + k) else 0

/-- A segment below 3 GiB whose section is not longer than it. -/
structure PlainSegment (phdr : Elf32Phdr) : Prop where
  section_ : phdr.filesize.toNat ≤ phdr.memsize.toNat
  below : phdr.vaddr.toNat + phdr.memsize.toNat ≤ 3 * 2 ^ 30

/-- The process has the segment in its memory, with the access that the program header asks for. -/
structure SegmentImage (env : LoadEnv) (file : RamfsFile) (s : LoadState) (phdr : Elf32Phdr) : Prop where
  bytes : ∀ k < phdr.memsize.toNat, ∀ before,
    userByte env s before (phdr.vaddr + BitVec.ofNat 32 k) = some (segmentByte file phdr k)
  access : ∀ x, pageBase x ∈ phdr.pages →
    effectiveAccess env.kimg ⟨s.ps, s.tables⟩ x = some (flagAccess (phdr.accessMode ||| pageUser))

/-- A process without pages of its own, and without page directories below 3 GiB. -/
structure NewSpace (env : LoadEnv) (start : LoadState) : Prop where
  blank : EmptySpace env start
  stores : start.stores = []
  dirs : ∀ i : Fin 4, i.val < 3 → pdAt env.kimg start.ps i = none

/-- The pages of the process are below 3 GiB and have frames of their own, and the directories let
    user space get at them. -/
structure UserImage (env : LoadEnv) (s : LoadState) : Prop where
  lent : Lent env s
  below : ∀ p ∈ s.ps.allocatedPages, p.toNat < 3 * 2 ^ 30
  apart : ∀ p ∈ s.ps.allocatedPages, ∀ q ∈ s.ps.allocatedPages,
    s.frame env p = s.frame env q → p = q
  executable : ∀ i j a, i.val < 3 → pdeAccess env.kimg s.ps s.tables i j = some a →
    a.executable = true
  user : ∀ p ∈ s.ps.allocatedPages, ∃ a,
    pdeAccess env.kimg s.ps s.tables (pdpteIdx p) (pdeIdx p) = some a ∧ a.user = true

/-- What is established of a segment once it is loaded. -/
structure SegmentLoaded (env : LoadEnv) (file : RamfsFile) (s : LoadState) (phdr : Elf32Phdr) :
    Prop where
  tracked : ∀ p ∈ phdr.pages, p ∈ s.ps.allocatedPages
  entries : ∀ p ∈ phdr.pages, ∃ frame, PageAligned frame ∧
    presentEntry env.kimg s.ps s.tables p = some (pageEntry frame (phdr.accessMode ||| pageUser))
  bytes : ∀ k < phdr.memsize.toNat, ∀ before,
    s.byteAt env before (phdr.vaddr + BitVec.ofNat 32 k) = some (segmentByte file phdr k)

section

variable {env : LoadEnv} {s s' : LoadState} {file : RamfsFile} {phdr : Elf32Phdr}

theorem NewSpace.image (new : NewSpace env s) : UserImage env s where
  lent := by
    refine ⟨new.blank.loaded.space, fun p member => ?_, fun store member => ?_⟩
    · rw [new.blank.empty] at member
      cases member
    · rw [new.stores] at member
      cases member
  below := by
    rw [new.blank.empty]
    exact fun p member => absurd member List.not_mem_nil
  apart := by
    rw [new.blank.empty]
    exact fun p member => absurd member List.not_mem_nil
  executable := by
    intro i j a below here
    rw [pdeAccess_none (new.dirs i below)] at here
    cases here
  user := by
    rw [new.blank.empty]
    exact fun p member => absurd member List.not_mem_nil

theorem frame_samePage {x y : Ptr} (same : SamePage x y) : s.frame env x = s.frame env y := by
  unfold LoadState.frame
  rw [presentEntry_samePage same]

theorem memory_store (paddr : Ptr) (byte : Byte) (before : Ptr → Byte) (q : Ptr) :
    (s.store paddr byte).memory before q = if paddr = q then byte else s.memory before q := by
  unfold LoadState.memory LoadState.store
  rw [List.find?_cons]
  by_cases same : paddr = q
  · rw [if_pos same, decide_eq_true same]
  · rw [if_neg same, decide_eq_false same]

theorem UserImage.frame_some (image : UserImage env s) {p : Ptr} (tracked : p ∈ s.ps.allocatedPages) :
    ∃ base, s.frame env p = some (paddrOf base) := by
  obtain ⟨-, pte, here, -⟩ := image.lent.space.tracked p tracked
  refine ⟨pte.frameBase, ?_⟩
  unfold LoadState.frame
  rw [here]
  rfl

theorem UserImage.paddr_inj (image : UserImage env s) {x y : Ptr} {f g : Nat}
    (trackedX : pageBase x ∈ s.ps.allocatedPages) (trackedY : pageBase y ∈ s.ps.allocatedPages)
    (frameX : s.frame env x = some (paddrOf f)) (frameY : s.frame env y = some (paddrOf g))
    (same : paddrOf f + BitVec.ofNat 32 (x.toNat % pageSize) =
      paddrOf g + BitVec.ofNat 32 (y.toNat % pageSize)) : x = y := by
  have insideX := samePage_offset (paddrOf_aligned f) (Nat.mod_lt x.toNat (show 0 < pageSize by decide))
  have insideY := samePage_offset (paddrOf_aligned g) (Nat.mod_lt y.toNat (show 0 < pageSize by decide))
  rw [same] at insideX
  have together : SamePage (paddrOf f) (paddrOf g) := insideX.symm.trans insideY
  have frames := together.aligned_eq (paddrOf_aligned f) (paddrOf_aligned g)
  have bases : pageBase x = pageBase y := by
    apply image.apart _ trackedX _ trackedY
    rw [← frame_samePage (samePage_pageBase x), ← frame_samePage (samePage_pageBase y), frameX, frameY,
      frames]
  rw [frames, BitVec.add_right_inj] at same
  have offsets := congrArg BitVec.toNat same
  have pages := congrArg BitVec.toNat bases
  rw [BitVec.toNat_ofNat, BitVec.toNat_ofNat] at offsets
  rw [pageBase_toNat, pageBase_toNat] at pages
  apply BitVec.eq_of_toNat_eq
  unfold pageSize at offsets pages
  omega

/-- Copying `count` bytes of `src` to `dest`. -/
structure Filled (env : LoadEnv) (dest : Ptr) (src : Nat → Byte) (count : Nat) (s s' : LoadState) :
    Prop where
  image : UserImage env s'
  ps : s'.ps = s.ps
  tables : s'.tables = s.tables
  inside : ∀ k < count, ∀ before, s'.byteAt env before (dest + BitVec.ofNat 32 k) = some (src k)
  outside : ∀ x, pageBase x ∈ s.ps.allocatedPages → (∀ k < count, x ≠ dest + BitVec.ofNat 32 k) →
    ∀ before, s'.byteAt env before x = s.byteAt env before x

theorem UserImage.of_same (image : UserImage env s) (lent : Lent env s') (ps : s'.ps = s.ps)
    (tables : s'.tables = s.tables) : UserImage env s' := by
  refine ⟨lent, ?_, ?_, ?_, ?_⟩
  · rw [ps]
    exact image.below
  · unfold LoadState.frame
    rw [ps, tables]
    exact image.apart
  · rw [ps, tables]
    exact image.executable
  · rw [ps, tables]
    exact image.user

theorem frame_congr (ps : s'.ps = s.ps) (tables : s'.tables = s.tables) (x : Ptr) :
    s'.frame env x = s.frame env x := by
  unfold LoadState.frame
  rw [ps, tables]

theorem storeTarget_frame (image : UserImage env s) {x paddr : Ptr}
    (target : storeTarget env x s = .page paddr) :
    pageBase x ∈ s.ps.allocatedPages ∧ ∃ base, s.frame env x = some (paddrOf base) ∧
      paddr = paddrOf base + BitVec.ofNat 32 (x.toNat % pageSize) := by
  rw [storeTarget_eq image.lent.space.granted] at target
  unfold LoadState.frame
  split at target
  · split at target <;> cases target
  · rename_i pte here
    split at target
    · cases target
    · split at target
      · rename_i tracked
        cases target
        exact ⟨tracked, pte.frameBase, by rw [here]; rfl, rfl⟩
      · cases target

theorem byteAt_store (image : UserImage env s) {x y paddr : Ptr}
    (target : storeTarget env x s = .page paddr) (tracked : pageBase y ∈ s.ps.allocatedPages)
    (byte : Byte) (before : Ptr → Byte) : (s.store paddr byte).byteAt env before y =
      if y = x then some byte else s.byteAt env before y := by
  obtain ⟨trackedX, f, frameX, rfl⟩ := storeTarget_frame image target
  obtain ⟨g, frameBase⟩ := image.frame_some tracked
  have frameY := (frame_samePage (samePage_pageBase y)).trans frameBase
  unfold LoadState.byteAt
  rw [@frame_congr env s (s.store _ byte) rfl rfl, frameY, Option.map_some, Option.map_some,
    memory_store]
  by_cases same : y = x
  · rw [same, frameX] at frameY
    rw [if_pos same, if_pos]
    rw [same, Option.some.inj frameY]
  · rw [if_neg same, if_neg]
    exact fun eq => same (image.paddr_inj trackedX tracked frameX frameY eq).symm

theorem userCopyToPages_bytes {dest : Ptr} {src : Nat → Byte} {left i : Nat} {st : Int}
    (image : UserImage env s)
    (stored : ∀ k < left, Stored env s (dest + BitVec.ofNat 32 (i + k)))
    (short : i + left ≤ 2 ^ 32)
    (call : userCopyToPages env dest src left i s = .ok (st, s')) :
    s'.ps = s.ps ∧ s'.tables = s.tables ∧
      (∀ k < left, ∀ before, s'.byteAt env before (dest + BitVec.ofNat 32 (i + k)) =
        some (src (i + k))) ∧
      ∀ x, pageBase x ∈ s.ps.allocatedPages → (∀ k < left, x ≠ dest + BitVec.ofNat 32 (i + k)) →
        ∀ before, s'.byteAt env before x = s.byteAt env before x := by
  induction left generalizing i s with
  | zero =>
    cases call
    exact ⟨rfl, rfl, fun k less => absurd less (Nat.not_lt_zero k), fun _ _ _ _ => rfl⟩
  | succ left ih =>
    obtain ⟨paddr, target⟩ := stored 0 (Nat.succ_pos left)
    rw [Nat.add_zero] at target
    unfold userCopyToPages at call
    rw [target] at call
    have lent := image.lent.store (image.lent.storeTarget target) (src i)
    have image' := image.of_same lent rfl rfl
    obtain ⟨ps, tables, inside, outside⟩ := ih image' (fun k less => by
      rw [Nat.add_right_comm]
      exact stored (k + 1) (Nat.succ_lt_succ less)) (by omega) call
    have tracked := (storeTarget_frame image target).1
    refine ⟨ps, tables, fun k less before => ?_, fun x trackedX other before => ?_⟩
    · cases k with
      | zero =>
        rw [Nat.add_zero, outside _ tracked, byteAt_store image target tracked, if_pos rfl]
        intro k less same
        -- no two of at most 2^32 addresses are the same
        rw [BitVec.add_right_inj] at same
        have value := congrArg BitVec.toNat same
        rw [BitVec.toNat_ofNat, BitVec.toNat_ofNat] at value
        omega
      | succ k =>
        have later := inside k (Nat.lt_of_succ_lt_succ less) before
        rw [Nat.add_right_comm] at later
        exact later
    · rw [outside x trackedX, byteAt_store image target trackedX, if_neg]
      · exact other 0 (Nat.succ_pos left)
      · intro k less same
        apply other (k + 1) (Nat.succ_lt_succ less)
        rw [Nat.add_right_comm] at same
        exact same

theorem userCopyToPages_filled {dest : Ptr} {src : Nat → Byte} {count : Nat} {st : Int}
    (image : UserImage env s) (stored : ∀ k < count, Stored env s (dest + BitVec.ofNat 32 k))
    (short : count ≤ 2 ^ 32) (call : userCopyToPages env dest src count 0 s = .ok (st, s')) :
    Filled env dest src count s s' := by
  have bytes := userCopyToPages_bytes image (i := 0) (by simpa only [Nat.zero_add] using stored)
    (by omega) call
  simp only [Nat.zero_add] at bytes
  obtain ⟨ps, tables, inside, outside⟩ := bytes
  exact ⟨image.of_same (userCopyToPages_lent image.lent call).1 ps tables, ps, tables, inside, outside⟩

theorem Filled.refl (image : UserImage env s) (dest : Ptr) (src : Nat → Byte) :
    Filled env dest src 0 s s :=
  ⟨image, rfl, rfl, fun k less => absurd less (Nat.not_lt_zero k), fun _ _ _ _ => rfl⟩

theorem Filled.append {s1 : LoadState} {dest : Ptr} {src src' : Nat → Byte} {m n : Nat}
    (first : Filled env dest src m s s1)
    (second : Filled env (dest + BitVec.ofNat 32 m) src' n s1 s') (short : m + n ≤ 2 ^ 32)
    (tracked : ∀ k < m, pageBase (dest + BitVec.ofNat 32 k) ∈ s.ps.allocatedPages) :
    Filled env dest (fun k => if k < m then src k else src' (k - m)) (m + n) s s' := by
  refine ⟨second.image, second.ps.trans first.ps, second.tables.trans first.tables,
    fun k less before => ?_, fun x trackedX other before => ?_⟩
  · by_cases early : k < m
    · rw [if_pos early, second.outside _ (by rw [first.ps]; exact tracked k early),
        first.inside k early]
      intro j late same
      rw [BitVec.add_assoc, BitVec.add_right_inj, ← BitVec.ofNat_add] at same
      have value := congrArg BitVec.toNat same
      rw [BitVec.toNat_ofNat, BitVec.toNat_ofNat] at value
      omega
    · rw [if_neg early]
      have here := second.inside (k - m) (by omega) before
      rw [BitVec.add_assoc, ← BitVec.ofNat_add, Nat.add_sub_cancel' (Nat.not_lt.mp early)] at here
      exact here
  · rw [second.outside x (by rw [first.ps]; exact trackedX), first.outside x trackedX]
    · exact fun k less => other k (by omega)
    · intro k less same
      rw [BitVec.add_assoc, ← BitVec.ofNat_add] at same
      exact other (m + k) (by omega) same

theorem fillSection_filled (image : UserImage env s)
    (stored : ∀ k < phdr.filesize.toNat, Stored env s (phdr.vaddr + BitVec.ofNat 32 k))
    {st : Int} (call : fillSection env file phdr s = .ok (st, s')) (done : ¬ st < 0) :
    Filled env phdr.vaddr (fun k => file.data (phdr.offset.toNat + k)) phdr.filesize.toNat s s' := by
  have bound := phdr.filesize.isLt
  rcases fillSection_cases call with ⟨rfl, -, empty | failed⟩ |
    ⟨some_, negative, returned, _, copied⟩
  · rw [empty]
    exact Filled.refl image _ _
  · exact absurd failed done
  · obtain ⟨-, cut, -⟩ := @copyStatus_spec file phdr some_ negative
    have whole : Readable file phdr := by
      by_contra unreadable
      have failed := cut unreadable
      rw [← returned] at failed
      exact done failed
    have count : sectionCount file phdr = phdr.filesize.toNat := by
      rcases whole with zero | ⟨-, -, inside⟩
      · exact absurd zero some_
      · unfold sectionCount
        rw [if_neg negative]
        exact (readCount_full some_).mpr inside
    rw [count] at copied
    exact userCopyToPages_filled image stored (by omega) copied

theorem padSection_filled (image : UserImage env s)
    (fits : phdr.filesize.toNat ≤ phdr.memsize.toNat)
    (stored : ∀ k < phdr.memsize.toNat - phdr.filesize.toNat,
      Stored env s (phdr.vaddr + phdr.filesize + BitVec.ofNat 32 k))
    (call : padSection env phdr s = .ok s') :
    Filled env (phdr.vaddr + phdr.filesize) (fun _ => 0)
      (phdr.memsize.toNat - phdr.filesize.toNat) s s' := by
  have bound := phdr.memsize.isLt
  unfold padSection at call
  split at call
  · rw [BitVec.toNat_sub_of_le (by rw [BitVec.le_def]; exact fits)] at call
    exact userCopyToPages_filled image stored (by omega) (memsetPages_copy call)
  · rename_i full
    rw [BitVec.lt_def] at full
    cases call
    rw [Nat.sub_eq_zero_of_le (by omega)]
    exact Filled.refl image _ _

theorem PlainSegment.unwrapped (plain : PlainSegment phdr) : PagesUnwrapped phdr := by
  have below := plain.below
  exact (pagesUnwrapped_iff phdr).mpr ⟨by omega, by omega⟩

theorem PlainSegment.inside (plain : PlainSegment phdr) {k : Nat} (inside : k < phdr.memsize.toNat) :
    pageBase (phdr.vaddr + BitVec.ofNat 32 k) ∈ phdr.pages :=
  mem_pages (by have below := plain.below; omega) inside

theorem segment_filled {s1 : LoadState} (image : UserImage env s) (plain : PlainSegment phdr)
    (tracked : ∀ p ∈ phdr.pages, p ∈ s.ps.allocatedPages)
    (stored : ∀ x, pageBase x ∈ phdr.pages → Stored env s x)
    {st : Int} (filled : fillSection env file phdr s = .ok (st, s1)) (done : ¬ st < 0)
    (padded : padSection env phdr s1 = .ok s') :
    Filled env phdr.vaddr (segmentByte file phdr) phdr.memsize.toNat s s' := by
  have fits := plain.section_
  have bound := phdr.memsize.isLt
  have first := fillSection_filled image
    (fun k less => stored _ (plain.inside (Nat.lt_of_lt_of_le less fits))) filled done
  have start : phdr.vaddr + phdr.filesize =
      phdr.vaddr + BitVec.ofNat 32 phdr.filesize.toNat := by
    rw [BitVec.ofNat_toNat, BitVec.setWidth_eq]
  have second := padSection_filled first.image fits (fun k less => by
    unfold Stored
    rw [storeTarget_congr first.ps first.tables, start, BitVec.add_assoc, ← BitVec.ofNat_add]
    exact stored _ (plain.inside (by omega))) padded
  rw [start] at second
  have both := first.append second (by omega)
    fun k less => tracked _ (plain.inside (Nat.lt_of_lt_of_le less fits))
  rw [Nat.add_sub_cancel' fits] at both
  exact both

theorem mmNewUserPage_access {kimg : KernelImage} {ps ps' : PagingStruct} {tables tables' : Tables}
    (walk : WalkInv kimg ps tables) {free : Ptr → Falloc → Exec Falloc} {mem : MapMem}
    (fresh : mem.Fresh kimg tables) {track : Bool} {vaddr : Ptr} {flags : BitVec 16}
    {falloc falloc' : Falloc}
    (call : mmNewUserPage kimg free mem track vaddr flags ps tables falloc =
      .ok (0, ps', tables', falloc')) (i : Fin 4) (j : Fin 512) :
    pdeAccess kimg ps' tables' i j = if i = pdpteIdx vaddr ∧ j = pdeIdx vaddr then
        some (((pdeAccess kimg ps tables i j).getD newAccess).promote (flags ||| pageUser))
      else if i = pdpteIdx vaddr then some ((pdeAccess kimg ps tables i j).getD newAccess)
      else pdeAccess kimg ps tables i j := by
  obtain ⟨-, ⟨-, error, -⟩ | ⟨-, error, -⟩ | ⟨-, -, -, ps1, pages, mapped, -, rfl⟩⟩ :=
    mmNewUserPage_returns call
  · exact absurd error (by decide)
  · exact absurd error (by decide)
  · exact (mmMapPageArch_access walk fresh mapped).1 rfl i j

theorem promote_user (a : Access) (flags : BitVec 16) : (a.promote (flags ||| pageUser)).user = true :=
  decide_eq_true (flags_user flags)

theorem promote_executable {a : Access} (executable : a.executable = true) (flags : BitVec 16) :
    (a.promote flags).executable = true := by
  unfold Access.promote
  rw [executable, Bool.true_or]

theorem getD_executable {old : Option Access} (known : ∀ a, old = some a → a.executable = true) :
    (old.getD newAccess).executable = true := by
  cases old with
  | none => rfl
  | some a => exact known a rfl

theorem UserImage.newPage (fresh : ∀ tables : Tables,
      (env.kmallocAligned tables.blocks).Fresh env.kimg tables) (image : UserImage env s) {vaddr : Ptr}
    (low : vaddr.toNat < 3 * 2 ^ 30) {flags : BitVec 16} {st : Int}
    (call : newUserPage env vaddr flags s = .ok (st, s')) (done : ¬ st < 0) : UserImage env s' := by
  have got := newUserPage_got fresh image.lent call done
  have new := (newUserPage_done call done).1
  have added := mmNewUserPage_added image.lent.space (fresh s.tables) new
  have access := mmNewUserPage_access image.lent.space.walk (fresh s.tables) new
  have page := (got.lent.space.tracked vaddr got.page).1
  have frame : s'.frame env vaddr = some (fallocOneUser s.falloc).1 := by
    unfold LoadState.frame
    rw [got.present, Option.map_some, pteFramePaddr_pageEntry got.aligned]
  have old {p : Ptr} (tracked : p ∈ s.ps.allocatedPages) :
      s'.frame env p = s.frame env p ∧ s.frame env p ≠ some (fallocOneUser s.falloc).1 := by
    obtain ⟨alignedP, pte, here, -⟩ := image.lent.space.tracked p tracked
    have present := added.present p
    rw [if_neg fun same : SamePage p vaddr =>
      added.new (same.aligned_eq alignedP page ▸ tracked)] at present
    unfold LoadState.frame
    refine ⟨by rw [present], fun same => ?_⟩
    rw [here, Option.map_some] at same
    have used := image.lent.frames p tracked pte here
    rw [Option.some.inj same, got.free] at used
    cases used
  refine ⟨got.lent, fun p tracked => ?_, fun p trackedP q trackedQ same => ?_, fun i j a less here => ?_,
    fun p tracked => ?_⟩
  · rcases (added.pages p).mp tracked with rfl | before
    · exact low
    · exact image.below p before
  · rcases (added.pages p).mp trackedP with rfl | beforeP
    · rcases (added.pages q).mp trackedQ with rfl | beforeQ
      · rfl
      · rw [frame, (old beforeQ).1] at same
        exact absurd same.symm (old beforeQ).2
    · rcases (added.pages q).mp trackedQ with rfl | beforeQ
      · rw [frame, (old beforeP).1] at same
        exact absurd same (old beforeP).2
      · rw [(old beforeP).1, (old beforeQ).1] at same
        exact image.apart p beforeP q beforeQ same
  · rw [access] at here
    have known := getD_executable fun a there => image.executable i j a less there
    split_ifs at here
    · cases here
      exact promote_executable known _
    · cases here
      exact known
    · exact image.executable i j a less here
  · rw [access]
    split_ifs with table dir
    · exact ⟨_, rfl, promote_user _ flags⟩
    · obtain rfl | before := (added.pages p).mp tracked
      · exact absurd ⟨rfl, rfl⟩ table
      · obtain ⟨a, above, user⟩ := image.user p before
        rw [above]
        exact ⟨a, rfl, user⟩
    · obtain rfl | before := (added.pages p).mp tracked
      · exact absurd ⟨rfl, rfl⟩ table
      · exact image.user p before

theorem UserImage.mapPages (fresh : ∀ tables : Tables,
      (env.kmallocAligned tables.blocks).Fresh env.kimg tables) (image : UserImage env s)
    {left i : Nat} (low : ∀ p ∈ phdr.pagesFrom left i, p.toNat < 3 * 2 ^ 30)
    (call : mapPages env phdr left i s = .ok (0, s')) : UserImage env s' := by
  induction left generalizing i s with
  | zero =>
    cases call
    exact image
  | succ left ih =>
    rw [pagesFrom_succ] at low
    obtain ⟨⟨st1, s1⟩, mapped, call⟩ := Exec.bind_ok.mp call
    dsimp only at call
    split at call
    · rename_i negative
      cases call
      exact absurd negative (by decide)
    · rename_i done
      exact ih (image.newPage fresh (low _ List.mem_cons_self) mapped done)
        (fun p member => low p (List.mem_cons_of_mem _ member)) call

/-- The flags of pages that the process has are set, and nothing else. -/
structure PagesFlagged (env : LoadEnv) (pages : List Ptr) (flags : BitVec 16) (s s' : LoadState) :
    Prop where
  image : UserImage env s'
  kept : s'.ps = s.ps
  stores : s'.stores = s.stores
  present : ∀ x, presentEntry env.kimg s'.ps s'.tables x =
    if pageBase x ∈ pages then (presentEntry env.kimg s.ps s.tables x).map (·.withFlags flags)
    else presentEntry env.kimg s.ps s.tables x

theorem UserImage.setFlags (image : UserImage env s) {page : Ptr}
    (tracked : page ∈ s.ps.allocatedPages) (flags : BitVec 16) :
    ∃ tables', mmSetPageFlagsArch env.kimg page (flags ||| pageUser) s.ps s.tables = .ok (0, tables') ∧
      PagesFlagged env [page] (flags ||| pageUser) s { s with tables := tables' } := by
  obtain ⟨tables', call, lent, present⟩ := image.lent.setFlags tracked (flags ||| pageUser)
  have page_ := (image.lent.space.tracked page tracked).1
  rcases mmSetPageFlagsArch_effect image.lent.space.walk call with ⟨failed, -⟩ |
    ⟨-, -, -, -, -, -, access⟩
  · cases failed
  have frame (x : Ptr) : LoadState.frame env { s with tables := tables' } x = s.frame env x := by
    unfold LoadState.frame
    dsimp only
    rw [present]
    split
    · rw [Option.map_map]
      rfl
    · rfl
  refine ⟨tables', call, ⟨lent, image.below, ?_, fun i j a less here => ?_, fun p member => ?_⟩, rfl,
    rfl, fun x => ?_⟩
  · simp only [frame]
    exact image.apart
  · dsimp only at here
    rw [access] at here
    split at here
    · cases here
      exact promote_executable (getD_executable fun a there => image.executable i j a less there) _
    · exact image.executable i j a less here
  · dsimp only
    rw [access]
    split
    · exact ⟨_, rfl, promote_user _ flags⟩
    · exact image.user p member
  · dsimp only
    rw [present]
    simp only [List.mem_singleton, pageBase_eq page_]

theorem setPagesFlags_flagged (image : UserImage env s) {left i : Nat}
    (tracked : ∀ p ∈ phdr.pagesFrom left i, p ∈ s.ps.allocatedPages)
    (call : setPagesFlags env phdr left i s = .ok s') :
    PagesFlagged env (phdr.pagesFrom left i) (phdr.accessMode ||| pageUser) s s' := by
  induction left generalizing i s with
  | zero =>
    cases call
    exact ⟨image, rfl, rfl, fun x => rfl⟩
  | succ left ih =>
    rw [pagesFrom_succ] at tracked ⊢
    obtain ⟨tables', flagged, first⟩ := image.setFlags (tracked _ List.mem_cons_self) phdr.accessMode
    unfold setPagesFlags at call
    rw [flagged, Exec.ok_bind] at call
    dsimp only at call
    obtain ⟨-, call⟩ := assert_bind_ok.mp call
    have rest := ih first.image (fun p member => tracked p (List.mem_cons_of_mem _ member)) call
    refine ⟨rest.image, rest.kept, rest.stores, fun x => ?_⟩
    rw [rest.present, first.present]
    simp only [List.mem_cons, List.not_mem_nil, or_false]
    by_cases here : pageBase x = phdr.page i
    · simp only [here, true_or, if_true, Option.map_map]
      split
      · congr 1
      · rfl
    · simp only [here, false_or, if_false]

/-- The pages that the process has stay as they are. -/
structure Kept (env : LoadEnv) (s s' : LoadState) : Prop where
  pages : ∀ p ∈ s.ps.allocatedPages, p ∈ s'.ps.allocatedPages
  present : ∀ x, pageBase x ∈ s.ps.allocatedPages →
    presentEntry env.kimg s'.ps s'.tables x = presentEntry env.kimg s.ps s.tables x
  bytes : ∀ x, pageBase x ∈ s.ps.allocatedPages →
    ∀ before, s'.byteAt env before x = s.byteAt env before x

theorem Kept.refl (env : LoadEnv) (s : LoadState) : Kept env s s :=
  ⟨fun _ tracked => tracked, fun _ _ => rfl, fun _ _ _ => rfl⟩

theorem Kept.trans {s1 : LoadState} (first : Kept env s s1) (second : Kept env s1 s') :
    Kept env s s' where
  pages := fun p tracked => second.pages p (first.pages p tracked)
  present := fun x tracked => (second.present x (first.pages _ tracked)).trans (first.present x tracked)
  bytes := fun x tracked before =>
    (second.bytes x (first.pages _ tracked) before).trans (first.bytes x tracked before)

theorem SegmentLoaded.kept (loaded : SegmentLoaded env file s phdr) (plain : PlainSegment phdr)
    (kept : Kept env s s') : SegmentLoaded env file s' phdr := by
  refine ⟨fun p member => kept.pages p (loaded.tracked p member), fun p member => ?_,
    fun k less before => ?_⟩
  · obtain ⟨frame, aligned, here⟩ := loaded.entries p member
    have tracked := loaded.tracked p member
    obtain ⟨i, -, rfl⟩ := List.mem_map.mp member
    refine ⟨frame, aligned, ?_⟩
    rw [kept.present _ (by rw [(pageBase_eq (page_aligned phdr i)).mpr rfl]; exact tracked)]
    exact here
  · rw [kept.bytes _ (loaded.tracked _ (plain.inside less))]
    exact loaded.bytes k less before

theorem byteAt_congr (stores : s'.stores = s.stores) {x : Ptr}
    (frame : s'.frame env x = s.frame env x) (before : Ptr → Byte) :
    s'.byteAt env before x = s.byteAt env before x := by
  unfold LoadState.byteAt LoadState.memory
  rw [frame, stores]

theorem PagesFlagged.byteAt {pages : List Ptr} {flags : BitVec 16}
    (flagged : PagesFlagged env pages flags s s') (before : Ptr → Byte) (x : Ptr) :
    s'.byteAt env before x = s.byteAt env before x := by
  apply byteAt_congr flagged.stores
  unfold LoadState.frame
  rw [flagged.present]
  split
  · rw [Option.map_map]
    rfl
  · rfl

theorem PlainSegment.low (plain : PlainSegment phdr) {p : Ptr} (member : p ∈ phdr.pages) :
    p.toNat < 3 * 2 ^ 30 := by
  have below := plain.below
  obtain ⟨i, -, same⟩ := List.mem_map.mp member
  have aligned : PageAligned p := same ▸ page_aligned phdr i
  rw [← (pageBase_eq aligned).mpr rfl, mem_pages_iff plain.unwrapped] at member
  unfold Elf32Phdr.pagesEnd at member
  omega

/-- What one round of the loop over the program headers does to the memory of the process. -/
theorem loadPhdr_image (fresh : ∀ tables : Tables,
      (env.kmallocAligned tables.blocks).Fresh env.kimg tables) (image : UserImage env s)
    (load : phdr.type = 1) (plain : PlainSegment phdr) {st : Int}
    (call : loadPhdr env file phdr s = .ok (st, s')) (done : ¬ st < 0) :
    UserImage env s' ∧ SegmentLoaded env file s' phdr ∧ Kept env s s' := by
  unfold loadPhdr at call
  rw [if_neg (not_not.mpr load)] at call
  obtain ⟨⟨st1, s1⟩, mapped, call⟩ := Exec.bind_ok.mp call
  have status := mapPages_stores mapped
  dsimp only at call
  split at call
  · rename_i negative
    cases call
    exact absurd negative done
  · rename_i done1
    obtain rfl : st1 = 0 := by omega
    have pages := mapPages_mapped fresh image.lent mapped
    have image1 := image.mapPages fresh (fun p member => plain.low member) mapped
    have writable : (phdr.accessMode ||| pageW) &&& pageW ≠ 0 := of_decide_eq_true (decide_pageW _)
    obtain ⟨⟨st2, s2⟩, filled, call⟩ := Exec.bind_ok.mp call
    dsimp only at call
    split at call
    · rename_i negative
      cases call
      exact absurd negative done
    · rename_i done2
      obtain ⟨s3, padded, call⟩ := Exec.bind_ok.mp call
      obtain ⟨s4, flagged, call⟩ := Exec.bind_ok.mp call
      cases call
      have tracked1 (p : Ptr) (member : p ∈ phdr.pages) : p ∈ s1.ps.allocatedPages :=
        (pages.tracked p).mpr (.inl member)
      have whole := segment_filled image1 plain tracked1 (fun x inside => pages.stored writable inside)
        filled done2 padded
      have last := setPagesFlags_flagged whole.image
        (fun p member => by rw [whole.ps]; exact tracked1 p member) flagged
      have entries (x : Ptr) : presentEntry env.kimg s'.ps s'.tables x =
          if pageBase x ∈ phdr.pages then (presentEntry env.kimg s1.ps s1.tables x).map
            (·.withFlags (phdr.accessMode ||| pageUser))
          else presentEntry env.kimg s1.ps s1.tables x := by
        have now := last.present x
        rw [whole.ps, whole.tables] at now
        exact now
      refine ⟨last.image, ⟨fun p member => ?_, fun p member => ?_, fun k less before => ?_⟩,
        ⟨fun p tracked => ?_, fun x tracked => ?_, fun x tracked before => ?_⟩⟩
      · rw [last.kept, whole.ps]
        exact tracked1 p member
      · obtain ⟨frame, aligned, here⟩ := pages.own p member
        refine ⟨frame, aligned, ?_⟩
        obtain ⟨i, -, same⟩ := List.mem_map.mp member
        have alignedP : PageAligned p := same ▸ page_aligned phdr i
        rw [entries, (pageBase_eq alignedP).mpr rfl, if_pos member, here]
        rfl
      · rw [last.byteAt, whole.inside k less]
      · rw [last.kept, whole.ps]
        exact (pages.tracked p).mpr (.inr tracked)
      · have outside : pageBase x ∉ phdr.pages := fun member => pages.new _ member tracked
        rw [entries, if_neg outside, pages.others x outside]
      · have outside : pageBase x ∉ phdr.pages := fun member => pages.new _ member tracked
        rw [last.byteAt, whole.outside x ((pages.tracked _).mpr (.inr tracked))]
        · apply byteAt_congr status.1
          unfold LoadState.frame
          rw [pages.others x outside]
        · rintro k less rfl
          exact outside (plain.inside less)

theorem loadPhdrs_image (fresh : ∀ tables : Tables,
      (env.kmallocAligned tables.blocks).Fresh env.kimg tables) (image : UserImage env s)
    {phdrs : List Elf32Phdr} (plain : ∀ phdr ∈ phdrs, phdr.type = 1 → PlainSegment phdr) {st : Int}
    (call : loadPhdrs env file phdrs s = .ok (st, s')) (done : ¬ st < 0) :
    UserImage env s' ∧ (∀ phdr ∈ phdrs, phdr.type = 1 → SegmentLoaded env file s' phdr) ∧
      Kept env s s' := by
  induction phdrs generalizing s with
  | nil =>
    cases call
    exact ⟨image, fun phdr member => absurd member List.not_mem_nil, Kept.refl env _⟩
  | cons phdr rest ih =>
    obtain ⟨⟨st1, s1⟩, loaded, call⟩ := Exec.bind_ok.mp call
    have plain' := fun other member => plain other (List.mem_cons_of_mem _ member)
    dsimp only at call
    split at call
    · rename_i negative
      cases call
      exact absurd negative done
    · rename_i done1
      by_cases load : phdr.type = 1
      · have plain1 := plain phdr List.mem_cons_self load
        obtain ⟨image1, segment, kept1⟩ := loadPhdr_image fresh image load plain1 loaded done1
        obtain ⟨image', others, kept⟩ := ih image1 plain' call
        refine ⟨image', fun other member type => ?_, kept1.trans kept⟩
        rcases List.mem_cons.mp member with rfl | later
        · exact segment.kept plain1 kept
        · exact others other later type
      · have skipped : loadPhdr env file phdr s = .ok (0, s) := if_pos load
        rw [skipped] at loaded
        cases loaded
        obtain ⟨image', others, kept⟩ := ih image plain' call
        refine ⟨image', fun other member type => ?_, kept⟩
        rcases List.mem_cons.mp member with rfl | later
        · exact absurd type load
        · exact others other later type

/-- The directory entry above a page of the process allows what its page table entry allows. -/
theorem UserImage.above (image : UserImage env s) {x : Ptr} (tracked : pageBase x ∈ s.ps.allocatedPages)
    {pte : PageTableEntry} (here : presentEntry env.kimg s.ps s.tables x = some pte) :
    ∃ pde, mmuWalk env.kimg s.ps s.tables x = some (pde, pte) ∧
      pdeAccess env.kimg s.ps s.tables (pdpteIdx x) (pdeIdx x) = some pde.access ∧
      pde.userAccess = true ∧ pde.access.executable = true ∧
      (pte.writable = true → pde.access.writable = true) := by
  obtain ⟨pde, walk, writable⟩ := mmuWalk_present image.lent.space.granted here
  have access : pdeAccess env.kimg s.ps s.tables (pdpteIdx x) (pdeIdx x) = some pde.access := by
    unfold pdeAccess
    rw [(mmuWalk_some walk).2]
    rfl
  have low := image.below _ tracked
  rw [pageBase_toNat] at low
  have third : (pdpteIdx x).val < 3 := by
    unfold pageSize at low
    show x.toNat / 2 ^ 30 < 3
    omega
  obtain ⟨a, above, user⟩ := image.user _ tracked
  obtain ⟨⟨pdpte, dir⟩, -⟩ := (samePage_iff x _).mpr (samePage_pageBase x)
  rw [← pdpte, ← dir, access] at above
  cases above
  exact ⟨pde, walk, access, user, image.executable _ _ _ third access, writable⟩

theorem SegmentLoaded.image (loaded : SegmentLoaded env file s phdr) (plain : PlainSegment phdr)
    (image : UserImage env s) : SegmentImage env file s phdr := by
  have entry (x : Ptr) (inside : pageBase x ∈ phdr.pages) : ∃ frame,
      presentEntry env.kimg s.ps s.tables x =
        some (pageEntry frame (phdr.accessMode ||| pageUser)) := by
    obtain ⟨frame, -, here⟩ := loaded.entries _ inside
    rw [← presentEntry_samePage (samePage_pageBase x)] at here
    exact ⟨frame, here⟩
  refine ⟨fun k less before => ?_, fun x inside => ?_⟩
  · obtain ⟨frame, here⟩ := entry _ (plain.inside less)
    obtain ⟨pde, walk, -, user, -⟩ := image.above (loaded.tracked _ (plain.inside less)) here
    have access : (pageEntry frame (phdr.accessMode ||| pageUser)).userAccess = true :=
      decide_eq_true (flags_user _)
    have byte := loaded.bytes k less before
    unfold LoadState.byteAt LoadState.frame at byte
    rw [here] at byte
    unfold userByte
    rw [walk]
    dsimp only
    rw [user, access]
    exact byte
  · obtain ⟨frame, here⟩ := entry x inside
    obtain ⟨pde, -, above, user, executable, writable⟩ := image.above (loaded.tracked _ inside) here
    unfold effectiveAccess
    dsimp only
    rw [here, above]
    dsimp only
    rw [pageEntry_access]
    refine congrArg some (flagAccess_meet executable ?_ fun flag => writable (decide_eq_true flag))
    exact iff_of_true user (flags_user _)

/-- A program that is loaded stands in the memory of the process as its file says, with the access
    that its program headers ask for, and starts at its entry point. -/
theorem elfloaderLoadFromFile_image {start : LoadState} (fresh : ∀ tables : Tables,
      (env.kmallocAligned tables.blocks).Fresh env.kimg tables) (new : NewSpace env start)
    (plain : ∀ phdr ∈ programHeaders file, phdr.type = 1 → PlainSegment phdr)
    (call : elfloaderLoadFromFile env file start = .ok (0, s)) :
    (∀ phdr ∈ programHeaders file, phdr.type = 1 → SegmentImage env file s phdr) ∧
      ∃ ehdr, elfReadEhdr32 file = .ok ehdr ∧ s.instPtr = ehdr.entry := by
  unfold elfloaderLoadFromFile at call
  split at call
  · rename_i st generic
    rw [elfReadGenericEhdr_error generic] at call
    cases call
  · rename_i ehdr generic
    split at call
    · rename_i invalid
      rw [(Prod.mk.inj (Except.ok.inj call)).1] at invalid
      exact absurd invalid (by decide)
    · rename_i valid
      split at call
      · rename_i class32
        unfold elfloaderLoadFromFile32 at call
        split at call
        · rename_i st header
          rw [elfReadEhdr32_error header] at call
          cases call
        · rename_i ehdr32 header
          split at call
          · cases call
          · split at call
            · rename_i st read
              rw [elfReadPhdrs32_error read] at call
              cases call
            · rename_i phdrs read
              have headers : programHeaders file = phdrs := by
                unfold programHeaders
                rw [generic, header]
                dsimp only
                rw [if_neg (not_or.mpr ⟨valid, not_not.mpr class32⟩), read]
              rw [headers] at plain ⊢
              obtain ⟨⟨st1, s1⟩, loaded, call⟩ := Exec.bind_ok.mp call
              dsimp only at call
              split at call
              · rename_i negative
                rw [(Prod.mk.inj (Except.ok.inj call)).1] at negative
                exact absurd negative (by decide)
              · rename_i done
                cases call
                obtain ⟨image, segments, -⟩ := loadPhdrs_image fresh new.image plain loaded done
                refine ⟨fun phdr member load => ?_, ehdr32, header, rfl⟩
                have final := (segments phdr member load).image (plain phdr member load) image
                exact ⟨final.bytes, final.access⟩
      · split at call
        · cases call
        · cases call

/-- The process that `proc_create_address_space` has prepared when it loads the file. -/
theorem mappedKernel_newSpace {env : AddressSpaceEnv} {tables : Tables} {falloc : Falloc}
    (walk : WalkInv env.kimg (mappedKernel env tables falloc).ps tables)
    (granted : Granted env.kimg (mappedKernel env tables falloc).ps tables)
    (high : pdpteIdx env.kimgVaddr = 3) : NewSpace env.toLoadEnv (mappedKernel env tables falloc) where
  blank := ⟨walk, granted, rfl⟩
  stores := rfl
  dirs := by
    intro i below
    show pdAt _ (PagingStruct.setPdpte mmInitPagingStruct _ _) i = none
    rw [pdAt_setPdpte, if_neg]
    · exact pdAt_init _ i
    · rw [high]
      rintro rfl
      exact absurd below (by decide)

end

def twoSegmentsFile : RamfsFile := execFile [textPhdr, dataPhdr]

def twoSegmentsStart : LoadState := mappedKernel twoSegments freshProcess.tables freshProcess.falloc

theorem twoSegmentsFile_headers : programHeaders twoSegmentsFile = [textPhdr, dataPhdr] := by
  decide +kernel

theorem elfloaderLoadFromFile_image_two :
    ∃ s, elfloaderLoadFromFile twoSegments.toLoadEnv twoSegmentsFile twoSegmentsStart = .ok (0, s) ∧
      SegmentImage twoSegments.toLoadEnv twoSegmentsFile s textPhdr ∧
      SegmentImage twoSegments.toLoadEnv twoSegmentsFile s dataPhdr ∧ s.instPtr = 0x8048000 := by
  have status : (elfloaderLoadFromFile twoSegments.toLoadEnv twoSegmentsFile
      twoSegmentsStart).map Prod.fst = .ok 0 := by decide +kernel
  have entry : (elfReadEhdr32 twoSegmentsFile).map (·.entry) = .ok 0x8048000 := by decide +kernel
  have new : NewSpace twoSegments.toLoadEnv twoSegmentsStart :=
    mappedKernel_newSpace twoSegments_walk twoSegments_granted (by decide)
  have plain : ∀ phdr ∈ programHeaders twoSegmentsFile, phdr.type = 1 → PlainSegment phdr := by
    rw [twoSegmentsFile_headers]
    intro phdr member _
    rcases List.mem_cons.mp member with rfl | member
    · exact ⟨by decide, by decide⟩
    · rw [List.mem_singleton.mp member]
      exact ⟨by decide, by decide⟩
  cases call : elfloaderLoadFromFile twoSegments.toLoadEnv twoSegmentsFile twoSegmentsStart with
  | error stop =>
    rw [call] at status
    cases status
  | ok result =>
    obtain ⟨st, s⟩ := result
    rw [call] at status
    cases Except.ok.inj status
    obtain ⟨segments, ehdr, header, start⟩ :=
      elfloaderLoadFromFile_image twoSegments_fresh new plain call
    rw [twoSegmentsFile_headers] at segments
    rw [header] at entry
    refine ⟨s, rfl, segments _ List.mem_cons_self rfl,
      segments _ (List.mem_cons_of_mem _ List.mem_cons_self) rfl, ?_⟩
    rw [start]
    exact Except.ok.inj entry

end Dxgmx
