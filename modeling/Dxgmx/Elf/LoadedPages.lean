import Dxgmx.Elf.SegmentPages

open Library

namespace Dxgmx

def takeFrames (n : Nat) (falloc : Falloc) : Falloc := (fun falloc => (fallocOneUser falloc).2)^[n] falloc

theorem takeFrames_succ (n : Nat) (falloc : Falloc) :
    takeFrames (n + 1) falloc = (fallocOneUser (takeFrames n falloc)).2 :=
  Function.iterate_succ_apply' _ n falloc

/-- A paging struct without pages of its own. -/
structure EmptySpace (env : LoadEnv) (start : LoadState) : Prop where
  walk : WalkInv env.kimg start.ps start.tables
  granted : Granted env.kimg start.ps start.tables
  empty : start.ps.allocatedPages = []

/-- Enough heap, and a frame for every one of `pages` that follows pages that are distinct. -/
structure EnoughMemory (env : LoadEnv) (start : LoadState) (pages : List Ptr) : Prop where
  fresh : ∀ tables : Tables, (env.kmallocAligned tables.blocks).Fresh env.kimg tables
  tables : ∀ blocks : List Ptr, blocks.length ≤ start.tables.blocks.length + 2052 →
    (env.kmallocAligned blocks).pd ≠ none ∧ (env.kmallocAligned blocks).pt ≠ none
  track : ∀ pages, env.track pages = true
  kmalloc : ∀ n, 0 < n → env.kmalloc n = true
  frames : ∀ before page, (before ++ [page]) <+: pages → before.Nodup →
    (fallocOneUser (takeFrames before.length start.falloc)).1 ≠ 0

/-- The pages mapped since `start`, in the order they came, and whether they are writable. -/
structure LoadedPages (env : LoadEnv) (start s : LoadState) (modes : List (Ptr × Bool)) : Prop where
  space : UserSpace env.kimg s.ps s.tables
  pages : ∀ p, p ∈ s.ps.allocatedPages ↔ p ∈ modes.map Prod.fst
  distinct : (modes.map Prod.fst).Nodup
  mode : ∀ p writable, (p, writable) ∈ modes →
    ∃ pte, presentEntry env.kimg s.ps s.tables p = some pte ∧ pte.writable = writable
  others : ∀ x, pageBase x ∉ modes.map Prod.fst →
    presentEntry env.kimg s.ps s.tables x = presentEntry env.kimg start.ps start.tables x
  count : s.tables.blocks.length + tableCount env.kimg start.ps start.tables =
    start.tables.blocks.length + tableCount env.kimg s.ps s.tables
  frames : s.falloc = takeFrames modes.length start.falloc

section

variable {env : LoadEnv} {start s : LoadState} {modes : List (Ptr × Bool)} {pages : List Ptr}

theorem EmptySpace.loaded (blank : EmptySpace env start) : LoadedPages env start start [] where
  space := by
    refine ⟨blank.walk, blank.granted, ?_, ?_⟩
    · rw [blank.empty]
      exact List.Pairwise.nil
    · rw [blank.empty]
      exact fun p member => absurd member List.not_mem_nil
  pages := by
    intro p
    rw [blank.empty]
    rfl
  distinct := List.nodup_nil
  mode := fun p writable member => absurd member List.not_mem_nil
  others := fun _ _ => rfl
  count := rfl
  frames := rfl

theorem LoadedPages.ample (loaded : LoadedPages env start s modes)
    (enough : EnoughMemory env start pages) :
    (env.kmallocAligned s.tables.blocks).pd ≠ none ∧
      (env.kmallocAligned s.tables.blocks).pt ≠ none := by
  apply enough.tables
  have count := loaded.count
  have bound : tableCount env.kimg s.ps s.tables ≤ 2052 := tableCount_le
  omega

theorem LoadedPages.frame (loaded : LoadedPages env start s modes)
    (enough : EnoughMemory env start pages) {page : Ptr}
    (next : (modes.map Prod.fst ++ [page]) <+: pages) : (fallocOneUser s.falloc).1 ≠ 0 := by
  have frame := enough.frames _ _ next loaded.distinct
  rw [List.length_map, ← loaded.frames] at frame
  exact frame

theorem flags_pageUser (flags : BitVec 16) : (flags ||| pageUser) &&& pageW = flags &&& pageW := by
  have only : ∀ i : Fin 16, i.val = 1 ∨ pageW.getLsbD i.val = false := by decide
  apply BitVec.eq_of_getLsbD_eq
  intro i bound
  rcases only ⟨i, bound⟩ with one | clear
  · dsimp only at one
    rw [one]
    simp [pageUser]
  · dsimp only at clear
    simp [clear]

theorem LoadedPages.newPage (loaded : LoadedPages env start s modes)
    (enough : EnoughMemory env start pages) {page : Ptr} (aligned : PageAligned page)
    (next : (modes.map Prod.fst ++ [page]) <+: pages) (flags : BitVec 16)
    (new : page ∉ modes.map Prod.fst)
    (vacant : presentEntry env.kimg start.ps start.tables page = none) :
    ∃ s', newUserPage env page flags s = .ok (0, s') ∧
      LoadedPages env start s' (modes ++ [(page, decide (flags &&& pageW ≠ 0))]) := by
  have untracked : page ∉ s.ps.allocatedPages := fun member => new ((loaded.pages _).mp member)
  have base : pageBase page = page := (pageBase_eq aligned).mpr rfl
  obtain ⟨dirs, pts⟩ := loaded.ample enough
  obtain ⟨ps', tables', call⟩ := mmNewUserPage_done loaded.space ffreeOne dirs pts aligned untracked
    flags (loaded.frame enough next)
  have added := mmNewUserPage_added loaded.space (enough.fresh s.tables) call
  have absent : (mmuWalk env.kimg s.ps s.tables page).isSome = false := by
    rw [mmuWalk_isSome loaded.space.granted, loaded.others page (by rw [base]; exact new), vacant]
    rfl
  refine ⟨{ s with
    ps := ps'
    tables := tables'
    falloc := (fallocOneUser s.falloc).2 }, ?_, added.space, fun p => ?_, ?_, fun p writable member => ?_,
    fun x outside => ?_, ?_, ?_⟩
  · unfold newUserPage
    dsimp only
    rw [enough.track, call, Exec.ok_bind]
    dsimp only
    rw [absent]
    rfl
  · rw [added.pages, loaded.pages, List.map_append, List.mem_append]
    exact or_comm.trans (or_congr_right List.mem_singleton.symm)
  · rw [List.map_append]
    apply List.nodup_append'.mpr
    refine ⟨loaded.distinct, List.nodup_singleton _, ?_⟩
    exact List.disjoint_singleton.mpr new
  · rw [added.present]
    rcases List.mem_append.mp member with old | last
    · have alignedP := (loaded.space.tracked p ((loaded.pages p).mpr (List.mem_map_of_mem old))).1
      rw [if_neg]
      · exact loaded.mode p writable old
      · intro same
        rw [same.aligned_eq alignedP aligned] at old
        exact new (List.mem_map_of_mem old)
    · cases List.mem_singleton.mp last
      rw [if_pos (show SamePage page page from rfl)]
      refine ⟨_, rfl, ?_⟩
      unfold pageEntry
      rw [flags_pageUser]
  · rw [List.map_append, List.mem_append, not_or] at outside
    rw [added.present, if_neg]
    · exact loaded.others x outside.1
    · intro same
      exact outside.2 (List.mem_singleton.mpr ((pageBase_eq aligned).mpr same))
  · have count := loaded.count
    have grown := added.count
    dsimp only
    omega
  · rw [List.length_append]
    dsimp only
    rw [loaded.frames]
    exact (takeFrames_succ _ _).symm

theorem LoadedPages.setMode {before after : List (Ptr × Bool)} {page : Ptr} {old : Bool}
    (loaded : LoadedPages env start s (before ++ (page, old) :: after)) (flags : BitVec 16) :
    ∃ tables', mmSetPageFlagsArch env.kimg page flags s.ps s.tables = .ok (0, tables') ∧
      LoadedPages env start { s with tables := tables' }
        (before ++ (page, decide (flags &&& pageW ≠ 0)) :: after) := by
  have member : (page, old) ∈ before ++ (page, old) :: after :=
    List.mem_append_right _ List.mem_cons_self
  have tracked := (loaded.pages page).mpr (List.mem_map_of_mem member)
  obtain ⟨aligned, pte, here, frame⟩ := loaded.space.tracked page tracked
  obtain ⟨tables', call, walk, granted, blocks, count, present⟩ :=
    mmSetPageFlagsArch_spec loaded.space.walk loaded.space.granted aligned here frame flags
  have names : (before ++ (page, decide (flags &&& pageW ≠ 0)) :: after).map Prod.fst =
      (before ++ (page, old) :: after).map Prod.fst := by
    rw [List.map_append, List.map_append]
    rfl
  have distinct := loaded.distinct
  refine ⟨tables', call, ⟨walk, granted, loaded.space.sorted, fun p tracked => ?_⟩, ?_, ?_, ?_, ?_,
    ?_, ?_⟩
  · obtain ⟨alignedP, pteP, hereP, frameP⟩ := loaded.space.tracked p tracked
    refine ⟨alignedP, ?_⟩
    rw [present]
    split
    · exact ⟨_, rfl, frame⟩
    · exact ⟨pteP, hereP, frameP⟩
  · rw [names]
    exact loaded.pages
  · rw [names]
    exact distinct
  · intro p writable inside
    dsimp only
    rw [present]
    rw [List.map_append, List.map_cons, List.nodup_append'] at distinct
    obtain ⟨-, later, apart⟩ := distinct
    have elsewhere (other : p ≠ page) (kept : (p, writable) ∈ before ++ (page, old) :: after) :
        ∃ found, (if SamePage p page then some (pte.withFlags flags)
          else presentEntry env.kimg s.ps s.tables p) = some found ∧ found.writable = writable := by
      have alignedP := (loaded.space.tracked p
        ((loaded.pages p).mpr (List.mem_map_of_mem kept))).1
      rw [if_neg fun same => other (same.aligned_eq alignedP aligned)]
      exact loaded.mode p writable kept
    rcases List.mem_append.mp inside with first | rest
    · apply elsewhere
      · rintro rfl
        exact apart (List.mem_map_of_mem first) List.mem_cons_self
      · exact List.mem_append_left _ first
    · rcases List.mem_cons.mp rest with same | last
      · cases same
        rw [if_pos (show SamePage page page from rfl)]
        exact ⟨_, rfl, rfl⟩
      · apply elsewhere
        · rintro rfl
          exact (List.nodup_cons.mp later).1 (List.mem_map.mpr ⟨_, last, rfl⟩)
        · exact List.mem_append_right _ (List.mem_cons_of_mem _ last)
  · intro x outside
    rw [names] at outside
    dsimp only
    rw [present, if_neg]
    · exact loaded.others x outside
    · intro same
      apply outside
      rw [(pageBase_eq aligned).mpr same]
      exact List.mem_map_of_mem member
  · dsimp only
    rw [blocks, count]
    exact loaded.count
  · rw [List.length_append]
    have frames := loaded.frames
    rw [List.length_append] at frames
    exact frames

end

end Dxgmx
