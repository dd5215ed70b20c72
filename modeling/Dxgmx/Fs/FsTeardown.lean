import Dxgmx.Fs.CachedVnodes

open Library

namespace Dxgmx

variable {mem : FsMemory} {cached : List CachedVnode} {fuel : Nat}

/-- Torn down as it has to be: every one of these blocks is freed, nothing else is touched and the
    list is empty. A block that is freed twice, or read after it was freed, would be a fault. -/
def FsTornDown (mem : FsMemory) (blocks : List Nat) (result : Exec FsMemory) : Prop :=
  ∃ left, result = .ok left ∧ left.heap = mem.heap.without blocks ∧ left.vnodeLl = ⟨0, 0⟩

theorem not_fsTornDown {blocks : List Nat} {stop : Stop} :
    ¬ FsTornDown mem blocks (.error stop) := by
  rintro ⟨left, result, -⟩
  cases result

namespace FsMemory

theorem Holds.without {blocks : List Nat} (holds : mem.Holds cached) (driverCtx : Nat)
    (apart : ∀ addr ∈ cachedBlocks cached, addr ∉ blocks) :
    Holds ⟨mem.heap.without blocks, driverCtx, mem.vnodeLl⟩ cached :=
  holds.agree (without_null holds.null blocks) rfl fun addr member =>
    Blocks.without_other (apart addr member)

theorem ramfsMetadata_live {addr files fileCapacity : Nat}
    (live : mem.heap addr = some (.ramfsMetadata files fileCapacity)) :
    mem.ramfsMetadata addr = .ok (files, fileCapacity) := by
  unfold ramfsMetadata
  rw [live]

theorem ramfsFiles_live {addr : Nat} {data : List Nat}
    (live : mem.heap addr = some (.ramfsFiles data)) : mem.ramfsFiles addr = .ok data := by
  unfold ramfsFiles
  rw [live]

theorem ramfsFreeFiles_cons {files fileCapacity addr left : Nat} {before rest : List Nat}
    (ctx : mem.heap mem.driverCtx = some (.ramfsMetadata files fileCapacity))
    (table : mem.heap files = some (.ramfsFiles (before ++ addr :: rest))) :
    ramfsFreeFiles (left + 1) before.length mem =
      if addr = 0 then ramfsFreeFiles left (before.length + 1) mem
      else mem.kfree addr >>= fun mem =>
        mem.store files (.ramfsFiles (before ++ 0 :: rest)) >>= fun mem =>
        ramfsFreeFiles left (before.length + 1) mem := by
  have entry : (before ++ addr :: rest)[before.length]? = some addr := by simp
  have cleared : (before ++ addr :: rest).set before.length 0 = before ++ 0 :: rest := by simp
  show (mem.ramfsMetadata mem.driverCtx >>= _) = _
  rw [ramfsMetadata_live ctx]
  show (mem.ramfsFiles files >>= _) = _
  rw [ramfsFiles_live table, Exec.ok_bind, entry, ← cleared]

/-- The table of a ramfs when its loop has cleared the files before the rest. -/
structure RamfsTable (mem : FsMemory) (files : Nat) (before rest : List Nat) : Prop where
  null : mem.heap 0 = none
  ctx : mem.heap mem.driverCtx = some (.ramfsMetadata files (before ++ rest).length)
  table : mem.heap files = some (.ramfsFiles (before ++ rest))
  live : ∀ addr ∈ rest, addr ≠ 0 → mem.heap addr = some .bytes
  distinct : (rest.filter (· ≠ 0)).Nodup

/-- A round frees what its file contains and writes to nothing but the table. -/
theorem RamfsTable.round {files addr : Nat} {before rest : List Nat}
    (held : mem.RamfsTable files before (addr :: rest)) (left : Nat) :
    ∃ heap, ramfsFreeFiles (left + 1) before.length mem =
        ramfsFreeFiles left (before.length + 1) { mem with heap := heap } ∧
      RamfsTable { mem with heap := heap } files (before ++ [0]) rest ∧
      ∀ other ≠ files, heap other = mem.heap.without ([addr].filter (· ≠ 0)) other := by
  have ctx := held.ctx
  have length : ∀ n, (before ++ addr :: rest).length = (before ++ [n] ++ rest).length := by simp
  have table := held.table
  have later : ∀ other ∈ rest, other ≠ 0 → mem.heap other = some .bytes :=
    fun other member => held.live other (List.mem_cons_of_mem _ member)
  rw [ramfsFreeFiles_cons ctx table]
  by_cases empty : addr = 0
  · subst empty
    refine ⟨mem.heap, if_pos rfl, ⟨held.null, length 0 ▸ ctx, ?_, later, held.distinct⟩, ?_⟩
    · rw [← List.append_cons]
      exact table
    · exact fun other _ => (congrFun Blocks.without_nil other).symm
  · have bytes := held.live addr List.mem_cons_self empty
    have distinct := held.distinct
    rw [List.filter_cons_of_pos (by simpa using empty)] at distinct
    obtain ⟨outside, distinct⟩ := List.nodup_cons.mp distinct
    have notTable : files ≠ addr := by
      rintro rfl
      rw [table] at bytes
      cases bytes
    have notCtx : mem.driverCtx ≠ addr := by
      intro same
      rw [← same, ctx] at bytes
      cases bytes
    have ctxApart : mem.driverCtx ≠ files := by
      intro same
      rw [← same, ctx] at table
      cases table
    have kept : ∀ {other}, other ≠ addr → mem.heap.without [addr] other = mem.heap other :=
      fun apart => Blocks.without_other fun member => apart (List.mem_singleton.mp member)
    have still : ∀ {other}, other ≠ addr → other ≠ files →
        Function.update (mem.heap.without [addr]) files
          (some (.ramfsFiles (before ++ 0 :: rest))) other = mem.heap other :=
      fun apart other => (Function.update_of_ne other _ _).trans (kept apart)
    refine ⟨Function.update (mem.heap.without [addr]) files
      (some (.ramfsFiles (before ++ 0 :: rest))), ?_, ⟨?_, ?_, ?_, ?_, distinct⟩, ?_⟩
    · rw [if_neg empty, kfree_live empty bytes]
      show (store files _ { mem with heap := mem.heap.without [addr] } >>= _) = _
      rw [store_live ((kept notTable).trans table)]
      rfl
    · exact (still (Ne.symm empty) (Ne.symm (live_ne_null held.null table))).trans held.null
    · rw [← length 0]
      exact (still notCtx ctxApart).trans ctx
    · rw [← List.append_cons]
      exact Function.update_self _ _ _
    · intro other member nonzero
      have bytes := later other member nonzero
      refine (still ?_ ?_).trans bytes
      · rintro rfl
        exact outside (List.mem_filter.mpr ⟨member, by simpa using empty⟩)
      · rintro rfl
        rw [table] at bytes
        cases bytes
    · intro other apart
      rw [Function.update_of_ne apart, List.filter_cons_of_pos (by simpa using empty)]
      rfl

theorem RamfsTable.loop {files : Nat} {before rest : List Nat}
    (held : mem.RamfsTable files before rest) :
    ∃ heap, ramfsFreeFiles rest.length before.length mem = .ok { mem with heap := heap } ∧
      RamfsTable { mem with heap := heap } files (before ++ rest.map fun _ => 0) [] ∧
      ∀ other ≠ files, heap other = mem.heap.without (rest.filter (· ≠ 0)) other := by
  induction rest generalizing mem before with
  | nil =>
    refine ⟨mem.heap, rfl, ?_, fun other _ => (congrFun Blocks.without_nil other).symm⟩
    rw [List.map_nil, List.append_nil]
    exact held
  | cons addr rest ih =>
    obtain ⟨cleared, round, next, apart⟩ := held.round rest.length
    obtain ⟨heap, run, last, freed⟩ := ih next
    rw [List.length_append] at run
    refine ⟨heap, round.trans run, ?_, ?_⟩
    · rw [List.append_assoc] at last
      exact last
    · intro other outside
      rw [freed other outside, Blocks.without_congr (apart other outside), Blocks.without_append,
        ← List.filter_append]
      rfl


/-- `ramfs_destroy` frees what the driver holds of its own before it turns to the vnodes. -/
theorem RamfsTable.freed {files : Nat} {data : List Nat} (held : mem.RamfsTable files [] data) :
    mem.ramfsFreeMetadata = .ok ⟨mem.heap.without (data.filter (· ≠ 0) ++ [files, mem.driverCtx]), 0,
      mem.vnodeLl⟩ := by
  obtain ⟨heap, run, cleared, freed⟩ := held.loop
  have run : ramfsFreeFiles data.length 0 mem = .ok { mem with heap := heap } := run
  have filesLive : heap files = some _ := cleared.table
  have ctxLive : heap mem.driverCtx = some _ := cleared.ctx
  have apart : mem.driverCtx ∉ [files] := by
    intro member
    rw [List.mem_singleton.mp member, filesLive] at ctxLive
    cases ctxLive
  have ctxLive' := (Blocks.without_other apart).trans ctxLive
  unfold ramfsFreeMetadata
  rw [ramfsMetadata_live held.ctx]
  show (ramfsFreeFiles data.length 0 mem >>= _) = _
  rw [run]
  show (if files = 0 then _ else _) = _
  rw [if_neg (live_ne_null held.null held.table)]
  show (kfree files { mem with heap := heap } >>= _) = _
  rw [kfree_live (live_ne_null held.null held.table) filesLive]
  show (store mem.driverCtx _ { mem with heap := heap.without [files] } >>= _) = _
  rw [store_live ctxLive']
  show (kfree mem.driverCtx ⟨Function.update _ _ _, mem.driverCtx, mem.vnodeLl⟩ >>= _) = _
  rw [kfree_live (live_ne_null held.null held.ctx) (Function.update_self _ _ _)]
  show Except.ok (FsMemory.mk (Blocks.without _ (Function.update _ _ _)) _ _) = _
  rw [Blocks.without_update (List.mem_singleton_self _), Blocks.without_append]
  have gone : heap.without ([files] ++ [mem.driverCtx]) =
      mem.heap.without (data.filter (· ≠ 0) ++ [files, mem.driverCtx]) := by
    show heap.without [files, mem.driverCtx] = _
    rw [← Blocks.without_append]
    funext addr
    by_cases table : addr = files
    · rw [Blocks.without_mem (by simp [table]), Blocks.without_mem (by simp [table])]
    · exact Blocks.without_congr (freed addr table) _
  rw [gone]


/-- The names of the vnodes are freed, and nothing that the loop itself reads. -/
theorem fatFreeNames_chain {root : Nat} (null : mem.heap 0 = none)
    (chain : Chain mem.heap root cached) (distinct : (cachedBlocks cached).Nodup)
    (enough : cached.length ≤ fuel) :
    fatFreeNames fuel root mem =
      .ok { mem with heap := mem.heap.without (cached.map CachedVnode.name) } := by
  induction cached generalizing mem root fuel with
  | nil =>
    rw [chain.root_nil, List.map_nil, Blocks.without_nil]
    unfold fatFreeNames
    rw [if_pos rfl]
  | cons vnode rest ih =>
    obtain ⟨left, rfl⟩ := Nat.exists_eq_add_of_le enough
    cases chain with
    | @cons vnode next rest node block name chain =>
      have split := List.nodup_append.mp distinct
      have own : vnode.name ∈ vnode.blocks := by simp [CachedVnode.blocks]
      have node' : mem.heap.without [vnode.name] vnode.node = some (.listNode vnode.vnode next) := by
        refine (Blocks.without_other fun member => ?_).trans node
        rw [List.mem_singleton.mp member, name] at node
        cases node
      have chain' : Chain (mem.heap.without [vnode.name]) next rest :=
        chain.agree fun addr later => Blocks.without_other fun member =>
          split.2.2 vnode.name own addr later (List.mem_singleton.mp member).symm
      have run : fatFreeNames (rest.length + left) next
          { mem with heap := mem.heap.without [vnode.name] } = .ok _ :=
        ih (without_null null _) chain' split.2.1 (Nat.le_add_right _ _)
      rw [List.length_cons, Nat.succ_add]
      unfold fatFreeNames
      rw [if_neg (live_ne_null null node)]
      show (mem.listNode vnode.node >>= _) = _
      rw [listNode_live node]
      show (if vnode.vnode = 0 then _ else _) = _
      rw [if_neg (live_ne_null null block), vnodeName_live block]
      show (mem.kfree vnode.name >>= _) = _
      rw [kfree_live (live_ne_null null name) name]
      show (listNode vnode.node { mem with heap := mem.heap.without [vnode.name] } >>= _) = _
      rw [listNode_live node']
      refine run.trans ?_
      rw [Blocks.without_append]
      rfl


def fatBlocks (mem : FsMemory) : List Nat := if mem.driverCtx = 0 then [] else [mem.driverCtx]

theorem fatDestroy_ctx (owns : mem.driverCtx = 0 ∨ mem.heap mem.driverCtx = some .fat32Ctx)
    (fuel : Nat) :
    mem.fatDestroy fuel =
      fatFreeNames fuel mem.vnodeLl.root ⟨mem.heap.without mem.fatBlocks, 0, mem.vnodeLl⟩ >>=
        fsFreeAllCachedVnodes fuel := by
  unfold fatDestroy fatBlocks
  by_cases empty : mem.driverCtx = 0
  · rw [if_pos empty, if_pos empty, Blocks.without_nil, ← empty]
    rfl
  · have live := owns.resolve_left empty
    rw [if_neg empty, if_neg empty, kfree_live empty live]
    rfl

theorem Holds.fatBlocks_apart (holds : mem.Holds cached)
    (live : mem.heap mem.driverCtx = some .fat32Ctx) :
    (mem.fatBlocks ++ cachedBlocks cached).Nodup := by
  unfold fatBlocks
  rw [if_neg (live_ne_null holds.null live)]
  refine List.nodup_cons.mpr ⟨fun member => ?_, holds.distinct⟩
  rcases holds.chain.kinds member with name | ⟨name, block⟩ | ⟨data, next, node⟩
  · rw [live] at name
    cases name
  · rw [live] at block
    cases block
  · rw [live] at node
    cases node

/-- With a vnode in the list the name that the driver freed is freed again. -/
theorem Holds.freed_names (holds : mem.Holds cached) (nonempty : cached ≠ [])
    (enough : cached.length < fuel) :
    fsFreeAllCachedVnodes fuel
      { mem with heap := mem.heap.without (cached.map CachedVnode.name) } = .error .fault := by
  obtain ⟨left, rfl⟩ := Nat.exists_eq_add_of_lt enough
  have root := holds.root_ne_null nonempty
  have names : ∀ addr ∈ cached.map CachedVnode.name, mem.heap addr = some .bytes := by
    intro addr member
    obtain ⟨vnode, inside, rfl⟩ := List.mem_map.mp member
    exact holds.chain.name inside
  have chain := holds.chain
  generalize start : mem.vnodeLl.root = addr at chain
  cases chain with
  | nil => exact absurd rfl nonempty
  | @cons vnode next rest node block name chain =>
    have node' : mem.heap.without ((vnode :: rest).map CachedVnode.name) mem.vnodeLl.root =
        some (.listNode vnode.vnode next) := by
      rw [start]
      refine (Blocks.without_other fun member => ?_).trans node
      rw [names _ member] at node
      cases node
    have block' : mem.heap.without ((vnode :: rest).map CachedVnode.name) vnode.vnode =
        some (.vnode vnode.name) := by
      refine (Blocks.without_other fun member => ?_).trans block
      rw [names _ member] at block
      cases block
    have dead : mem.heap.without ((vnode :: rest).map CachedVnode.name) vnode.name = none :=
      Blocks.without_mem List.mem_cons_self
    unfold fsFreeAllCachedVnodes
    rw [if_neg root]
    show ((listNode mem.vnodeLl.root _ >>= _) >>= _) = _
    rw [listNode_live node']
    show ((vnodeName vnode.vnode _ >>= _) >>= _) = _
    rw [vnodeName_live block']
    show ((kfree vnode.name _ >>= _) >>= _) = _
    rw [kfree_dead (live_ne_null holds.null name) dead]
    rfl

end FsMemory

/-- The ways to tear a file system down, with the files of a ramfs. -/
inductive Teardown
  | fsFreeAllCachedVnodes
  | ramfsDestroy (files : Nat) (data : List Nat)
  | fatDestroy

def Teardown.run (fuel : Nat) (mem : FsMemory) : Teardown → Exec FsMemory
  | fsFreeAllCachedVnodes => mem.fsFreeAllCachedVnodes fuel
  | ramfsDestroy _ _ => mem.ramfsDestroy fuel
  | fatDestroy => mem.fatDestroy fuel

/-- What is the driver's own, besides the vnodes. -/
def Teardown.blocks (mem : FsMemory) : Teardown → List Nat
  | fsFreeAllCachedVnodes => []
  | ramfsDestroy files data => data.filter (· ≠ 0) ++ [files, mem.driverCtx]
  | fatDestroy => mem.fatBlocks

def Teardown.Owns (mem : FsMemory) : Teardown → Prop
  | fsFreeAllCachedVnodes => True
  | ramfsDestroy files data => mem.RamfsTable files [] data
  | fatDestroy => mem.driverCtx = 0 ∨ mem.heap mem.driverCtx = some .fat32Ctx

variable {teardown : Teardown}

/-- Without vnodes the teardown is right. -/
theorem Teardown.empty (holds : mem.Holds []) (owns : teardown.Owns mem) (fuel : Nat) :
    FsTornDown mem (teardown.blocks mem) (teardown.run fuel mem) := by
  cases teardown with
  | fsFreeAllCachedVnodes =>
    exact ⟨mem, holds.fsFreeAllCachedVnodes_empty fuel, Blocks.without_nil.symm, holds.empty⟩
  | ramfsDestroy files data =>
    have left : FsMemory.Holds ⟨mem.heap.without (data.filter (· ≠ 0) ++ [files, mem.driverCtx]), 0,
      mem.vnodeLl⟩ [] := holds.without 0 nofun
    refine ⟨⟨_, 0, mem.vnodeLl⟩, ?_, rfl, holds.empty⟩
    show (mem.ramfsFreeMetadata >>= _) = _
    rw [FsMemory.RamfsTable.freed owns]
    exact left.fsFreeAllCachedVnodes_empty fuel
  | fatDestroy =>
    have left : FsMemory.Holds ⟨mem.heap.without mem.fatBlocks, 0, mem.vnodeLl⟩ [] :=
      holds.without 0 nofun
    refine ⟨⟨_, 0, mem.vnodeLl⟩, ?_, rfl, holds.empty⟩
    refine (FsMemory.fatDestroy_ctx owns fuel).trans ?_
    rw [FsMemory.fatFreeNames_chain left.null left.chain left.distinct (Nat.zero_le _),
      List.map_nil, Blocks.without_nil]
    exact left.fsFreeAllCachedVnodes_empty fuel

/-- With any vnode cached the teardown frees all of them and then reads or frees once too often. -/
theorem Teardown.nonempty (holds : mem.Holds cached) (nonempty : cached ≠ [])
    (owns : teardown.Owns mem) (distinct : (teardown.blocks mem ++ cachedBlocks cached).Nodup)
    (enough : cached.length < fuel) : teardown.run fuel mem = .error .fault := by
  have apart : ∀ addr ∈ cachedBlocks cached, addr ∉ teardown.blocks mem :=
    fun addr member own => (List.nodup_append.mp distinct).2.2 addr own addr member rfl
  cases teardown with
  | fsFreeAllCachedVnodes => exact holds.fsFreeAllCachedVnodes_some nonempty enough
  | ramfsDestroy files data =>
    show (mem.ramfsFreeMetadata >>= _) = _
    rw [FsMemory.RamfsTable.freed owns]
    exact (holds.without 0 apart).fsFreeAllCachedVnodes_some nonempty enough
  | fatDestroy =>
    have left : FsMemory.Holds ⟨mem.heap.without mem.fatBlocks, 0, mem.vnodeLl⟩ cached :=
      holds.without 0 apart
    refine (FsMemory.fatDestroy_ctx owns fuel).trans ?_
    rw [FsMemory.fatFreeNames_chain left.null left.chain left.distinct (Nat.le_of_lt enough)]
    exact left.freed_names nonempty enough

theorem Teardown.tornDown_iff (holds : mem.Holds cached) (owns : teardown.Owns mem)
    (distinct : (teardown.blocks mem ++ cachedBlocks cached).Nodup)
    (enough : cached.length < fuel) :
    FsTornDown mem (teardown.blocks mem ++ cachedBlocks cached) (teardown.run fuel mem) ↔
      cached = [] := by
  by_cases empty : cached = []
  · subst empty
    refine ⟨fun _ => rfl, fun _ => ?_⟩
    have right := teardown.empty holds owns fuel
    rw [← List.append_nil (teardown.blocks mem)] at right
    exact right
  · rw [teardown.nonempty holds empty owns distinct enough]
    exact ⟨fun torn => absurd torn not_fsTornDown, fun none => absurd none empty⟩

/-- The vnodes that are cached when an error exit of `fat_init` calls `fat_destroy`. -/
def FatInitAnswers.cachedAtExit (answers : FatInitAnswers) : Option (List CachedVnode) :=
  if answers.parseMetadata < 0 ∨ answers.isFat32 = false then some []
  else
    match answers.rootVnode with
    | none => some []
    | some root =>
      if answers.rootFound = true ∧ answers.enumerate < 0 then some (root :: answers.enumerated)
      else none

namespace FsMemory

theorem Holds.last_kind (holds : mem.Holds cached) :
    mem.vnodeLl.last = 0 ∨ ∃ data next, mem.heap mem.vnodeLl.last = some (.listNode data next) := by
  rcases List.eq_nil_or_concat cached with rfl | ⟨initial, last, rfl⟩
  · exact .inl holds.last
  · rw [List.concat_eq_append] at holds
    refine .inr ⟨last.vnode, 0, ?_⟩
    rw [holds.last, lastNode_concat]
    exact holds.chain.last_node initial

/-- Caching a vnode leaves the context and the addresses for the later vnodes alone. -/
theorem Holds.cache_one {vnode : CachedVnode} {later : List Nat} (holds : mem.Holds cached)
    (unused : mem.Unused (vnode.blocks ++ later))
    (ctx : mem.heap mem.driverCtx = some .fat32Ctx) :
    ∃ left, mem.fsNewVnodeCache vnode = .ok left ∧ left.Holds (cached ++ [vnode]) ∧
      left.Unused later ∧ left.driverCtx = mem.driverCtx ∧
      left.heap left.driverCtx = some .fat32Ctx := by
  have split := List.nodup_append.mp unused.distinct
  have own : mem.Unused vnode.blocks := ⟨fun member => unused.nonnull (List.mem_append_left _ member),
    fun addr member => unused.dead addr (List.mem_append_left _ member), split.1⟩
  obtain ⟨left, cached', held, same, kept⟩ := holds.fsNewVnodeCache own
  refine ⟨left, cached', held, ⟨fun member => unused.nonnull (List.mem_append_right _ member), ?_,
    split.2.1⟩, same, ?_⟩
  · intro addr member
    have dead := unused.dead addr (List.mem_append_right _ member)
    refine (kept addr (fun mine => split.2.2 addr mine addr member rfl) ?_).trans dead
    rintro rfl
    rcases holds.last_kind with null | ⟨data, next, live⟩
    · rw [null] at member
      exact unused.nonnull (List.mem_append_right _ member)
    · rw [dead] at live
      cases live
  · rw [same]
    refine (kept _ (fun mine => ?_) ?_).trans ctx
    · have dead := own.dead _ mine
      rw [ctx] at dead
      cases dead
    · intro same
      rcases holds.last_kind with null | ⟨data, next, live⟩
      · rw [same, null, holds.null] at ctx
        cases ctx
      · rw [← same, ctx] at live
        cases live

theorem Holds.cache_all {added : List CachedVnode} (holds : mem.Holds cached)
    (unused : mem.Unused (cachedBlocks added))
    (ctx : mem.heap mem.driverCtx = some .fat32Ctx) :
    ∃ left, fatCacheVnodes added mem = .ok left ∧ left.Holds (cached ++ added) ∧
      left.driverCtx = mem.driverCtx ∧ left.heap left.driverCtx = some .fat32Ctx := by
  induction added generalizing mem cached with
  | nil => exact ⟨mem, rfl, by rwa [List.append_nil], rfl, ctx⟩
  | cons vnode rest ih =>
    obtain ⟨next, first, held, later, same, kept⟩ := holds.cache_one unused ctx
    obtain ⟨left, run, all, same', kept'⟩ := ih held later kept
    rw [List.append_assoc] at all
    refine ⟨left, ?_, all, same'.trans same, kept'⟩
    show (mem.fsNewVnodeCache vnode >>= _) = _
    rw [first]
    exact run


/-- The memory of `fat_init` once its context is allocated. -/
def withCtx (mem : FsMemory) (ctx : Nat) : FsMemory :=
  ⟨Function.update mem.heap ctx (some .fat32Ctx), ctx, mem.vnodeLl⟩

theorem Holds.withCtx {ctx : Nat} (holds : mem.Holds []) (nonnull : ctx ≠ 0) :
    (mem.withCtx ctx).Holds [] :=
  holds.agree ((Function.update_of_ne (Ne.symm nonnull) _ _).trans holds.null) rfl nofun

/-- An error exit of `fat_init` calls `fat_destroy` with these vnodes cached. -/
theorem fatInitCtx_exit {answers : FatInitAnswers} {ctx : Nat} (holds : (mem.withCtx ctx).Holds [])
    (unused : (mem.withCtx ctx).Unused (cachedBlocks cached))
    (exit : answers.cachedAtExit = some cached) :
    ∃ left code, left.Holds cached ∧ left.heap left.driverCtx = some .fat32Ctx ∧
      (cached = [] → left = mem.withCtx ctx) ∧
      ∀ fuel, fatInitCtx answers fuel (mem.withCtx ctx) =
        left.fatDestroy fuel >>= fun torn => pure (code, torn) := by
  have live : (mem.withCtx ctx).heap (mem.withCtx ctx).driverCtx = some .fat32Ctx :=
    Function.update_self _ _ _
  unfold FatInitAnswers.cachedAtExit at exit
  unfold fatInitCtx
  by_cases early : answers.parseMetadata < 0 ∨ answers.isFat32 = false
  · rw [if_pos early] at exit
    cases exit
    by_cases parse : answers.parseMetadata < 0
    · exact ⟨_, answers.parseMetadata, holds, live, fun _ => rfl, fun _ => if_pos parse⟩
    · refine ⟨_, -22, holds, live, fun _ => rfl, fun _ => ?_⟩
      rw [if_neg parse, if_pos (early.resolve_left parse)]
  · rw [if_neg early] at exit
    obtain ⟨parse, type⟩ := not_or.mp early
    cases rootVnode : answers.rootVnode with
    | none =>
      rw [rootVnode] at exit
      cases exit
      refine ⟨_, -12, holds, live, fun _ => rfl, fun _ => ?_⟩
      rw [if_neg parse, if_neg type]
    | some root =>
      rw [rootVnode] at exit
      by_cases failed : answers.rootFound = true ∧ answers.enumerate < 0
      · dsimp only at exit
        rw [if_pos failed] at exit
        cases exit
        obtain ⟨first, run, held, later, -, kept⟩ := holds.cache_one unused live
        obtain ⟨left, rest, all, -, ctxLive⟩ := held.cache_all later kept
        refine ⟨left, answers.enumerate, all, ctxLive, nofun, fun fuel => ?_⟩
        rw [if_neg parse, if_neg type]
        show (fsNewVnodeCache root _ >>= _) = _
        rw [run]
        show (assert (answers.rootFound = true) >>= _) = _
        unfold assert
        rw [if_pos failed.1]
        show (fatCacheVnodes answers.enumerated first >>= _) = _
        rw [rest]
        exact if_pos failed.2
      · dsimp only at exit
        rw [if_neg failed] at exit
        cases exit

end FsMemory

/-- `fat_init` finds its device, takes it for a FAT and gets its context at this address. -/
structure FatInitAnswers.Allocates (answers : FatInitAnswers) (ctx : Nat) : Prop where
  blkdev : answers.blkdev = true
  validate : ¬ answers.validate < 0
  fatctx : answers.fatctx = some ctx

theorem FatInitAnswers.Allocates.run {answers : FatInitAnswers} {ctx : Nat}
    (allocates : answers.Allocates ctx) (fuel : Nat) :
    mem.fatInit answers fuel = FsMemory.fatInitCtx answers fuel (mem.withCtx ctx) := by
  have blkdev : ¬ answers.blkdev = false := by
    rw [allocates.blkdev]
    exact nofun
  unfold FsMemory.fatInit
  rw [if_neg blkdev, if_neg allocates.validate, allocates.fatctx]
  rfl

theorem fatInit_tornDown_iff {answers : FatInitAnswers} {ctx : Nat} (holds : mem.Holds [])
    (allocates : answers.Allocates ctx) (exit : answers.cachedAtExit = some cached)
    (unused : mem.Unused (ctx :: cachedBlocks cached)) (enough : cached.length < fuel) :
    FsTornDown mem [] (Prod.snd <$> mem.fatInit answers fuel) ↔ cached = [] := by
  obtain ⟨fresh, distinct⟩ := List.nodup_cons.mp unused.distinct
  have nonnull : ctx ≠ 0 := fun same => unused.nonnull (same ▸ List.mem_cons_self)
  have unused' : (mem.withCtx ctx).Unused (cachedBlocks cached) := by
    refine ⟨fun member => unused.nonnull (List.mem_cons_of_mem _ member), ?_, distinct⟩
    intro addr member
    have other : addr ≠ ctx := fun same => fresh (same ▸ member)
    exact (Function.update_of_ne other _ _).trans
      (unused.dead addr (List.mem_cons_of_mem _ member))
  obtain ⟨left, code, held, live, early, run⟩ :=
    FsMemory.fatInitCtx_exit (holds.withCtx nonnull) unused' exit
  rw [allocates.run, run]
  by_cases empty : cached = []
  · have same := early empty
    subst empty same
    obtain ⟨torn, result, heap, list⟩ := Teardown.fatDestroy.empty held (.inr live) fuel
    refine ⟨fun _ => rfl, fun _ => ⟨torn, ?_, ?_, list⟩⟩
    · show Prod.snd <$> (FsMemory.fatDestroy fuel _ >>= _) = _
      rw [show FsMemory.fatDestroy fuel (mem.withCtx ctx) = .ok torn from result]
      rfl
    · have back : Blocks.without [ctx] (Function.update mem.heap ctx (some .fat32Ctx)) =
          mem.heap := by
        rw [Blocks.without_update (List.mem_singleton_self ctx)]
        funext addr
        by_cases same : addr = ctx
        · rw [same, Blocks.without_mem (List.mem_singleton_self ctx)]
          exact (unused.dead ctx List.mem_cons_self).symm
        · exact Blocks.without_other fun member => same (List.mem_singleton.mp member)
      rw [heap, Blocks.without_nil]
      show Blocks.without (FsMemory.fatBlocks _) _ = _
      unfold FsMemory.fatBlocks
      rw [if_neg (show ¬ (mem.withCtx ctx).driverCtx = 0 from nonnull)]
      exact back
  · have faulted : left.fatDestroy fuel = .error .fault :=
      Teardown.fatDestroy.nonempty held empty (.inr live) (held.fatBlocks_apart live) enough
    rw [faulted]
    exact ⟨fun torn => absurd torn not_fsTornDown, fun none => absurd none empty⟩

/-- A teardown does what it has to exactly when no vnode is cached. An error exit of `fat_init`
    leaves the heap as it was before `fat_init`. -/
theorem torn_down_iff_none_cached (mem : FsMemory) (cached : List CachedVnode) (fuel : Nat)
    (enough : cached.length < fuel) :
    (∀ teardown : Teardown, mem.Holds cached → teardown.Owns mem →
      (teardown.blocks mem ++ cachedBlocks cached).Nodup →
      (FsTornDown mem (teardown.blocks mem ++ cachedBlocks cached) (teardown.run fuel mem) ↔
        cached = [])) ∧
    ∀ (answers : FatInitAnswers) (ctx : Nat), mem.Holds [] → answers.Allocates ctx →
      answers.cachedAtExit = some cached → mem.Unused (ctx :: cachedBlocks cached) →
      (FsTornDown mem [] (Prod.snd <$> mem.fatInit answers fuel) ↔ cached = []) :=
  ⟨fun _ holds owns distinct => Teardown.tornDown_iff holds owns distinct enough,
    fun _ _ holds allocates exit unused => fatInit_tornDown_iff holds allocates exit unused enough⟩

/-- A ramfs with as many files as it starts with and, once it is mounted, its root. -/
def ramfsMemory (vnodeLl : LinkedList) : FsMemory where
  heap addr := match addr with
    | 16 => some (.ramfsMetadata 32 8)
    | 32 => some (.ramfsFiles (List.replicate 8 0))
    | 48 => some (.vnode 64)
    | 64 => some .bytes
    | 80 => some (.listNode 48 0)
    | _ => none
  driverCtx := 16
  vnodeLl := vnodeLl

theorem ramfsMemory_owns (vnodeLl : LinkedList) :
    (Teardown.ramfsDestroy 32 (List.replicate 8 0)).Owns (ramfsMemory vnodeLl) where
  null := rfl
  ctx := rfl
  table := rfl
  live addr member nonzero := absurd (List.eq_of_mem_replicate member) nonzero
  distinct := by decide

theorem ramfsMemory_empty : (ramfsMemory ⟨0, 0⟩).Holds [] := ⟨rfl, .nil, rfl, by decide⟩

theorem ramfsMemory_mounted : (ramfsMemory ⟨80, 80⟩).Holds [⟨80, 48, 64⟩] :=
  ⟨rfl, @Chain.cons _ ⟨80, 48, 64⟩ 0 [] rfl rfl rfl .nil, rfl, by decide⟩

def fatAnswers : FatInitAnswers where
  blkdev := true
  validate := 0
  fatctx := some 96
  parseMetadata := 1
  isFat32 := false
  rootVnode := none
  rootFound := false
  enumerated := []
  enumerate := 0

theorem torn_down_unused_ramfs :
    FsTornDown (ramfsMemory ⟨0, 0⟩) [32, 16]
      ((Teardown.ramfsDestroy 32 (List.replicate 8 0)).run 1 (ramfsMemory ⟨0, 0⟩)) ∧
    FsTornDown (ramfsMemory ⟨0, 0⟩) [] (Prod.snd <$> (ramfsMemory ⟨0, 0⟩).fatInit fatAnswers 1) :=
  ⟨((torn_down_iff_none_cached _ [] 1 (by decide)).1 _ ramfsMemory_empty (ramfsMemory_owns _)
      (by decide)).mpr rfl,
    ((torn_down_iff_none_cached _ [] 1 (by decide)).2 fatAnswers 96 ramfsMemory_empty
      ⟨rfl, by decide, rfl⟩ rfl ⟨by decide, by decide, by decide⟩).mpr rfl⟩

/-- The teardown of a ramfs that was just mounted reads the root of its list once it is NULL. -/
theorem mounted_ramfs_not_torn_down :
    (ramfsMemory ⟨80, 80⟩).Holds [⟨80, 48, 64⟩] ∧
    (Teardown.ramfsDestroy 32 (List.replicate 8 0)).Owns (ramfsMemory ⟨80, 80⟩) ∧
    (ramfsMemory ⟨80, 80⟩).ramfsDestroy 2 = .error .fault ∧
    ¬ FsTornDown (ramfsMemory ⟨80, 80⟩) [32, 16, 64, 48, 80]
      ((Teardown.ramfsDestroy 32 (List.replicate 8 0)).run 2 (ramfsMemory ⟨80, 80⟩)) := by
  have faulted : (ramfsMemory ⟨80, 80⟩).ramfsDestroy 2 = .error .fault := rfl
  refine ⟨ramfsMemory_mounted, ramfsMemory_owns _, faulted, ?_⟩
  show ¬ FsTornDown _ _ ((ramfsMemory ⟨80, 80⟩).ramfsDestroy 2)
  rw [faulted]
  exact not_fsTornDown

end Dxgmx
