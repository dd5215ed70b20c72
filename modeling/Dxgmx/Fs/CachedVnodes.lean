import Dxgmx.Fs.FsMemory
import Mathlib.Data.List.Nodup

open Library

namespace Dxgmx

variable {mem : FsMemory} {heap other : Blocks FsBlock} {cached : List CachedVnode}
variable {addr root fuel : Nat} {vnode : CachedVnode} {block : FsBlock}

def CachedVnode.blocks (vnode : CachedVnode) : List Nat := [vnode.name, vnode.vnode, vnode.node]

def cachedBlocks (cached : List CachedVnode) : List Nat := cached.flatMap CachedVnode.blocks

theorem cachedBlocks_append (first second : List CachedVnode) :
    cachedBlocks (first ++ second) = cachedBlocks first ++ cachedBlocks second :=
  List.flatMap_append

def lastNode (cached : List CachedVnode) : Nat := (cached.getLast?.map CachedVnode.node).getD 0

theorem lastNode_concat (cached : List CachedVnode) (vnode : CachedVnode) :
    lastNode (cached ++ [vnode]) = vnode.node := by
  unfold lastNode
  rw [List.getLast?_concat]
  rfl

theorem lastNode_mem (nonempty : cached ≠ []) : lastNode cached ∈ cachedBlocks cached := by
  rcases List.eq_nil_or_concat cached with rfl | ⟨initial, last, rfl⟩
  · exact absurd rfl nonempty
  · rw [List.concat_eq_append, lastNode_concat]
    exact List.mem_flatMap.mpr ⟨last, by simp, by simp [CachedVnode.blocks]⟩

theorem lastNode_cons (vnode : CachedVnode) (nonempty : cached ≠ []) :
    lastNode (vnode :: cached) = lastNode cached := by
  unfold lastNode
  rw [List.getLast?_cons]
  rcases List.eq_nil_or_concat cached with rfl | ⟨initial, last, rfl⟩
  · exact absurd rfl nonempty
  · rw [List.concat_eq_append, List.getLast?_concat]
    rfl

/-- The list from a node on, with the vnodes and the names that hang on it. -/
inductive Chain (heap : Blocks FsBlock) : Nat → List CachedVnode → Prop
  | nil : Chain heap 0 []
  | cons {vnode : CachedVnode} {next : Nat} {rest : List CachedVnode}
      (node : heap vnode.node = some (.listNode vnode.vnode next))
      (block : heap vnode.vnode = some (.vnode vnode.name))
      (name : heap vnode.name = some .bytes)
      (chain : Chain heap next rest) : Chain heap vnode.node (vnode :: rest)

theorem Chain.agree (chain : Chain heap root cached)
    (same : ∀ addr ∈ cachedBlocks cached, other addr = heap addr) : Chain other root cached := by
  induction chain with
  | nil => exact .nil
  | @cons vnode next rest node block name _ ih =>
    have own : ∀ addr ∈ vnode.blocks, other addr = heap addr :=
      fun addr member => same addr (List.mem_append_left _ member)
    exact .cons ((own _ (by simp [CachedVnode.blocks])).trans node)
      ((own _ (by simp [CachedVnode.blocks])).trans block)
      ((own _ (by simp [CachedVnode.blocks])).trans name)
      (ih fun addr member => same addr (List.mem_append_right _ member))

theorem Chain.root_nil (chain : Chain heap root []) : root = 0 := by
  cases chain
  rfl

theorem Chain.kinds (chain : Chain heap root cached) (member : addr ∈ cachedBlocks cached) :
    heap addr = some .bytes ∨ (∃ name, heap addr = some (.vnode name)) ∨
      ∃ data next, heap addr = some (.listNode data next) := by
  induction chain with
  | nil => cases member
  | cons node block name _ ih =>
    rcases List.mem_append.mp member with own | later
    · simp only [CachedVnode.blocks, List.mem_cons, List.not_mem_nil, or_false] at own
      rcases own with rfl | rfl | rfl
      · exact .inl name
      · exact .inr (.inl ⟨_, block⟩)
      · exact .inr (.inr ⟨_, _, node⟩)
    · exact ih later

theorem Chain.name (chain : Chain heap root cached) (member : vnode ∈ cached) :
    heap vnode.name = some .bytes := by
  induction chain with
  | nil => cases member
  | cons _ _ name _ ih =>
    rcases List.mem_cons.mp member with rfl | later
    · exact name
    · exact ih later

theorem Chain.concat {last : CachedVnode} (initial : List CachedVnode)
    (chain : Chain heap root (initial ++ [last]))
    (distinct : (cachedBlocks (initial ++ [last])).Nodup)
    (same : ∀ addr ∈ cachedBlocks (initial ++ [last]), addr ≠ last.node → other addr = heap addr)
    (linked : other last.node = some (.listNode last.vnode vnode.node))
    (added : Chain other vnode.node [vnode]) :
    Chain other root (initial ++ [last] ++ [vnode]) := by
  induction initial generalizing root with
  | nil =>
    cases chain with
    | cons node block name _ =>
      have notName : last.name ≠ last.node := by
        intro equal
        rw [equal, node] at name
        cases name
      have notVnode : last.vnode ≠ last.node := by
        intro equal
        rw [equal, node] at block
        cases block
      exact .cons linked ((same _ (by simp [cachedBlocks, CachedVnode.blocks]) notVnode).trans block)
        ((same _ (by simp [cachedBlocks, CachedVnode.blocks]) notName).trans name) added
  | cons first rest ih =>
    cases chain with
    | cons node block name chain =>
      have split := List.nodup_append.mp distinct
      have member : last.node ∈ cachedBlocks (rest ++ [last]) := by
        simp [cachedBlocks, CachedVnode.blocks]
      have own : ∀ addr ∈ first.blocks, other addr = heap addr := fun addr inside =>
        same addr (List.mem_append_left _ inside) (split.2.2 addr inside last.node member)
      exact .cons ((own _ (by simp [CachedVnode.blocks])).trans node)
        ((own _ (by simp [CachedVnode.blocks])).trans block)
        ((own _ (by simp [CachedVnode.blocks])).trans name)
        (ih chain split.2.1 fun addr inside => same addr (List.mem_append_right _ inside))

theorem Chain.last_node {last : CachedVnode} (initial : List CachedVnode)
    (chain : Chain heap root (initial ++ [last])) :
    heap last.node = some (.listNode last.vnode 0) := by
  induction initial generalizing root with
  | nil =>
    cases chain with
    | cons node _ _ chain =>
      rw [chain.root_nil] at node
      exact node
  | cons first rest ih =>
    cases chain with
    | cons _ _ _ chain => exact ih chain

namespace FsMemory

/-- The list of a file system holds these vnodes and the memory is as the drivers leave it. -/
structure Holds (mem : FsMemory) (cached : List CachedVnode) : Prop where
  null : mem.heap 0 = none
  chain : Chain mem.heap mem.vnodeLl.root cached
  last : mem.vnodeLl.last = lastNode cached
  distinct : (cachedBlocks cached).Nodup

theorem Holds.empty (holds : mem.Holds []) : mem.vnodeLl = ⟨0, 0⟩ := by
  have last : mem.vnodeLl.last = 0 := holds.last
  have root : mem.vnodeLl.root = 0 := holds.chain.root_nil
  show LinkedList.mk mem.vnodeLl.root mem.vnodeLl.last = _
  rw [root, last]

theorem Holds.agree {left : FsMemory} (holds : mem.Holds cached) (null : left.heap 0 = none)
    (list : left.vnodeLl = mem.vnodeLl)
    (same : ∀ addr ∈ cachedBlocks cached, left.heap addr = mem.heap addr) : left.Holds cached where
  null := null
  chain := by
    rw [list]
    exact holds.chain.agree same
  last := by
    rw [list]
    exact holds.last
  distinct := holds.distinct

theorem Holds.live (holds : mem.Holds cached) (member : addr ∈ cachedBlocks cached) :
    ∃ block, mem.heap addr = some block := by
  rcases holds.chain.kinds member with name | ⟨name, block⟩ | ⟨data, next, node⟩
  · exact ⟨_, name⟩
  · exact ⟨_, block⟩
  · exact ⟨_, node⟩

theorem live_ne_null (null : mem.heap 0 = none) (live : mem.heap addr = some block) : addr ≠ 0 := by
  rintro rfl
  rw [null] at live
  cases live

theorem without_null (null : heap 0 = none) (addrs : List Nat) : heap.without addrs 0 = none := by
  by_cases member : 0 ∈ addrs
  · exact Blocks.without_mem member
  · rw [Blocks.without_other member, null]

theorem kfree_live (nonnull : addr ≠ 0) (live : mem.heap addr = some block) :
    mem.kfree addr = .ok { mem with heap := mem.heap.without [addr] } := by
  unfold kfree
  rw [if_neg nonnull, Blocks.free_live live]
  rfl

theorem kfree_dead (nonnull : addr ≠ 0) (dead : mem.heap addr = none) :
    mem.kfree addr = .error .fault := by
  unfold kfree
  rw [if_neg nonnull, Blocks.free_dead dead]
  rfl

theorem store_live (live : mem.heap addr = some block) (stored : FsBlock) :
    mem.store addr stored = .ok { mem with heap := Function.update mem.heap addr (some stored) } := by
  unfold FsMemory.store
  rw [Blocks.store_live live]
  rfl

theorem listNode_live {data next : Nat} (live : mem.heap addr = some (.listNode data next)) :
    mem.listNode addr = .ok (data, next) := by
  unfold listNode
  rw [live]

theorem listNode_dead (dead : mem.heap addr = none) : mem.listNode addr = .error .fault := by
  unfold listNode
  rw [dead]

theorem vnodeName_live {name : Nat} (live : mem.heap addr = some (.vnode name)) :
    mem.vnodeName addr = .ok name := by
  unfold vnodeName
  rw [live]

/-- Removing the first node frees it and moves the root on. -/
theorem linkedlistRemoveByPosition_first {data next : Nat} (null : mem.heap 0 = none)
    (node : mem.heap mem.vnodeLl.root = some (.listNode data next)) :
    mem.linkedlistRemoveByPosition 0 = .ok (0, { mem with
      heap := mem.heap.without [mem.vnodeLl.root]
      vnodeLl := ⟨next, if mem.vnodeLl.last = mem.vnodeLl.root then 0 else mem.vnodeLl.last⟩ }) := by
  have nonnull := live_ne_null null node
  unfold linkedlistRemoveByPosition
  show (if mem.vnodeLl.root = 0 then _ else _) = _
  rw [if_neg nonnull, listNode_live node]
  have freed : kfree mem.vnodeLl.root { mem with
      vnodeLl := ⟨next, if mem.vnodeLl.last = mem.vnodeLl.root then 0 else mem.vnodeLl.last⟩ } =
      .ok _ := kfree_live nonnull node
  show (kfree mem.vnodeLl.root _ >>= _) = _
  rw [freed]
  rfl


theorem fsFreeFirstVnode_live {name vnode next : Nat} (null : mem.heap 0 = none)
    (node : mem.heap mem.vnodeLl.root = some (.listNode vnode next))
    (block : mem.heap vnode = some (.vnode name)) (bytes : mem.heap name = some .bytes) :
    mem.fsFreeFirstVnode = .ok (0, { mem with
      heap := mem.heap.without [name, vnode, mem.vnodeLl.root]
      vnodeLl := ⟨next, if mem.vnodeLl.last = mem.vnodeLl.root then 0 else mem.vnodeLl.last⟩ }) := by
  have notVnode : vnode ∉ [name] := by
    rintro member
    rw [List.mem_singleton.mp member, bytes] at block
    cases block
  have notNode : mem.vnodeLl.root ∉ [name, vnode] := by
    intro member
    rcases List.mem_cons.mp member with same | member
    · rw [same, bytes] at node
      cases node
    · rw [List.mem_singleton.mp member, block] at node
      cases node
  have vnodeLive : mem.heap.without [name] vnode = some (.vnode name) :=
    (Blocks.without_other notVnode).trans block
  have gone : Blocks.without [vnode] (Function.update (mem.heap.without [name]) vnode
      (some (.vnode 0))) = mem.heap.without [name, vnode] := by
    rw [Blocks.without_update (List.mem_singleton_self vnode), Blocks.without_append]
    rfl
  have nodeLive : mem.heap.without [name, vnode] mem.vnodeLl.root = some (.listNode vnode next) :=
    (Blocks.without_other notNode).trans node
  unfold fsFreeFirstVnode
  rw [listNode_live node]
  show (mem.vnodeName vnode >>= _) = _
  rw [vnodeName_live block]
  show (mem.kfree name >>= _) = _
  rw [kfree_live (live_ne_null null bytes) bytes]
  show (store vnode _ { mem with heap := mem.heap.without [name] } >>= _) = _
  rw [store_live vnodeLive]
  show (kfree vnode { mem with
      heap := Function.update (mem.heap.without [name]) vnode (some (.vnode 0)) } >>= _) = _
  rw [kfree_live (live_ne_null null block) (Function.update_self _ _ _)]
  show linkedlistRemoveByPosition 0 { mem with heap := Blocks.without [vnode] _ } = _
  rw [gone, linkedlistRemoveByPosition_first (without_null null _) nodeLive]
  show Except.ok (_, FsMemory.mk (Blocks.without _ _) _ _) = _
  rw [Blocks.without_append]
  rfl

/-- One round of the loop gives back the first vnode and nothing else. -/
theorem Holds.first {rest : List CachedVnode} (holds : mem.Holds (vnode :: rest)) :
    ∃ left, mem.fsFreeFirstVnode = .ok (0, left) ∧ left.Holds rest ∧
      left.heap = mem.heap.without vnode.blocks := by
  have chain := holds.chain
  generalize start : mem.vnodeLl.root = root at chain
  cases chain with
  | @cons vnode next rest node block name chain =>
    have node' : mem.heap mem.vnodeLl.root = some (.listNode vnode.vnode next) := start ▸ node
    have distinct := List.nodup_append.mp holds.distinct
    refine ⟨_, fsFreeFirstVnode_live holds.null node' block name,
      ⟨without_null holds.null _, chain.agree ?_, ?_, distinct.2.1⟩, ?_⟩
    · intro addr member
      rw [start]
      exact Blocks.without_other fun own => distinct.2.2 addr own addr member rfl
    · show (if mem.vnodeLl.last = mem.vnodeLl.root then 0 else mem.vnodeLl.last) = lastNode rest
      rw [start, holds.last]
      by_cases alone : rest = []
      · rw [alone]
        exact if_pos rfl
      · have other : lastNode rest ≠ vnode.node := fun same =>
          distinct.2.2 vnode.node (by simp [CachedVnode.blocks]) _ (lastNode_mem alone) same.symm
        rw [lastNode_cons vnode alone, if_neg other]
    · rw [start]
      rfl

/-- After a round for each vnode the list is empty and the loop goes on. -/
theorem Holds.loop (holds : mem.Holds cached) (fuel : Nat) :
    ∃ left, fsFreeVnodesLoop (cached.length + fuel) mem = fsFreeVnodesLoop fuel left ∧
      left.Holds [] ∧ left.heap = mem.heap.without (cachedBlocks cached) := by
  induction cached generalizing mem with
  | nil => exact ⟨mem, by rw [List.length_nil, Nat.zero_add], holds, Blocks.without_nil.symm⟩
  | cons vnode rest ih =>
    obtain ⟨next, round, held, heap⟩ := holds.first
    obtain ⟨left, run, empty, freed⟩ := ih held
    refine ⟨left, ?_, empty, ?_⟩
    · rw [List.length_cons, Nat.succ_add, ← run]
      show (mem.fsFreeFirstVnode >>= _) = _
      rw [round]
      rfl
    · rw [freed, heap, Blocks.without_append]
      rfl

/-- The round after the last vnode reads the root, which is NULL by then. -/
theorem Holds.round_empty (holds : mem.Holds []) : mem.fsFreeFirstVnode = .error .fault := by
  have root : mem.heap mem.vnodeLl.root = none := by
    rw [holds.chain.root_nil]
    exact holds.null
  unfold fsFreeFirstVnode
  rw [listNode_dead root]
  rfl

theorem Holds.fsFreeAllCachedVnodes_empty (holds : mem.Holds []) (fuel : Nat) :
    mem.fsFreeAllCachedVnodes fuel = .ok mem := if_pos holds.chain.root_nil

theorem Holds.root_ne_null (holds : mem.Holds cached) (nonempty : cached ≠ []) :
    mem.vnodeLl.root ≠ 0 := by
  have chain := holds.chain
  generalize mem.vnodeLl.root = root at chain
  cases chain with
  | nil => exact absurd rfl nonempty
  | cons node => exact live_ne_null holds.null node

theorem Holds.fsFreeAllCachedVnodes_some (holds : mem.Holds cached) (nonempty : cached ≠ [])
    (enough : cached.length < fuel) : mem.fsFreeAllCachedVnodes fuel = .error .fault := by
  obtain ⟨extra, rfl⟩ := Nat.exists_eq_add_of_lt enough
  obtain ⟨left, run, empty, -⟩ := holds.loop (extra + 1)
  unfold fsFreeAllCachedVnodes
  rw [if_neg (holds.root_ne_null nonempty), Nat.add_assoc, run]
  show (left.fsFreeFirstVnode >>= _) = _
  rw [empty.round_empty]
  rfl


/-- Addresses that `kmalloc` may answer. -/
structure Unused (mem : FsMemory) (addrs : List Nat) : Prop where
  nonnull : 0 ∉ addrs
  dead : ∀ addr ∈ addrs, mem.heap addr = none
  distinct : addrs.Nodup

theorem Holds.apart {addrs : List Nat} (holds : mem.Holds cached) (unused : mem.Unused addrs)
    (member : addr ∈ cachedBlocks cached) : addr ∉ addrs := by
  intro fresh
  obtain ⟨block, live⟩ := holds.live member
  rw [unused.dead addr fresh] at live
  cases live

theorem linkedlistAdd_first {data node : Nat} (empty : mem.vnodeLl = ⟨0, 0⟩) :
    mem.linkedlistAdd data node = .ok { mem with
      heap := Function.update mem.heap node (some (.listNode data 0))
      vnodeLl := ⟨node, node⟩ } := by
  unfold linkedlistAdd
  rw [empty]
  rfl

theorem linkedlistAdd_last {data node old next : Nat} (nonempty : mem.vnodeLl.last ≠ 0)
    (live : mem.heap mem.vnodeLl.last = some (.listNode old next)) :
    mem.linkedlistAdd data node = .ok { mem with
      heap := Function.update (Function.update mem.heap mem.vnodeLl.last
        (some (.listNode old node))) node (some (.listNode data 0))
      vnodeLl := ⟨mem.vnodeLl.root, node⟩ } := by
  unfold linkedlistAdd
  rw [if_neg nonempty, listNode_live live]
  show ((mem.store mem.vnodeLl.last _) >>= _) = _
  rw [store_live live]
  rfl


/-- The heap with the blocks of a new vnode that is not linked yet. -/
def newVnode (heap : Blocks FsBlock) (vnode : CachedVnode) : Blocks FsBlock :=
  Function.update (Function.update heap vnode.vnode (some (.vnode vnode.name))) vnode.name
    (some .bytes)

theorem newVnode_other (heap : Blocks FsBlock) (apart : addr ∉ vnode.blocks) :
    newVnode heap vnode addr = heap addr := by
  have notName : addr ≠ vnode.name := fun same => apart (by simp [CachedVnode.blocks, same])
  have notVnode : addr ≠ vnode.vnode := fun same => apart (by simp [CachedVnode.blocks, same])
  unfold newVnode
  rw [Function.update_of_ne notName, Function.update_of_ne notVnode]

/-- A vnode whose blocks were allocated ends the list, also when another node was linked to it. -/
theorem newVnode_chain (heap : Blocks FsBlock) {old : Nat} (linked : Option FsBlock)
    (apart : old ∉ vnode.blocks) (distinct : vnode.blocks.Nodup) :
    Chain (Function.update (Function.update (newVnode heap vnode) old linked) vnode.node
      (some (.listNode vnode.vnode 0))) vnode.node [vnode] := by
  simp only [CachedVnode.blocks, List.nodup_cons, List.mem_cons, List.not_mem_nil, or_false,
    not_or] at apart distinct
  obtain ⟨⟨nameVnode, nameNode⟩, vnodeNode, -⟩ := distinct
  refine .cons (Function.update_self _ _ _) ?_ ?_ .nil
  · rw [Function.update_of_ne vnodeNode, Function.update_of_ne (Ne.symm apart.2.1)]
    unfold newVnode
    rw [Function.update_of_ne (Ne.symm nameVnode), Function.update_self]
  · rw [Function.update_of_ne nameNode, Function.update_of_ne (Ne.symm apart.1)]
    exact Function.update_self _ _ _

theorem Unused.null (unused : mem.Unused vnode.blocks) : vnode.node ≠ 0 := fun same =>
  unused.nonnull (by simp [CachedVnode.blocks, same])

theorem Holds.fsNewVnodeCache (holds : mem.Holds cached) (unused : mem.Unused vnode.blocks) :
    ∃ left, mem.fsNewVnodeCache vnode = .ok left ∧ left.Holds (cached ++ [vnode]) ∧
      left.driverCtx = mem.driverCtx ∧
      ∀ addr ∉ vnode.blocks, addr ≠ mem.vnodeLl.last → left.heap addr = mem.heap addr := by
  have zero : 0 ∉ vnode.blocks := unused.nonnull
  have node : vnode.node ∈ vnode.blocks := by simp [CachedVnode.blocks]
  have distinct : (cachedBlocks (cached ++ [vnode])).Nodup := by
    rw [cachedBlocks_append]
    refine List.nodup_append.mpr ⟨holds.distinct, by simpa [cachedBlocks] using unused.distinct, ?_⟩
    intro addr old other new same
    refine holds.apart unused old ?_
    simpa [cachedBlocks, same] using new
  rcases List.eq_nil_or_concat cached with rfl | ⟨initial, last, rfl⟩
  · have apart : ∀ addr ∉ vnode.blocks, Function.update (newVnode mem.heap vnode) vnode.node
        (some (.listNode vnode.vnode 0)) addr = mem.heap addr := by
      intro addr outside
      rw [Function.update_of_ne fun same : addr = vnode.node => outside (same ▸ node), newVnode_other _ outside]
    refine ⟨_, linkedlistAdd_first holds.empty, ⟨(apart 0 zero).trans holds.null, ?_, rfl, distinct⟩,
      rfl, fun addr outside _ => apart addr outside⟩
    have chain := newVnode_chain mem.heap (newVnode mem.heap vnode 0) zero unused.distinct
    rw [Function.update_eq_self] at chain
    exact chain
  · rw [List.concat_eq_append] at holds distinct ⊢
    have tail : mem.vnodeLl.last = last.node := holds.last.trans (lastNode_concat initial last)
    have live := holds.chain.last_node initial
    have outside : last.node ∉ vnode.blocks :=
      holds.apart unused (by simp [cachedBlocks, CachedVnode.blocks])
    have apart : ∀ addr ∉ vnode.blocks, addr ≠ last.node →
        Function.update (Function.update (newVnode mem.heap vnode) last.node
          (some (.listNode last.vnode vnode.node))) vnode.node
          (some (.listNode vnode.vnode 0)) addr = mem.heap addr := by
      intro addr outside other
      rw [Function.update_of_ne fun same : addr = vnode.node => outside (same ▸ node), Function.update_of_ne other,
        newVnode_other _ outside]
    have live' : newVnode mem.heap vnode mem.vnodeLl.last = some (.listNode last.vnode 0) := by
      rw [tail, newVnode_other _ outside, live]
    have nonnull : mem.vnodeLl.last ≠ 0 := by
      rw [tail]
      exact live_ne_null holds.null live
    refine ⟨_, linkedlistAdd_last nonnull live', ?_⟩
    dsimp only
    rw [tail]
    refine ⟨⟨?_, ?_, (lastNode_concat _ _).symm, distinct⟩, rfl, apart⟩
    · exact (apart 0 zero fun same => nonnull (tail.trans same.symm)).trans holds.null
    · refine Chain.concat initial holds.chain holds.distinct ?_ ?_
        (newVnode_chain mem.heap _ outside unused.distinct)
      · intro addr old other
        exact apart addr (holds.apart unused old) other
      · have other : last.node ≠ vnode.node := fun same => outside (same ▸ node)
        dsimp only
        rw [Function.update_of_ne other, Function.update_self]

end FsMemory

end Dxgmx
