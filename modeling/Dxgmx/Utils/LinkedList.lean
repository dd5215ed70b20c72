import Dxgmx.Library.Segments

open Library

namespace Dxgmx

structure LinkedList where
  root : Nat
  last : Nat
  deriving DecidableEq

/-- A list and the nodes that are allocated. -/
structure ListMemory where
  nodes : Blocks Node
  ll : LinkedList

namespace ListMemory

/-- `linkedlist_add`, where `kmalloc` answers the given address. -/
def linkedlistAdd (data node : Nat) (mem : ListMemory) : Exec (Int × ListMemory) :=
  if mem.ll.last = 0 then
    if node = 0 then .ok (-12, { mem with ll := ⟨0, mem.ll.last⟩ })
    else do
      let nodes ← mem.nodes.alloc node ⟨data, 0⟩
      pure (0, ⟨nodes, ⟨node, node⟩⟩)
  else do
    let last ← mem.nodes.load mem.ll.last
    let linked ← mem.nodes.store mem.ll.last ⟨last.data, node⟩
    if node = 0 then pure (-12, { mem with nodes := linked })
    else do
      let nodes ← linked.alloc node ⟨data, 0⟩
      pure (0, ⟨nodes, ⟨mem.ll.root, node⟩⟩)

/-- The loop of `linkedlist_remove_by_data`, up to the node that holds the data or NULL. -/
def linkedlistFind (data : Nat) (nodes : Blocks Node) : (fuel prevNode n : Nat) → Exec (Nat × Nat)
  | fuel, prevNode, n =>
    if n = 0 then .ok (prevNode, n)
    else
      match fuel with
      | 0 => .error .fuel
      | fuel + 1 => do
        let node ← nodes.load n
        if node.data = data then pure (prevNode, n)
        else linkedlistFind data nodes fuel n node.next

def linkedlistRemoveByData (data fuel : Nat) (mem : ListMemory) : Exec (Int × ListMemory) := do
  let (prevNode, n) ← linkedlistFind data mem.nodes fuel 0 mem.ll.root
  if n = 0 then pure (-2, mem)
  else do
    let last := if mem.ll.last = n then prevNode else mem.ll.last
    let node ← mem.nodes.load n
    if prevNode = 0 then do
      let nodes ← mem.nodes.free n
      pure (0, ⟨nodes, ⟨node.next, last⟩⟩)
    else do
      let prev ← mem.nodes.load prevNode
      let linked ← mem.nodes.store prevNode ⟨prev.data, node.next⟩
      let nodes ← linked.free n
      pure (0, ⟨nodes, ⟨mem.ll.root, last⟩⟩)

/-- What both removals do with the node they found. -/
def linkedlistUnlink (prevNode n : Nat) (mem : ListMemory) : Exec (Int × ListMemory) := do
  let last := if mem.ll.last = n then prevNode else mem.ll.last
  let node ← mem.nodes.load n
  if prevNode = 0 then do
    let nodes ← mem.nodes.free n
    pure (0, ⟨nodes, ⟨node.next, last⟩⟩)
  else do
    let prev ← mem.nodes.load prevNode
    let linked ← mem.nodes.store prevNode ⟨prev.data, node.next⟩
    let nodes ← linked.free n
    pure (0, ⟨nodes, ⟨mem.ll.root, last⟩⟩)

/-- The loop of `linkedlist_remove_by_position`, with the count that is left. -/
def linkedlistSeek (nodes : Blocks Node) : (left prevNode n : Nat) → Exec (Nat × Nat)
  | 0, prevNode, n => .ok (prevNode, n)
  | left + 1, prevNode, n =>
    if n = 0 then .ok (prevNode, n)
    else do
      let node ← nodes.load n
      linkedlistSeek nodes left n node.next

def linkedlistRemoveByPosition (pos : Nat) (mem : ListMemory) : Exec (Int × ListMemory) := do
  let (prevNode, n) ← linkedlistSeek mem.nodes pos 0 mem.ll.root
  if n = 0 then pure (-2, mem) else mem.linkedlistUnlink prevNode n

def linkedlistInit (mem : ListMemory) : ListMemory := { mem with ll := ⟨0, 0⟩ }

theorem linkedlistRemoveByData_eq (data fuel : Nat) (mem : ListMemory) :
    mem.linkedlistRemoveByData data fuel = (do
      let (prevNode, n) ← linkedlistFind data mem.nodes fuel 0 mem.ll.root
      if n = 0 then pure (-2, mem) else mem.linkedlistUnlink prevNode n) := rfl

variable {mem left : ListMemory} {entries before after : List (Nat × Nat)}
variable {data node addr prev fuel : Nat} {nodes : Blocks Node}

/-- The list holds these nodes, each with its data. -/
structure Holds (mem : ListMemory) (entries : List (Nat × Nat)) : Prop where
  null : mem.nodes 0 = none
  chain : Segment mem.nodes mem.ll.root entries 0
  last : mem.ll.last = lastAddr 0 entries
  distinct : (entries.map Prod.fst).Nodup

theorem Holds.nonnull (holds : mem.Holds entries) : 0 ∉ entries.map Prod.fst := by
  intro member
  obtain ⟨node, live⟩ := holds.chain.live member
  rw [holds.null] at live
  cases live

theorem Holds.empty_iff (holds : mem.Holds entries) : mem.ll.last = 0 ↔ entries = [] := by
  rw [holds.last]
  constructor
  · intro zero
    by_contra nonempty
    exact holds.nonnull (zero ▸ lastAddr_mem nonempty)
  · rintro rfl
    rfl

theorem Holds.zero (holds : mem.Holds entries) (empty : mem.ll.last = 0) : mem.ll = ⟨0, 0⟩ := by
  have chain := holds.chain
  rw [holds.empty_iff.mp empty] at chain
  have root : mem.ll.root = 0 := chain
  calc
    mem.ll = ⟨mem.ll.root, mem.ll.last⟩ := rfl
    _ = ⟨0, 0⟩ := by rw [root, empty]

theorem Holds.end_ (holds : mem.Holds entries) (nonempty : mem.ll.last ≠ 0) :
    ∃ initial old, entries = initial ++ [(mem.ll.last, old)] ∧
      mem.ll.last ∉ initial.map Prod.fst := by
  rcases List.eq_nil_or_concat entries with rfl | ⟨initial, ⟨addr, old⟩, rfl⟩
  · exact absurd holds.last nonempty
  · rw [List.concat_eq_append] at holds ⊢
    have last : mem.ll.last = addr := holds.last.trans (lastAddr_concat 0 initial addr old)
    have distinct := holds.distinct
    rw [List.map_append] at distinct
    rw [last]
    refine ⟨initial, old, rfl, fun inside => ?_⟩
    exact (List.nodup_append.mp distinct).2.2 addr inside addr (by simp) rfl

theorem Holds.add {st : Int} (holds : mem.Holds entries)
    (added : mem.linkedlistAdd data node = .ok (st, left)) (positive : ¬ st < 0) :
    left.Holds (entries ++ [(node, data)]) ∧ mem.nodes node = none := by
  unfold linkedlistAdd at added
  by_cases empty : mem.ll.last = 0
  · have none_yet := holds.empty_iff.mp empty
    subst none_yet
    rw [if_pos empty] at added
    split at added
    · cases added
      exact absurd (by decide) positive
    · rename_i nonnull
      obtain ⟨nodes, alloc, result⟩ := Exec.bind_ok.mp added
      obtain ⟨fresh, rfl⟩ := Blocks.alloc_ok.mp alloc
      cases result
      refine ⟨⟨?_, ⟨rfl, 0, Function.update_self _ _ _, rfl⟩, rfl, List.nodup_singleton _⟩, fresh⟩
      exact (Function.update_of_ne (Ne.symm nonnull) _ _).trans holds.null
  · obtain ⟨initial, old, split, outside⟩ := holds.end_ empty
    have chain := holds.chain
    rw [split] at chain
    obtain ⟨here, linked⟩ := chain.relink outside node
    rw [← split] at linked
    rw [if_neg empty, Blocks.load_live here, Exec.ok_bind, Blocks.store_live here,
      Exec.ok_bind] at added
    split at added
    · cases added
      exact absurd (by decide) positive
    · rename_i nonnull
      obtain ⟨nodes, alloc, result⟩ := Exec.bind_ok.mp added
      obtain ⟨fresh, rfl⟩ := Blocks.alloc_ok.mp alloc
      cases result
      have other : node ≠ mem.ll.last := by
        intro same
        rw [same, Function.update_self] at fresh
        cases fresh
      rw [Function.update_of_ne other] at fresh
      have apart : node ∉ entries.map Prod.fst := by
        intro member
        obtain ⟨held, live⟩ := holds.chain.live member
        rw [fresh] at live
        cases live
      refine ⟨⟨?_, ?_, (lastAddr_concat 0 _ node data).symm, ?_⟩, fresh⟩
      · exact (Function.update_of_ne (Ne.symm nonnull) _ _).trans
          ((Function.update_of_ne (Ne.symm empty) _ _).trans holds.null)
      · exact segment_append.mpr ⟨node, linked.update apart _, rfl, 0,
          Function.update_self _ _ _, rfl⟩
      · rw [List.map_append]
        apply List.nodup_append.mpr
        refine ⟨holds.distinct, List.nodup_singleton node, fun addr member other isNode same => ?_⟩
        rw [same, List.mem_singleton.mp isNode] at member
        exact apart member

/-- The walk goes on past a node with other data. -/
theorem linkedlistFind_pass {held : Node} (null : nodes 0 = none) (here : nodes addr = some held)
    (other : held.data ≠ data) :
    linkedlistFind data nodes (fuel + 1) prev addr = linkedlistFind data nodes fuel addr held.next := by
  have nonnull : addr ≠ 0 := by
    rintro rfl
    rw [null] at here
    cases here
  conv_lhs => unfold linkedlistFind
  dsimp only
  rw [if_neg nonnull, Blocks.load_live here, Exec.ok_bind, if_neg other]

theorem linkedlistFind_segment {start : Nat} (null : nodes 0 = none)
    (segment : Segment nodes start (before ++ (addr, data) :: after) 0)
    (absent : ∀ entry ∈ before, entry.2 ≠ data) (enough : before.length < fuel) :
    linkedlistFind data nodes fuel prev start = .ok (lastAddr prev before, addr) := by
  induction before generalizing start prev fuel with
  | nil =>
    obtain ⟨rfl, next, here, -⟩ := segment
    obtain ⟨rest, rfl⟩ := Nat.exists_eq_add_of_lt enough
    have nonnull : start ≠ 0 := by
      rintro rfl
      rw [null] at here
      cases here
    unfold linkedlistFind
    rw [if_neg nonnull, Blocks.load_live here]
    exact if_pos rfl
  | cons entry rest ih =>
    obtain ⟨rfl, next, here, later⟩ := segment
    cases fuel with
    | zero => cases enough
    | succ fuel =>
      rw [linkedlistFind_pass null here (absent entry List.mem_cons_self), lastAddr_cons]
      apply ih later
      · exact fun entry member => absent entry (List.mem_cons_of_mem _ member)
      · exact Nat.lt_of_succ_lt_succ enough

/-- The list closes over the node found, which is the one block that goes. -/
theorem Holds.unlink (holds : mem.Holds (before ++ (addr, data) :: after)) :
    ∃ left, mem.linkedlistUnlink (lastAddr 0 before) addr = .ok (0, left) ∧
      left.Holds (before ++ after) ∧ left.nodes addr = none ∧
      ∀ other ∉ (before ++ (addr, data) :: after).map Prod.fst,
        left.nodes other = mem.nodes other := by
  have member : addr ∈ (before ++ (addr, data) :: after).map Prod.fst := by simp
  have nonnull : addr ≠ 0 := fun same => holds.nonnull (same ▸ member)
  obtain ⟨mid, -, rfl, next, here, -⟩ := segment_append.mp holds.chain
  obtain ⟨first, later⟩ := holds.chain.unlink holds.distinct here
  have distinct : ((before ++ after).map Prod.fst).Nodup := by
    have all := holds.distinct
    rw [List.map_append] at all ⊢
    exact all.sublist ((List.sublist_cons_self _ _).append_left _)
  have last : (if mem.ll.last = mid then lastAddr 0 before else mem.ll.last) =
      lastAddr 0 (before ++ after) := by
    rw [holds.last, lastAddr_append, lastAddr_append, lastAddr_cons]
    cases after with
    | nil => exact if_pos rfl
    | cons entry rest =>
      have inside : lastAddr mid (entry :: rest) ∈ (entry :: rest).map Prod.fst :=
        lastAddr_mem (List.cons_ne_nil _ _)
      rw [if_neg, lastAddr_cons, lastAddr_cons]
      intro same
      have all := holds.distinct
      rw [List.map_append] at all
      rw [same] at inside
      exact (List.nodup_cons.mp (List.nodup_append.mp all).2.1).1 inside
  unfold linkedlistUnlink
  rw [Blocks.load_live here, Exec.ok_bind, last]
  rcases List.eq_nil_or_concat before with rfl | ⟨initial, ⟨prev, old⟩, rfl⟩
  · obtain ⟨root, chain⟩ := first rfl
    rw [if_pos (lastAddr_nil 0), Blocks.free_eq here, Exec.ok_bind]
    refine ⟨_, rfl, ⟨?_, chain, rfl, distinct⟩, Function.update_self _ _ _, fun other outside => ?_⟩
    · exact (Function.update_of_ne (Ne.symm nonnull) _ _).trans holds.null
    · exact Function.update_of_ne (ne_of_mem_of_not_mem member outside).symm _ _
  · rw [List.concat_eq_append] at later distinct holds member ⊢
    obtain ⟨prevHere, chain⟩ := later initial prev old rfl
    have prevMember : prev ∈ (initial ++ [(prev, old)] ++ (mid, data) :: after).map Prod.fst := by
      simp
    have prevNonnull : prev ≠ 0 := fun same => holds.nonnull (same ▸ prevMember)
    have other : mid ≠ prev := by
      rintro rfl
      have all := holds.distinct
      rw [List.map_append] at all
      exact (List.nodup_append.mp all).2.2 mid (by simp) mid (by simp) rfl
    rw [lastAddr_concat, if_neg prevNonnull, Blocks.load_live prevHere, Exec.ok_bind,
      Blocks.store_live prevHere, Exec.ok_bind,
      Blocks.free_eq ((Function.update_of_ne other _ _).trans here), Exec.ok_bind]
    refine ⟨_, rfl, ⟨?_, chain, rfl, distinct⟩, Function.update_self _ _ _,
      fun away outside => ?_⟩
    · exact (Function.update_of_ne (Ne.symm nonnull) _ _).trans
        ((Function.update_of_ne (Ne.symm prevNonnull) _ _).trans holds.null)
    · exact (Function.update_of_ne (ne_of_mem_of_not_mem member outside).symm _ _).trans
        (Function.update_of_ne (ne_of_mem_of_not_mem prevMember outside).symm _ _)

/-- The first node with the data is found, and taken out. -/
theorem Holds.removeByData_found (holds : mem.Holds (before ++ (addr, data) :: after))
    (absent : ∀ entry ∈ before, entry.2 ≠ data) (enough : before.length < fuel) :
    mem.linkedlistRemoveByData data fuel = mem.linkedlistUnlink (lastAddr 0 before) addr := by
  have member : addr ∈ (before ++ (addr, data) :: after).map Prod.fst := by simp
  rw [linkedlistRemoveByData_eq, linkedlistFind_segment holds.null holds.chain absent enough]
  exact if_neg (ne_of_mem_of_not_mem member holds.nonnull)

theorem Holds.remove (holds : mem.Holds (before ++ (addr, data) :: after))
    (absent : ∀ entry ∈ before, entry.2 ≠ data) (enough : before.length < fuel) :
    ∃ left, mem.linkedlistRemoveByData data fuel = .ok (0, left) ∧ left.Holds (before ++ after) ∧
      left.nodes addr = none := by
  obtain ⟨left, done, closed, dead, -⟩ := holds.unlink
  exact ⟨left, (holds.removeByData_found absent enough).trans done, closed, dead⟩

end ListMemory

end Dxgmx
