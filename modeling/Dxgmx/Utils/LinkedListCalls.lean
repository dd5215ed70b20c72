import Dxgmx.Library.Runs
import Dxgmx.Utils.LinkedList

open Library

namespace Dxgmx

namespace ListMemory

/-- A call on a list. For an addition also what `kmalloc` answers. -/
inductive ListCall
  | add (data node : Nat)
  | removeByData (data : Nat)
  | removeByPosition (pos : Nat)
  deriving DecidableEq

def ListCall.exec (fuel : Nat) : ListCall → ListMemory → Exec (Int × ListMemory)
  | .add data node, mem => mem.linkedlistAdd data node
  | .removeByData data, mem => mem.linkedlistRemoveByData data fuel
  | .removeByPosition pos, mem => mem.linkedlistRemoveByPosition pos

/-- NULL is answered, or what is not allocated. -/
def ListCall.Answered (mem : ListMemory) : ListCall → Prop
  | .add _ node => node = 0 ∨ mem.nodes node = none
  | _ => True

/-- A call on the sequence that the list stands for. -/
def ListCall.spec : ListCall → List Nat → Int × List Nat
  | .add data node, xs => if node = 0 then (-12, xs) else (0, xs ++ [data])
  | .removeByData data, xs => if data ∈ xs then (0, xs.erase data) else (-2, xs)
  | .removeByPosition pos, xs => if pos < xs.length then (0, xs.eraseIdx pos) else (-2, xs)

def ListCall.specs : List ListCall → List Nat → List Int × List Nat
  | [], xs => ([], xs)
  | call :: rest, xs =>
    let (st, ys) := call.spec xs
    let (sts, zs) := ListCall.specs rest ys
    (st :: sts, zs)

/-- The node that a removal is about. -/
def ListCall.removed (entries : List (Nat × Nat)) : ListCall → Option Nat
  | .add _ _ => none
  | .removeByData data => (entries.find? fun entry => entry.2 = data).map Prod.fst
  | .removeByPosition pos => entries[pos]?.map Prod.fst

/-- A node was allocated before a call and is not any more. A second `kfree` of it would fault. -/
def Freed (mem left : ListMemory) (addr : Nat) : Prop :=
  (∃ node, mem.nodes addr = some node) ∧ left.nodes addr = none

def ListStep (mem : ListMemory) (label : ListCall × Int) (left : ListMemory) : Prop :=
  label.1.Answered mem ∧ ∃ fuel, label.1.exec fuel mem = .ok (label.2, left)

variable {mem left : ListMemory} {entries before after : List (Nat × Nat)} {nodes base : Blocks Node}
variable {data node addr start mid prev fuel pos : Nat} {call : ListCall} {calls : List ListCall}

theorem ListCall.specs_snoc (calls : List ListCall) (call : ListCall) (xs : List Nat) :
    ListCall.specs (calls ++ [call]) xs =
      ((ListCall.specs calls xs).1 ++ [(call.spec (ListCall.specs calls xs).2).1],
        (call.spec (ListCall.specs calls xs).2).2) := by
  induction calls generalizing xs with
  | nil => rfl
  | cons first rest ih => simp [ListCall.specs, ih]

theorem linkedlistFind_absent {stop : Nat} (null : nodes 0 = none)
    (segment : Segment nodes start entries 0) (absent : ∀ entry ∈ entries, entry.2 ≠ data)
    (enough : entries.length ≤ fuel) :
    linkedlistFind data nodes fuel stop start = .ok (lastAddr stop entries, 0) := by
  induction entries generalizing start stop fuel with
  | nil =>
    cases segment
    unfold linkedlistFind
    rfl
  | cons entry rest ih =>
    obtain ⟨rfl, next, here, later⟩ := segment
    cases fuel with
    | zero => cases enough
    | succ fuel =>
      rw [linkedlistFind_pass null here (absent entry List.mem_cons_self), lastAddr_cons]
      apply ih later
      · exact fun entry member => absent entry (List.mem_cons_of_mem _ member)
      · exact Nat.le_of_succ_le_succ enough

theorem linkedlistFind_mono {more : Nat} {found : Nat × Nat} (le : fuel ≤ more)
    (done : linkedlistFind data nodes fuel prev start = .ok found) :
    linkedlistFind data nodes more prev start = .ok found := by
  induction fuel generalizing more prev start with
  | zero =>
    unfold linkedlistFind at done ⊢
    split at done
    · rename_i null
      rw [if_pos null]
      exact done
    · cases done
  | succ fuel ih =>
    obtain ⟨more, rfl⟩ : ∃ rest, more = rest + 1 := ⟨more - 1, by omega⟩
    unfold linkedlistFind at done ⊢
    split at done
    · rename_i null
      rw [if_pos null]
      exact done
    · rename_i nonnull
      rw [if_neg nonnull]
      dsimp only at done ⊢
      obtain ⟨node, load, rest⟩ := Exec.bind_ok.mp done
      rw [load, Exec.ok_bind]
      split at rest
      · rename_i same
        rw [if_pos same]
        exact rest
      · rename_i other
        rw [if_neg other]
        exact ih (Nat.le_of_succ_le_succ le) rest

theorem ListCall.exec_mono {more : Nat} {result : Int × ListMemory} (le : fuel ≤ more)
    (done : call.exec fuel mem = .ok result) : call.exec more mem = .ok result := by
  cases call with
  | add data node => exact done
  | removeByPosition pos => exact done
  | removeByData data =>
    simp only [ListCall.exec, linkedlistRemoveByData_eq] at done ⊢
    obtain ⟨found, walk, rest⟩ := Exec.bind_ok.mp done
    rw [linkedlistFind_mono le walk]
    exact rest

theorem linkedlistSeek_segment (null : nodes 0 = none) (segment : Segment nodes start before mid) :
    linkedlistSeek nodes before.length prev start = .ok (lastAddr prev before, mid) := by
  induction before generalizing start prev with
  | nil =>
    cases segment
    rfl
  | cons entry rest ih =>
    obtain ⟨rfl, next, here, later⟩ := segment
    have nonnull : entry.1 ≠ 0 := by
      intro same
      rw [same, null] at here
      cases here
    rw [List.length_cons, linkedlistSeek, if_neg nonnull, Blocks.load_live here, Exec.ok_bind,
      lastAddr_cons]
    exact ih later

/-- Behind the last node the walk stops, whatever is left to count. -/
theorem linkedlistSeek_end (null : nodes 0 = none) (segment : Segment nodes start entries 0)
    (behind : entries.length ≤ pos) :
    linkedlistSeek nodes pos prev start = .ok (lastAddr prev entries, 0) := by
  induction entries generalizing start prev pos with
  | nil =>
    cases segment
    cases pos with
    | zero => rfl
    | succ pos => rfl
  | cons entry rest ih =>
    obtain ⟨rfl, next, here, later⟩ := segment
    have nonnull : entry.1 ≠ 0 := by
      intro same
      rw [same, null] at here
      cases here
    cases pos with
    | zero => cases behind
    | succ pos =>
      rw [linkedlistSeek, if_neg nonnull, Blocks.load_live here, Exec.ok_bind, lastAddr_cons]
      exact ih later (Nat.le_of_succ_le_succ behind)

/-- What is known after a call: how the nodes of the list went, and no other node. -/
structure Moved (mem left : ListMemory) (entries next : List (Nat × Nat)) : Prop where
  holds : left.Holds next
  rest : ∀ addr, addr ∉ entries.map Prod.fst → addr ∉ next.map Prod.fst →
    left.nodes addr = mem.nodes addr
  gone : ∀ addr ∈ entries.map Prod.fst, addr ∉ next.map Prod.fst → left.nodes addr = none
  fresh : ∀ addr ∈ next.map Prod.fst, addr ∉ entries.map Prod.fst → mem.nodes addr = none

theorem Moved.extends {next : List (Nat × Nat)} (moved : mem.Moved left entries next)
    (owned : base.Extends (entries.map Prod.fst) mem.nodes) :
    base.Extends (next.map Prod.fst) left.nodes where
  nodup := moved.holds.distinct
  live := fun _ member => moved.holds.chain.live member
  unused := by
    intro addr member
    by_cases old : addr ∈ entries.map Prod.fst
    · exact owned.unused addr old
    · exact (owned.rest addr old).symm.trans (moved.fresh addr member old)
  rest := by
    intro addr outside
    by_cases old : addr ∈ entries.map Prod.fst
    · exact (moved.gone addr old outside).trans (owned.unused addr old).symm
    · exact (moved.rest addr old outside).trans (owned.rest addr old)

theorem Holds.stay (holds : mem.Holds entries) : mem.Moved mem entries entries where
  holds := holds
  rest := fun _ _ _ => rfl
  gone := fun _ member outside => absurd member outside
  fresh := fun _ member outside => absurd member outside

theorem not_freed_same (addr : Nat) : ¬ Freed mem mem addr := by
  rintro ⟨⟨node, live⟩, dead⟩
  rw [live] at dead
  cases dead

/-- A failed addition leaves even the links as they were. -/
theorem Holds.add_failed (holds : mem.Holds entries) :
    mem.linkedlistAdd data 0 = .ok (-12, mem) := by
  unfold linkedlistAdd
  by_cases empty : mem.ll.last = 0
  · rw [if_pos empty, if_pos rfl, empty]
    obtain ⟨nodes, ll⟩ := mem
    have zero := holds.zero empty
    cases zero
    rfl
  · obtain ⟨initial, old, split, outside⟩ := holds.end_ empty
    have chain := holds.chain
    rw [split] at chain
    have here := (chain.relink outside 0).1
    rw [if_neg empty, Blocks.load_live here, Exec.ok_bind, Blocks.store_live here, Exec.ok_bind,
      if_pos rfl]
    have same : Function.update mem.nodes mem.ll.last (some ⟨old, 0⟩) = mem.nodes := by
      rw [← here, Function.update_eq_self]
    rw [same]
    rfl

theorem Holds.add_done (holds : mem.Holds entries) (nonnull : node ≠ 0)
    (unused : mem.nodes node = none) :
    ∃ left, mem.linkedlistAdd data node = .ok (0, left) ∧
      ∀ addr, addr ∉ entries.map Prod.fst → addr ≠ node → left.nodes addr = mem.nodes addr := by
  unfold linkedlistAdd
  by_cases empty : mem.ll.last = 0
  · rw [if_pos empty, if_neg nonnull, Blocks.alloc_ok.mpr ⟨unused, rfl⟩, Exec.ok_bind]
    exact ⟨_, rfl, fun addr _ other => Function.update_of_ne other _ _⟩
  · obtain ⟨initial, old, split, outside⟩ := holds.end_ empty
    have chain := holds.chain
    rw [split] at chain
    have here := (chain.relink outside 0).1
    have other : node ≠ mem.ll.last := by
      intro same
      rw [same, here] at unused
      cases unused
    rw [if_neg empty, Blocks.load_live here, Exec.ok_bind, Blocks.store_live here, Exec.ok_bind,
      if_neg nonnull, Blocks.alloc_ok.mpr ⟨(Function.update_of_ne other _ _).trans unused, rfl⟩,
      Exec.ok_bind]
    refine ⟨_, rfl, fun addr away apart => ?_⟩
    have member : mem.ll.last ∈ entries.map Prod.fst := by
      rw [split]
      simp
    exact (Function.update_of_ne apart _ _).trans
      (Function.update_of_ne (ne_of_mem_of_not_mem member away).symm _ _)

/-- One call against the sequence: its answer, what the list holds next and which node goes. -/
structure Served (mem left : ListMemory) (call : ListCall) (entries next : List (Nat × Nat)) :
    Prop where
  done : ∀ fuel, entries.length < fuel →
    call.exec fuel mem = .ok ((call.spec (entries.map Prod.snd)).1, left)
  data : next.map Prod.snd = (call.spec (entries.map Prod.snd)).2
  moved : mem.Moved left entries next
  freed : ∀ addr, Freed mem left addr ↔ call.removed entries = some addr

/-- What is freed was a node of the list and is none any more. -/
theorem Moved.freed_iff {next : List (Nat × Nat)} (moved : mem.Moved left entries next)
    (holds : mem.Holds entries) (addr : Nat) :
    Freed mem left addr ↔ addr ∈ entries.map Prod.fst ∧ addr ∉ next.map Prod.fst := by
  constructor
  · rintro ⟨⟨node, live⟩, dead⟩
    have outside : addr ∉ next.map Prod.fst := by
      intro member
      obtain ⟨kept, here⟩ := moved.holds.chain.live member
      rw [dead] at here
      cases here
    refine ⟨?_, outside⟩
    by_contra away
    rw [moved.rest addr away outside, live] at dead
    cases dead
  · rintro ⟨member, outside⟩
    exact ⟨holds.chain.live member, moved.gone addr member outside⟩

theorem Holds.unlink_moved (holds : mem.Holds (before ++ (addr, data) :: after)) :
    ∃ left, mem.linkedlistUnlink (lastAddr 0 before) addr = .ok (0, left) ∧
      mem.Moved left (before ++ (addr, data) :: after) (before ++ after) ∧
      ∀ other, Freed mem left other ↔ other = addr := by
  obtain ⟨left, done, closed, dead, rest⟩ := holds.unlink
  have split : ∀ other, other ∈ (before ++ (addr, data) :: after).map Prod.fst ↔
      other = addr ∨ other ∈ (before ++ after).map Prod.fst := by
    intro other
    simp only [List.map_append, List.map_cons, List.mem_append, List.mem_cons]
    tauto
  have apart : addr ∉ (before ++ after).map Prod.fst := by
    have all := holds.distinct
    rw [List.map_append, List.map_cons] at all
    rw [List.map_append]
    exact (List.nodup_middle.mp all).notMem
  have moved : mem.Moved left (before ++ (addr, data) :: after) (before ++ after) := by
    refine ⟨closed, fun other away _ => rest other away, fun other member outside => ?_,
      fun other member away => absurd ((split other).mpr (.inr member)) away⟩
    rcases (split other).mp member with rfl | inside
    · exact dead
    · exact absurd inside outside
  refine ⟨left, done, moved, fun other => ?_⟩
  rw [moved.freed_iff holds, split]
  constructor
  · rintro ⟨same | inside, outside⟩
    · exact same
    · exact absurd inside outside
  · rintro rfl
    exact ⟨.inl rfl, apart⟩

theorem Holds.serve_add (holds : mem.Holds entries)
    (answered : (ListCall.add data node).Answered mem) :
    ∃ left next, mem.Served left (.add data node) entries next := by
  by_cases null : node = 0
  · subst null
    refine ⟨mem, entries, fun fuel _ => holds.add_failed, rfl, holds.stay, fun addr => ?_⟩
    simp [not_freed_same, ListCall.removed]
  · obtain ⟨left, done, rest⟩ := @Holds.add_done mem entries data node holds null
      (answered.resolve_left null)
    obtain ⟨longer, unused⟩ := holds.add done (by decide)
    have spec : (ListCall.add data node).spec (entries.map Prod.snd) =
        (0, entries.map Prod.snd ++ [data]) := if_neg null
    have moved : mem.Moved left entries (entries ++ [(node, data)]) := by
      refine ⟨longer, fun addr away outside => rest addr away ?_, fun addr member outside => ?_,
        fun addr member away => ?_⟩
      · rintro rfl
        simp at outside
      · exact absurd (by simp [member]) outside
      · rw [List.map_append] at member
        obtain rfl : addr = node := by simpa [away] using member
        exact unused
    refine ⟨left, entries ++ [(node, data)], fun fuel _ => ?_, ?_, moved, fun addr => ?_⟩
    · rw [spec]
      exact done
    · rw [spec, List.map_append]
      rfl
    · rw [moved.freed_iff holds, List.map_append]
      simp [ListCall.removed]
      tauto

/-- The first entry with the data, where there is one. -/
theorem find_split (data : Nat) (entries : List (Nat × Nat)) :
    (∀ entry ∈ entries, entry.2 ≠ data) ∨ ∃ before addr after,
      entries = before ++ (addr, data) :: after ∧ ∀ entry ∈ before, entry.2 ≠ data := by
  induction entries with
  | nil => exact .inl nofun
  | cons entry rest ih =>
    by_cases same : entry.2 = data
    · exact .inr ⟨[], entry.1, rest, by rw [← same]; rfl, nofun⟩
    · rcases ih with none | ⟨before, addr, after, rfl, absent⟩
      · exact .inl (List.forall_mem_cons.mpr ⟨same, none⟩)
      · exact .inr ⟨entry :: before, addr, after, rfl, List.forall_mem_cons.mpr ⟨same, absent⟩⟩

theorem Holds.serve_removeByData (holds : mem.Holds entries) (data : Nat) :
    ∃ left next, mem.Served left (.removeByData data) entries next := by
  rcases find_split data entries with others | ⟨before, addr, after, rfl, absent⟩
  · have outside : data ∉ entries.map Prod.snd := by
      intro member
      obtain ⟨entry, inside, same⟩ := List.mem_map.mp member
      exact others entry inside same
    have spec : (ListCall.removeByData data).spec (entries.map Prod.snd) =
        (-2, entries.map Prod.snd) := if_neg outside
    refine ⟨mem, entries, fun fuel enough => ?_, ?_, holds.stay, fun addr => ?_⟩
    · rw [spec, ListCall.exec, linkedlistRemoveByData_eq,
        linkedlistFind_absent holds.null holds.chain others (Nat.le_of_lt enough)]
      rfl
    · rw [spec]
    · have nothing : entries.find? (fun entry => entry.2 = data) = none :=
        List.find?_eq_none.mpr fun entry member => by simpa using others entry member
      simp [not_freed_same, ListCall.removed, nothing]
  · obtain ⟨left, done, moved, freed⟩ := holds.unlink_moved
    have first : data ∉ before.map Prod.snd := by
      intro member
      obtain ⟨entry, inside, same⟩ := List.mem_map.mp member
      exact absent entry inside same
    have spec : (ListCall.removeByData data).spec
        ((before ++ (addr, data) :: after).map Prod.snd) =
          (0, (before ++ after).map Prod.snd) := by
      rw [ListCall.spec, if_pos (by simp), List.map_append, List.map_cons,
        List.erase_append_right _ first, List.erase_cons_head, List.map_append]
    refine ⟨left, before ++ after, fun fuel enough => ?_, ?_, moved, fun other => ?_⟩
    · rw [List.length_append] at enough
      rw [spec, ListCall.exec, holds.removeByData_found absent (by omega)]
      exact done
    · rw [spec]
    · have found : (before ++ (addr, data) :: after).find? (fun entry => entry.2 = data) =
          some (addr, data) := by
        rw [List.find?_append, List.find?_eq_none.mpr fun entry member => by
          simpa using absent entry member]
        simp
      rw [freed other, ListCall.removed, found]
      simp [eq_comm]

theorem Holds.serve_removeByPosition (holds : mem.Holds entries) (pos : Nat) :
    ∃ left next, mem.Served left (.removeByPosition pos) entries next := by
  by_cases inside : pos < entries.length
  · obtain ⟨before, ⟨addr, data⟩, after, rfl, rfl⟩ : ∃ before entry after,
        entries = before ++ entry :: after ∧ before.length = pos :=
      ⟨entries.take pos, entries[pos], entries.drop (pos + 1),
        by rw [← List.drop_eq_getElem_cons inside, List.take_append_drop],
        List.length_take_of_le (Nat.le_of_lt inside)⟩
    obtain ⟨left, done, moved, freed⟩ := holds.unlink_moved
    have spec : (ListCall.removeByPosition before.length).spec
        ((before ++ (addr, data) :: after).map Prod.snd) =
          (0, (before ++ after).map Prod.snd) := by
      rw [ListCall.spec, if_pos (by rw [List.length_map]; exact inside), List.map_append,
        List.map_cons, List.eraseIdx_append_of_length_le (by simp)]
      simp
    refine ⟨left, before ++ after, fun fuel _ => ?_, ?_, moved, fun other => ?_⟩
    · obtain ⟨mid, first, rfl, -⟩ := segment_append.mp holds.chain
      have nonnull : mid ≠ 0 := ne_of_mem_of_not_mem (by simp) holds.nonnull
      rw [spec, ListCall.exec, linkedlistRemoveByPosition,
        linkedlistSeek_segment holds.null first, Exec.ok_bind]
      dsimp only
      rw [if_neg nonnull]
      exact done
    · rw [spec]
    · rw [freed other, ListCall.removed]
      simp [eq_comm]
  · have behind : entries.length ≤ pos := Nat.le_of_not_lt inside
    have spec : (ListCall.removeByPosition pos).spec (entries.map Prod.snd) =
        (-2, entries.map Prod.snd) := if_neg (by rw [List.length_map]; exact inside)
    refine ⟨mem, entries, fun fuel _ => ?_, ?_, holds.stay, fun addr => ?_⟩
    · rw [spec, ListCall.exec, linkedlistRemoveByPosition,
        linkedlistSeek_end holds.null holds.chain behind]
      rfl
    · rw [spec]
    · simp [not_freed_same, ListCall.removed, behind]

theorem Holds.serve (holds : mem.Holds entries) (answered : call.Answered mem) :
    ∃ left next, mem.Served left call entries next := by
  cases call with
  | add data node => exact holds.serve_add answered
  | removeByData data => exact holds.serve_removeByData data
  | removeByPosition pos => exact holds.serve_removeByPosition pos

/-- The list after these calls, and the blocks besides its nodes. -/
structure Represents (base : Blocks Node) (trace : List (ListCall × Int)) (mem : ListMemory)
    (entries : List (Nat × Nat)) : Prop where
  results : ListCall.specs (trace.map Prod.fst) [] = (trace.map Prod.snd, entries.map Prod.snd)
  holds : mem.Holds entries
  owned : base.Extends (entries.map Prod.fst) mem.nodes

theorem Represents.step {trace : List (ListCall × Int)} {label : ListCall × Int}
    (represents : Represents base trace mem entries) (step : ListStep mem label left) :
    ∃ next, Represents base (trace ++ [label]) left next := by
  obtain ⟨call, st⟩ := label
  obtain ⟨answered, fuel, done⟩ := step
  obtain ⟨served, next, serves⟩ := represents.holds.serve answered
  have same := serves.done (fuel + entries.length + 1) (by omega)
  rw [ListCall.exec_mono (by omega) done] at same
  obtain ⟨rfl, rfl⟩ : st = (call.spec (entries.map Prod.snd)).1 ∧ left = served := by
    simpa using same
  refine ⟨next, ?_, serves.moved.holds, serves.moved.extends represents.owned⟩
  rw [List.map_append, List.map_append, List.map_singleton, List.map_singleton,
    ListCall.specs_snoc, represents.results, serves.data]

theorem represents_run {origin : ListMemory} (null : origin.nodes 0 = none)
    {trace : List (ListCall × Int)} (run : Run ListStep origin.linkedlistInit trace mem) :
    ∃ entries, Represents origin.nodes trace mem entries := by
  refine run.history (fun trace mem => ∃ entries, Represents origin.nodes trace mem entries)
    (fun trace mem label left => ?_) ?_
  · rintro ⟨entries, represents⟩ step
    exact represents.step step
  · exact ⟨[], rfl, ⟨null, rfl, rfl, .nil⟩, Blocks.Extends.refl _⟩

theorem Holds.ends_together (holds : mem.Holds entries) : mem.ll.root = 0 ↔ mem.ll.last = 0 := by
  constructor
  · intro root
    have chain := holds.chain
    cases entries with
    | nil => exact holds.last
    | cons entry rest =>
      obtain ⟨same, -⟩ := chain
      exact absurd (by simp [← root, same]) holds.nonnull
  · intro last
    rw [holds.zero last]

/-- Every run of calls follows the sequence, and the next call is answered as the sequence says. -/
theorem linkedlist_refines_sequence {origin : ListMemory} (null : origin.nodes 0 = none)
    {trace : List (ListCall × Int)} (run : Run ListStep origin.linkedlistInit trace mem) :
    ∃ entries, Represents origin.nodes trace mem entries ∧
      (mem.ll.root = 0 ↔ mem.ll.last = 0) ∧
      ∀ call : ListCall, call.Answered mem →
        ∃ left, (∀ fuel, entries.length < fuel →
            call.exec fuel mem = .ok ((call.spec (entries.map Prod.snd)).1, left)) ∧
          ∀ addr, Freed mem left addr ↔ call.removed entries = some addr := by
  obtain ⟨entries, represents⟩ := represents_run null run
  refine ⟨entries, represents, represents.holds.ends_together, fun call answered => ?_⟩
  obtain ⟨left, next, serves⟩ := represents.holds.serve answered
  exact ⟨left, serves.done, serves.freed⟩

theorem linkedlist_sequence_of_three :
    ∃ mem, Run ListStep (linkedlistInit ⟨fun _ => none, ⟨7, 7⟩⟩)
        [(.add 5 0x1000, 0), (.add 6 0x2000, 0), (.removeByPosition 0, 0)] mem ∧
      ∃ entries, Represents (fun _ => none)
        [(.add 5 0x1000, 0), (.add 6 0x2000, 0), (.removeByPosition 0, 0)] mem entries := by
  have run : Run ListStep (linkedlistInit ⟨fun _ => none, ⟨7, 7⟩⟩)
      [(.add 5 0x1000, 0), (.add 6 0x2000, 0), (.removeByPosition 0, 0)] _ :=
    .snoc (.snoc (.snoc (.refl _) ⟨.inr rfl, 0, rfl⟩) ⟨.inr rfl, 0, rfl⟩) ⟨trivial, 0, rfl⟩
  obtain ⟨entries, represents, -⟩ := linkedlist_refines_sequence rfl run
  exact ⟨_, run, entries, represents⟩

end ListMemory

end Dxgmx
