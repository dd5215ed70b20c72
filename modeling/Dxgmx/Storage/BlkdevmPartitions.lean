import Dxgmx.Storage.Blkdevm

open Library

namespace Dxgmx

/-- A mountable device of the list with the addresses it stands at. -/
structure MountableEntry where
  node : Nat
  addr : Nat
  blkdev : MountableBlockDevice
  name : List Byte

namespace MountableEntry

def pair (entry : MountableEntry) : Nat × Nat := (entry.node, entry.addr)

/-- What a reader of the list sees of it, whatever the addresses. -/
def seen (entry : MountableEntry) : MountableBlockDevice × List Byte :=
  ({ entry.blkdev with suffix := 0 }, entry.name)

def partition (entry : MountableEntry) : Partition :=
  ⟨entry.blkdev.offset, entry.blkdev.sectorCount, entry.name⟩

def childOf (dev : Nat) (entry : MountableEntry) : Bool := entry.blkdev.parent = dev

end MountableEntry

variable {m left once twice : Blkdevm} {entries before rest : List MountableEntry}
variable {entry : MountableEntry} {limit fuel node dev : Nat}

/-- The list holds these devices, all of them live. -/
structure Blkdevm.Holds (m : Blkdevm) (entries : List MountableEntry) : Prop where
  list : m.list.Holds (entries.map MountableEntry.pair)
  addrs : (entries.map MountableEntry.addr).Nodup
  suffixes : (entries.map fun entry => entry.blkdev.suffix).Nodup
  live : ∀ entry ∈ entries, entry.addr ≠ 0 ∧ m.blkdevs entry.addr = some entry.blkdev
  named : ∀ entry ∈ entries,
    entry.blkdev.suffix ≠ 0 ∧ m.suffixes entry.blkdev.suffix = some entry.name

section Free

theorem kfreeBlock_live {β : Type} {blocks : Blocks β} {addr : Nat} {block : β} (nonnull : addr ≠ 0)
    (live : blocks addr = some block) :
    kfreeBlock addr blocks = .ok (Function.update blocks addr none) := by
  unfold kfreeBlock
  rw [if_neg nonnull, Blocks.free_eq live]

theorem key_other {α : Type} {key : α → Nat} {before rest : List α} {entry other : α}
    (distinct : ((before ++ entry :: rest).map key).Nodup) (member : other ∈ before ++ rest) :
    key other ≠ key entry := by
  rw [List.map_append, List.map_cons] at distinct
  obtain ⟨-, later, apart⟩ := List.nodup_append.mp distinct
  rcases List.mem_append.mp member with member | member
  · exact apart _ (List.mem_map_of_mem member) _ List.mem_cons_self
  · intro same
    exact (List.nodup_cons.mp later).1 (same ▸ List.mem_map_of_mem member)

theorem nodup_without {α : Type} {key : α → Nat} {before rest : List α} {entry : α}
    (distinct : ((before ++ entry :: rest).map key).Nodup) : ((before ++ rest).map key).Nodup :=
  distinct.sublist (((List.sublist_cons_self entry rest).append_left before).map key)

/-- A child is freed, with its suffix and its node, and no other device is touched. -/
theorem Blkdevm.Holds.freeChild (holds : m.Holds (before ++ entry :: rest))
    (child : entry.blkdev.parent = dev) (enough : before.length < limit) :
    ∃ left, m.blkdevmFreeChild limit dev entry.addr = .ok left ∧ left.Holds (before ++ rest) ∧
      left.list.nodes entry.node = none := by
  have here : entry ∈ before ++ entry :: rest := by simp
  obtain ⟨nonnull, live⟩ := holds.live entry here
  obtain ⟨suffixNonnull, named⟩ := holds.named entry here
  have list := holds.list
  rw [List.map_append, List.map_cons] at list
  have absent : ∀ pair ∈ before.map MountableEntry.pair, pair.2 ≠ entry.addr := by
    intro pair member
    obtain ⟨other, inside, rfl⟩ := List.mem_map.mp member
    exact key_other holds.addrs (List.mem_append_left _ inside)
  obtain ⟨shorter, removed, list', gone⟩ :=
    list.remove absent (show (before.map MountableEntry.pair).length < limit by simpa using enough)
  unfold blkdevmFreeChild
  rw [if_neg nonnull, Blocks.load_live live, Exec.ok_bind, if_pos child,
    kfreeBlock_live suffixNonnull named, Exec.ok_bind]
  unfold blkdevmFreeMountableBlkdev
  dsimp only
  rw [removed, Exec.ok_bind, kfreeBlock_live nonnull live, Exec.ok_bind]
  refine ⟨_, rfl, ⟨?_, nodup_without holds.addrs, nodup_without holds.suffixes, ?_, ?_⟩, gone⟩
  · rw [List.map_append]
    exact list'
  · intro other member
    have inside : other ∈ before ++ entry :: rest :=
      ((List.sublist_cons_self entry rest).append_left before).subset member
    obtain ⟨otherNonnull, otherLive⟩ := holds.live other inside
    refine ⟨otherNonnull, ?_⟩
    exact (Function.update_of_ne (key_other holds.addrs member) _ _).trans otherLive
  · intro other member
    have inside : other ∈ before ++ entry :: rest :=
      ((List.sublist_cons_self entry rest).append_left before).subset member
    obtain ⟨otherNonnull, otherNamed⟩ := holds.named other inside
    refine ⟨otherNonnull, ?_⟩
    exact (Function.update_of_ne (key_other holds.suffixes member) _ _).trans otherNamed

/-- The loop ends behind the first child, because the node that it stands on is freed. -/
theorem Blkdevm.Holds.freeChildrenLoop (holds : m.Holds (before ++ rest))
    (none_before : ∀ entry ∈ before, entry.childOf dev = false)
    (chain : Segment m.list.nodes node (rest.map MountableEntry.pair) 0)
    (enough : before.length + rest.length < limit) (steps : rest.length ≤ fuel) :
    ∃ left, m.blkdevmFreeChildrenLoop limit dev fuel node = .ok left ∧
      left.Holds (before ++ rest.eraseP (MountableEntry.childOf dev)) := by
  induction rest generalizing before node fuel with
  | nil =>
    refine ⟨m, ?_, holds⟩
    obtain rfl : node = 0 := chain
    unfold blkdevmFreeChildrenLoop
    exact if_pos rfl
  | cons entry rest ih =>
    obtain ⟨rfl, next, here, later⟩ := chain
    have nonnull : entry.node ≠ 0 := by
      intro same
      have zero := holds.list.null
      rw [← same] at zero
      rw [show m.list.nodes entry.node = _ from here] at zero
      cases zero
    cases fuel with
    | zero => cases steps
    | succ fuel =>
      unfold blkdevmFreeChildrenLoop
      dsimp only
      rw [if_neg nonnull, Blocks.load_live here, Exec.ok_bind]
      dsimp only
      cases child : entry.childOf dev with
      | true =>
        have isChild : entry.blkdev.parent = dev := by simpa [MountableEntry.childOf] using child
        obtain ⟨left, freed, held, gone⟩ := holds.freeChild isChild
          (show before.length < limit by rw [List.length_cons] at enough; omega)
        rw [freed, Exec.ok_bind, List.eraseP_cons_of_pos child]
        refine ⟨left, ?_, held⟩
        have ended : nextNode entry.node left.list.nodes = 0 := by
          unfold nextNode
          rw [gone]
        show blkdevmFreeChildrenLoop limit dev fuel (nextNode entry.node left.list.nodes) left = _
        rw [ended]
        unfold blkdevmFreeChildrenLoop
        exact if_pos rfl
      | false =>
        have other : ¬ entry.blkdev.parent = dev := by simpa [MountableEntry.childOf] using child
        obtain ⟨addrNonnull, live⟩ := holds.live entry (by simp)
        have kept : m.blkdevmFreeChild limit dev entry.addr = .ok m := by
          unfold blkdevmFreeChild
          rw [if_neg addrNonnull, Blocks.load_live live, Exec.ok_bind, if_neg other]
          rfl
        have goes : nextNode entry.node m.list.nodes = next := by
          unfold nextNode
          rw [show m.list.nodes entry.node = _ from here]
        rw [kept, Exec.ok_bind, List.eraseP_cons_of_neg (by simp [child]), List.append_cons]
        show ∃ left, blkdevmFreeChildrenLoop limit dev fuel (nextNode entry.node m.list.nodes) m =
          .ok left ∧ _
        rw [goes]
        apply ih
        · rw [← List.append_cons]
          exact holds
        · intro other member
          rcases List.mem_append.mp member with member | member
          · exact none_before other member
          · rw [List.mem_singleton.mp member]
            exact child
        · exact later
        · rw [List.length_append, List.length_singleton]
          rw [List.length_cons] at enough
          omega
        · exact Nat.le_of_succ_le_succ steps

theorem Blkdevm.Holds.freeBlkdevChildren (holds : m.Holds entries) (dev : Nat)
    (enough : entries.length < limit) :
    ∃ left, m.blkdevmFreeBlkdevChildren limit dev = .ok left ∧
      left.Holds (entries.eraseP (MountableEntry.childOf dev)) := by
  have start : m.Holds ([] ++ entries) := holds
  exact start.freeChildrenLoop (fun _ member => absurd member List.not_mem_nil) holds.list.chain
    (by simpa using enough) (Nat.le_of_lt enough)

end Free

section Enumerate

variable {blockDev : BlockDevice} {mem : PartitionMem} {mems : Nat → MountableMem} {i : Nat}
variable {part : Partition} {parts : List Partition} {old added : List MountableEntry}

/-- What `blkdevm_enumerate_partitions` adds for a partition. -/
def newEntry (dev : BlockDevice) (part : Partition) (mem : MountableMem) : MountableEntry :=
  ⟨mem.node, mem.blkdev, ⟨mem.suffix, part.lba, 0, part.sectorCount, dev.sectorsize.setWidth 32,
    dev.addr⟩, part.suffix⟩

theorem blkdevmNewMountableBlkdev_ok {mem : MountableMem} {addr : Nat} {m' : Blkdevm}
    (h : m.blkdevmNewMountableBlkdev mem = .ok (addr, m')) (nonnull : addr ≠ 0) :
    addr = mem.blkdev ∧ m.blkdevs addr = none ∧
      m'.blkdevs = Function.update m.blkdevs addr (some ⟨0, 0, 0, 0, 0, 0⟩) ∧
      m'.suffixes = m.suffixes ∧
      ∃ st, m.list.linkedlistAdd addr mem.node = .ok (st, m'.list) ∧ ¬ st < 0 := by
  unfold Blkdevm.blkdevmNewMountableBlkdev at h
  split at h
  · cases h
    exact absurd rfl nonnull
  · obtain ⟨blkdevs, zeroed, h⟩ := Exec.bind_ok.mp h
    obtain ⟨fresh, rfl⟩ := Blocks.alloc_ok.mp zeroed
    obtain ⟨⟨st, list⟩, linked, h⟩ := Exec.bind_ok.mp h
    dsimp only at h
    split at h
    · obtain ⟨blkdevs, freed, h⟩ := Exec.bind_ok.mp h
      cases h
      exact absurd rfl nonnull
    · rename_i positive
      cases h
      exact ⟨rfl, fresh, rfl, rfl, st, linked, positive⟩

theorem nodup_concat {α : Type} {key : α → Nat} {entries : List α} {entry : α}
    (distinct : (entries.map key).Nodup) (fresh : key entry ∉ entries.map key) :
    ((entries ++ [entry]).map key).Nodup := by
  rw [List.map_append]
  apply List.nodup_append.mpr
  refine ⟨distinct, List.nodup_singleton _, fun first member last isLast same => ?_⟩
  rw [same, List.mem_singleton.mp isLast] at member
  exact fresh member

/-- A device of its own for the partition, at the end of the list. -/
theorem Blkdevm.Holds.add (holds : m.Holds entries)
    (h : m.blkdevmAddPartitions blockDev mems i (part :: parts) = .ok (0, left)) :
    ∃ more : Blkdevm, more.Holds (entries ++ [newEntry blockDev part (mems i)]) ∧
      more.blkdevmAddPartitions blockDev mems (i + 1) parts = .ok (0, left) := by
  unfold blkdevmAddPartitions at h
  split at h
  · cases h
  · rename_i suffixNonnull
    obtain ⟨suffixes, duplicated, h⟩ := Exec.bind_ok.mp h
    obtain ⟨suffixFresh, rfl⟩ := Blocks.alloc_ok.mp duplicated
    obtain ⟨⟨addr, m'⟩, new, h⟩ := Exec.bind_ok.mp h
    dsimp only at h
    split at h
    · obtain ⟨suffixes, freed, h⟩ := Exec.bind_ok.mp h
      cases h
    · rename_i nonnull
      obtain ⟨rfl, fresh, blkdevs', sameSuffixes, st, linked, positive⟩ :=
        blkdevmNewMountableBlkdev_ok new nonnull
      obtain ⟨blkdevs, stored, h⟩ := Exec.bind_ok.mp h
      rw [blkdevs', Blocks.store_live (Function.update_self _ _ _), Function.update_idem] at stored
      cases stored
      refine ⟨_, ⟨?_, ?_, ?_, ?_, ?_⟩, h⟩
      · rw [List.map_append]
        exact (holds.list.add linked positive).1
      · apply nodup_concat holds.addrs
        rintro member
        obtain ⟨other, inside, same⟩ := List.mem_map.mp member
        have live := (holds.live other inside).2
        rw [same] at live
        rw [show m.blkdevs (newEntry blockDev part (mems i)).addr = none from fresh] at live
        cases live
      · apply nodup_concat holds.suffixes
        rintro member
        obtain ⟨other, inside, same⟩ := List.mem_map.mp member
        have live := (holds.named other inside).2
        rw [show other.blkdev.suffix = (mems i).suffix from same, suffixFresh] at live
        cases live
      · intro other member
        rcases List.mem_append.mp member with member | last
        · obtain ⟨otherNonnull, live⟩ := holds.live other member
          refine ⟨otherNonnull, (Function.update_of_ne ?_ _ _).trans live⟩
          rintro same
          rw [same, fresh] at live
          cases live
        · rw [List.mem_singleton.mp last]
          exact ⟨nonnull, Function.update_self _ _ _⟩
      · intro other member
        dsimp only
        rw [sameSuffixes]
        rcases List.mem_append.mp member with member | last
        · obtain ⟨otherNonnull, named⟩ := holds.named other member
          refine ⟨otherNonnull, (Function.update_of_ne ?_ _ _).trans named⟩
          rintro same
          rw [same, suffixFresh] at named
          cases named
        · rw [List.mem_singleton.mp last]
          exact ⟨suffixNonnull, Function.update_self _ _ _⟩

/-- The devices for all of the partitions. -/
def newEntries (dev : BlockDevice) (mems : Nat → MountableMem) :
    (i : Nat) → List Partition → List MountableEntry
  | _, [] => []
  | i, part :: rest => newEntry dev part (mems i) :: newEntries dev mems (i + 1) rest

theorem newEntries_partition (dev : BlockDevice) (mems : Nat → MountableMem) (i : Nat)
    (parts : List Partition) :
    (newEntries dev mems i parts).map MountableEntry.partition = parts := by
  induction parts generalizing i with
  | nil => rfl
  | cons part rest ih => exact congrArg (part :: ·) (ih (i + 1))

theorem newEntries_seen (dev : BlockDevice) (mems : Nat → MountableMem) (i : Nat)
    (parts : List Partition) :
    (newEntries dev mems i parts).map MountableEntry.seen =
      parts.map fun part => (⟨0, part.lba, 0, part.sectorCount, dev.sectorsize.setWidth 32,
        dev.addr⟩, part.suffix) := by
  induction parts generalizing i with
  | nil => rfl
  | cons part rest ih => exact congrArg (_ :: ·) (ih (i + 1))

theorem newEntries_child (dev : BlockDevice) (mems : Nat → MountableMem) (i : Nat)
    (parts : List Partition) :
    ∀ entry ∈ newEntries dev mems i parts, entry.childOf dev.addr = true := by
  induction parts generalizing i with
  | nil => exact fun _ member => absurd member List.not_mem_nil
  | cons part rest ih =>
    intro entry member
    rcases List.mem_cons.mp member with rfl | member
    · exact decide_eq_true rfl
    · exact ih (i + 1) entry member

theorem Blkdevm.Holds.addPartitions (holds : m.Holds entries)
    (h : m.blkdevmAddPartitions blockDev mems i parts = .ok (0, left)) :
    left.Holds (entries ++ newEntries blockDev mems i parts) := by
  induction parts generalizing i entries m with
  | nil =>
    cases h
    rw [newEntries, List.append_nil]
    exact holds
  | cons part rest ih =>
    obtain ⟨more, held, later⟩ := holds.add h
    rw [newEntries, List.append_cons]
    exact ih held later

/-- The list after an enumeration: without the first of the old children, and with the partitions
    of the table. -/
theorem Blkdevm.Holds.enumerate (holds : m.Holds old) (enough : old.length < limit)
    (h : m.blkdevmEnumeratePartitions limit blockDev mem mems = .ok (0, left)) :
    left.Holds (old.eraseP (MountableEntry.childOf blockDev.addr) ++
      newEntries blockDev mems 0 mem.mbr.table) := by
  unfold blkdevmEnumeratePartitions at h
  split at h
  · rename_i failed
    rw [(Prod.mk.inj (Except.ok.inj h)).1] at failed
    cases failed
  · rename_i created
    obtain ⟨freed, free, held⟩ := holds.freeBlkdevChildren blockDev.addr enough
    rw [free, Exec.ok_bind, partitiontableCreate_table created] at h
    exact held.addPartitions h

theorem segment_unique {nodes : Blocks Node} {start : Nat} {first second : List (Nat × Nat)}
    (null : nodes 0 = none) (chain : Segment nodes start first 0)
    (other : Segment nodes start second 0) : first = second := by
  have ended : ∀ {addr data rest}, ¬ Segment nodes 0 ((addr, data) :: rest) 0 := by
    rintro addr data rest ⟨rfl, next, here, -⟩
    rw [null] at here
    cases here
  induction first generalizing start second with
  | nil =>
    obtain rfl : start = 0 := chain
    cases second with
    | nil => rfl
    | cons entry rest => exact absurd other ended
  | cons entry rest ih =>
    cases second with
    | nil =>
      obtain rfl : start = 0 := other
      exact absurd chain ended
    | cons entry' rest' =>
      obtain ⟨rfl, next, here, later⟩ := chain
      obtain ⟨same, next', here', later'⟩ := other
      rw [← same, here] at here'
      obtain ⟨sameData, rfl⟩ := Node.mk.inj (Option.some.inj here')
      rw [ih later later', Prod.ext same sameData]

theorem Blkdevm.Holds.unique {first second : List MountableEntry} (holds : m.Holds first)
    (other : m.Holds second) : first = second := by
  have pairs := segment_unique holds.list.null holds.list.chain other.list.chain
  have value : ∀ entry ∈ first, ∀ entry' ∈ second, entry.pair = entry'.pair → entry = entry' := by
    rintro ⟨node, addr, blkdev, name⟩ member ⟨node', addr', blkdev', name'⟩ member' same
    cases same
    have live := (holds.live _ member).2
    rw [(other.live _ member').2] at live
    cases live
    have named := (holds.named _ member).2
    rw [(other.named _ member').2] at named
    cases named
    rfl
  clear holds other
  induction first generalizing second with
  | nil => exact (List.map_eq_nil_iff.mp pairs.symm).symm
  | cons entry rest ih =>
    cases second with
    | nil => cases pairs
    | cons entry' rest' =>
      obtain ⟨head, tail⟩ := List.cons.inj pairs
      rw [value entry List.mem_cons_self entry' List.mem_cons_self head]
      congr 1
      exact ih tail fun first member second member' =>
        value first (List.mem_cons_of_mem _ member) second (List.mem_cons_of_mem _ member')

/-- For the device, a device in the list for every partition of the table; for the others, what the
    list held before. -/
def Enumerated (dev : BlockDevice) (table : List Partition) (old : List MountableEntry)
    (m : Blkdevm) : Prop :=
  ∃ new, m.Holds new ∧
    ((new.filter (MountableEntry.childOf dev.addr)).map MountableEntry.partition).Perm table ∧
    new.filter (fun entry => ¬ entry.childOf dev.addr) =
      old.filter fun entry => ¬ entry.childOf dev.addr

def SameList (m m' : Blkdevm) : Prop :=
  ∃ first second, m.Holds first ∧ m'.Holds second ∧
    second.map MountableEntry.seen = first.map MountableEntry.seen

def children (dev : BlockDevice) (entries : List MountableEntry) : List MountableEntry :=
  entries.filter (MountableEntry.childOf dev.addr)

theorem filter_eraseP {α : Type} (p : α → Bool) (entries : List α) :
    (entries.eraseP p).filter p = (entries.filter p).tail ∧
      (entries.eraseP p).filter (fun entry => ¬ p entry) = entries.filter fun entry => ¬ p entry := by
  induction entries with
  | nil => exact ⟨rfl, rfl⟩
  | cons entry rest ih =>
    cases here : p entry with
    | true => simp [here]
    | false => simpa [here] using ih

theorem tail_nil_iff {α : Type} (entries : List α) : entries.tail = [] ↔ entries.length ≤ 1 := by
  cases entries with
  | nil => simp
  | cons entry rest => simp

theorem Blkdevm.Holds.parts_iff (holds : m.Holds old) (enough : old.length < limit)
    (h : m.blkdevmEnumeratePartitions limit blockDev mem mems = .ok (0, left)) :
    Enumerated blockDev mem.mbr.table old left ↔ (children blockDev old).length ≤ 1 := by
  have after := holds.enumerate enough h
  obtain ⟨fewer, others⟩ := filter_eraseP (MountableEntry.childOf blockDev.addr) old
  have new := newEntries_child blockDev mems 0 mem.mbr.table
  have own : (newEntries blockDev mems 0 mem.mbr.table).filter
      (MountableEntry.childOf blockDev.addr) = newEntries blockDev mems 0 mem.mbr.table :=
    List.filter_eq_self.mpr new
  have no_other : (newEntries blockDev mems 0 mem.mbr.table).filter
      (fun entry => ¬ entry.childOf blockDev.addr) = [] := by
    apply List.filter_eq_nil_iff.mpr
    intro entry member
    simp [new entry member]
  rw [← tail_nil_iff]
  constructor
  · rintro ⟨list, held, same, -⟩
    rw [held.unique after, List.filter_append, fewer, own, List.map_append,
      newEntries_partition] at same
    have length := same.length_eq
    rw [List.length_append, List.length_map] at length
    apply List.length_eq_zero_iff.mp
    show (children blockDev old).tail.length = 0
    unfold children
    omega
  · intro empty
    unfold children at empty
    refine ⟨_, after, ?_, ?_⟩
    · rw [List.filter_append, fewer, own, empty, List.nil_append, newEntries_partition]
    · rw [List.filter_append, others, no_other, List.append_nil]

/-- When the first enumeration was right, the second one leaves all of its partitions but the
    first. -/
theorem Blkdevm.Holds.sameList_iff {mem' : PartitionMem} {mems' : Nat → MountableMem}
    (holds : m.Holds old) (enough : old.length + mem.mbr.table.length < limit)
    (few : (children blockDev old).length ≤ 1) (same : mem'.mbr = mem.mbr)
    (first : m.blkdevmEnumeratePartitions limit blockDev mem mems = .ok (0, once))
    (second : once.blkdevmEnumeratePartitions limit blockDev mem' mems' = .ok (0, twice)) :
    SameList once twice ↔ mem.mbr.table.length ≤ 1 := by
  have after := holds.enumerate (by omega) first
  have length : (newEntries blockDev mems 0 mem.mbr.table).length = mem.mbr.table.length := by
    have sized := congrArg List.length (newEntries_partition blockDev mems 0 mem.mbr.table)
    rwa [List.length_map] at sized
  have shorter : (old.eraseP (MountableEntry.childOf blockDev.addr)).length ≤ old.length :=
    List.length_eraseP_le
  have again := after.enumerate (by rw [List.length_append]; omega) second
  have none_left : ∀ entry ∈ old.eraseP (MountableEntry.childOf blockDev.addr),
      ¬ entry.childOf blockDev.addr = true := by
    apply List.filter_eq_nil_iff.mp
    rw [(filter_eraseP (MountableEntry.childOf blockDev.addr) old).1]
    exact (tail_nil_iff _).mpr few
  have left : (old.eraseP (MountableEntry.childOf blockDev.addr) ++
      newEntries blockDev mems 0 mem.mbr.table).eraseP (MountableEntry.childOf blockDev.addr) =
      old.eraseP (MountableEntry.childOf blockDev.addr) ++
        (newEntries blockDev mems 0 mem.mbr.table).tail := by
    rw [List.eraseP_append_right _ none_left]
    have new := newEntries_child blockDev mems 0 mem.mbr.table
    cases list : newEntries blockDev mems 0 mem.mbr.table with
    | nil => rfl
    | cons entry rest =>
      rw [list] at new
      rw [List.eraseP_cons_of_pos (new entry List.mem_cons_self)]
      rfl
  rw [left, same] at again
  rw [← tail_nil_iff]
  constructor
  · rintro ⟨entries, entries', held, held', seen⟩
    rw [held.unique after, held'.unique again, List.map_append, List.map_append, List.map_append,
      newEntries_seen blockDev mems' 0, ← newEntries_seen blockDev mems 0, List.append_assoc,
      List.append_right_inj, List.append_left_eq_self, List.map_tail, newEntries_seen,
      ← List.map_tail, List.map_eq_nil_iff] at seen
    exact seen
  · intro empty
    have none_more : (newEntries blockDev mems 0 mem.mbr.table).tail = [] := by
      rw [tail_nil_iff, length, ← tail_nil_iff]
      exact empty
    refine ⟨_, _, after, again, ?_⟩
    rw [none_more, List.append_nil, List.map_append, List.map_append, newEntries_seen,
      newEntries_seen]

/-- An enumeration leaves what it should exactly when it finds at most one old child of the device,
    and a second one changes nothing if besides there is at most one partition. -/
theorem enumerated_iff (blockDev : BlockDevice) (mem : PartitionMem) (mems : Nat → MountableMem)
    (limit : Nat) (m once : Blkdevm) (old : List MountableEntry) (holds : m.Holds old)
    (enough : old.length + mem.mbr.table.length < limit)
    (first : m.blkdevmEnumeratePartitions limit blockDev mem mems = .ok (0, once)) :
    (Enumerated blockDev mem.mbr.table old once ↔ (children blockDev old).length ≤ 1) ∧
    ∀ (mem' : PartitionMem) (mems' : Nat → MountableMem) (twice : Blkdevm), mem'.mbr = mem.mbr →
      once.blkdevmEnumeratePartitions limit blockDev mem' mems' = .ok (0, twice) →
      (Enumerated blockDev mem.mbr.table old once ∧ SameList once twice ↔
        (children blockDev old).length ≤ 1 ∧ mem.mbr.table.length ≤ 1) := by
  have right := holds.parts_iff (by omega) first
  refine ⟨right, fun mem' mems' twice same second => ?_⟩
  rw [right]
  exact and_congr_right fun few => holds.sameList_iff enough few same first second

/-- A disk with a partition in each of the first records, and an allocator that answers new
    addresses. -/
def diskMem (partitions : List MBRPartition) (four : partitions.length = 4) : PartitionMem where
  buf := true
  read := 1
  mbr := ⟨0, partitions, 0xAA55, four⟩
  partitions := true
  suffix _ := true
  uuid _ := true

def oneOnDisk : PartitionMem := diskMem [⟨2048, 100⟩, ⟨0, 0⟩, ⟨0, 0⟩, ⟨0, 0⟩] rfl

def twoOnDisk : PartitionMem := diskMem [⟨2048, 100⟩, ⟨0, 0⟩, ⟨4096, 200⟩, ⟨0, 0⟩] rfl

def freshMems (first i : Nat) : MountableMem := ⟨first + 48 * i, first + 48 * i + 16, first + 48 * i + 32⟩

def noBlkdevs : Blkdevm := ⟨⟨fun _ => none, ⟨0, 0⟩⟩, fun _ => none, fun _ => none⟩

theorem noBlkdevs_holds : noBlkdevs.Holds [] :=
  ⟨⟨rfl, rfl, rfl, List.nodup_nil⟩, List.nodup_nil, List.nodup_nil, by simp, by simp⟩

/-- A disk of 512 byte sectors. -/
def hda : BlockDevice := ⟨0xC0, 512⟩

/-- Two enumerations that return 0, told from their return values alone. -/
theorem enumerates_twice {limit : Nat} {blockDev : BlockDevice} {mem : PartitionMem}
    {mems mems' : Nat → MountableMem} {m : Blkdevm}
    (returns : (m.blkdevmEnumeratePartitions limit blockDev mem mems).map Prod.fst = .ok 0)
    (again : (m.blkdevmEnumeratePartitions limit blockDev mem mems >>= fun ended =>
      ended.2.blkdevmEnumeratePartitions limit blockDev mem mems').map Prod.fst = .ok 0) :
    ∃ once twice, m.blkdevmEnumeratePartitions limit blockDev mem mems = .ok (0, once) ∧
      once.blkdevmEnumeratePartitions limit blockDev mem mems' = .ok (0, twice) := by
  obtain ⟨once, first⟩ := Exec.of_status returns
  rw [first, Exec.ok_bind] at again
  obtain ⟨twice, second⟩ := Exec.of_status again
  exact ⟨once, twice, first, second⟩

theorem enumerated_one :
    ∃ once twice, noBlkdevs.blkdevmEnumeratePartitions 5 hda oneOnDisk (freshMems 0x100) =
        .ok (0, once) ∧
      once.blkdevmEnumeratePartitions 5 hda oneOnDisk (freshMems 0x300) = .ok (0, twice) ∧
      Enumerated hda oneOnDisk.mbr.table [] once ∧ SameList once twice := by
  have runs : ∃ once twice, noBlkdevs.blkdevmEnumeratePartitions 5 hda oneOnDisk
      (freshMems 0x100) = .ok (0, once) ∧
      once.blkdevmEnumeratePartitions 5 hda oneOnDisk (freshMems 0x300) = .ok (0, twice) :=
    enumerates_twice (by decide +kernel) (by decide +kernel)
  obtain ⟨once, twice, first, second⟩ := runs
  refine ⟨once, twice, first, second, ?_⟩
  exact ((enumerated_iff hda oneOnDisk (freshMems 0x100) 5 noBlkdevs once [] noBlkdevs_holds
    (by decide) first).2 oneOnDisk (freshMems 0x300) twice rfl second).mpr ⟨by decide, by decide⟩

/-- The second enumeration of a disk with two partitions leaves one of the old devices. -/
theorem not_enumerated_two :
    ∃ once twice, noBlkdevs.blkdevmEnumeratePartitions 5 hda twoOnDisk (freshMems 0x100) =
        .ok (0, once) ∧
      once.blkdevmEnumeratePartitions 5 hda twoOnDisk (freshMems 0x300) = .ok (0, twice) ∧
      ∃ old, once.Holds old ∧ ¬ Enumerated hda twoOnDisk.mbr.table old twice ∧
        ¬ SameList once twice := by
  have runs : ∃ once twice, noBlkdevs.blkdevmEnumeratePartitions 5 hda twoOnDisk
      (freshMems 0x100) = .ok (0, once) ∧
      once.blkdevmEnumeratePartitions 5 hda twoOnDisk (freshMems 0x300) = .ok (0, twice) :=
    enumerates_twice (by decide +kernel) (by decide +kernel)
  obtain ⟨once, twice, first, second⟩ := runs
  have held := noBlkdevs_holds.enumerate (by decide) first
  refine ⟨once, twice, first, second, _, held, fun right => ?_, fun same => ?_⟩
  · have few := (held.parts_iff (by decide) second).mp right
    exact absurd few (by decide)
  · have one := (noBlkdevs_holds.sameList_iff (by decide) (by decide) rfl first second).mp same
    exact absurd one (by decide)

end Enumerate

end Dxgmx
