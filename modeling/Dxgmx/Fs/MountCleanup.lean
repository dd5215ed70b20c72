import Dxgmx.Fs.MountMemory
import Dxgmx.User.UserCopies

open Library

namespace Dxgmx

/-- A string was measured and has a block, and is copied. -/
def StrndupAnswers.Copied (answers : StrndupAnswers) (maxn : Nat) : Prop :=
  ∃ len str, answers.len = .ok len ∧ len ≠ maxn ∧ answers.dupstr ≠ 0 ∧ answers.copy = .ok str

/-- A string was measured and has a block, and then the copy faults. -/
def StrndupAnswers.CopyFaults (answers : StrndupAnswers) (maxn : Nat) : Prop :=
  ∃ len st, answers.len = .ok len ∧ len ≠ maxn ∧ answers.dupstr ≠ 0 ∧ answers.copy = .error st

/-- `vfs_new_fs` gets to a copy that faults. -/
def MountAnswers.NewFsFaults (answers : MountAnswers) : Prop :=
  answers.newfs ≠ 0 ∧ (answers.src.CopyFaults pathMax ∨ answers.src.Copied pathMax ∧
    (answers.dest.CopyFaults pathMax ∨ answers.dest.Copied pathMax ∧
      ∃ args ∈ answers.args, args.CopyFaults pathMax))

def MountAnswers.NewFsMade (answers : MountAnswers) : Prop :=
  answers.newfs ≠ 0 ∧ answers.src.Copied pathMax ∧ answers.dest.Copied pathMax ∧
    (∀ args ∈ answers.args, args.Copied pathMax) ∧ answers.node ≠ 0

/-- One of the copies that `vfs_mount` gets to faults. -/
def MountAnswers.CopyFaults (answers : MountAnswers) : Prop :=
  answers.NewFsFaults ∨ answers.NewFsMade ∧ ∃ type ∈ answers.type, type.CopyFaults vfsTypeMax

def MountAnswers.dupstrs (answers : MountAnswers) : List Nat :=
  answers.src.dupstr :: answers.dest.dupstr ::
    ((answers.args.map StrndupAnswers.dupstr).toList ++
      (answers.type.map StrndupAnswers.dupstr).toList)

/-- The allocator hands out what is not in use. -/
structure MountAnswers.Unused (answers : MountAnswers) (mem : MountMemory) : Prop where
  newfs : mem.filesystems answers.newfs = none
  node : mem.filesystemsLl.nodes answers.node = none
  strings : ∀ dupstr ∈ answers.dupstrs, mem.strings dupstr = none
  apart : answers.dupstrs.Pairwise fun first second => first = second → first = 0

/-- `g_filesystems_ll` holds the mounted file systems. -/
structure MountMemory.Listed (mem : MountMemory) (entries : List (Nat × Nat)) : Prop where
  holds : mem.filesystemsLl.Holds entries
  live : ∀ entry ∈ entries, ∃ fs, mem.filesystems entry.2 = some fs

def FsPointers.strings (fs : FsPointers) : List Nat :=
  [fs.mntsrc].filter (· ≠ 0) ++ ([fs.mntpoint].filter (· ≠ 0) ++ [fs.args].filter (· ≠ 0))

/-- What the new file system points to once its strings are copied. -/
def MountAnswers.fs (answers : MountAnswers) : FsPointers :=
  ⟨answers.src.dupstr, answers.dest.dupstr, (answers.args.map StrndupAnswers.dupstr).getD 0, 0, 0⟩

def MountMemory.withFs (mem : MountMemory) (newfs : Nat) (fs : FsPointers)
    (strings : Blocks (List Byte)) (ll : ListMemory) : MountMemory :=
  ⟨Function.update mem.filesystems newfs (some fs), strings, ll⟩

/-- How a part of `vfs_new_fs` ends: with an error, for which a block is left over if a copy faulted,
    or with a file system in the list. -/
inductive NewFsEnds (mem : MountMemory) (answers : MountAnswers) (faults made : Prop) :
    Exec (Except Errno Nat × MountMemory) → Prop
  | error {st : Errno} {left : Blocks (List Byte)} (unmade : ¬ made)
      (kept : left = mem.strings ↔ ¬ faults) :
      NewFsEnds mem answers faults made (.ok (.error st, { mem with strings := left }))
  | made {left : Blocks (List Byte)} {grown : ListMemory} (all : made) (clean : ¬ faults)
      (strings : mem.strings.Extends answers.fs.strings left)
      (added : mem.filesystemsLl.linkedlistAdd answers.newfs answers.node = .ok (0, grown)) :
      NewFsEnds mem answers faults made
        (.ok (.ok answers.newfs, mem.withFs answers.newfs answers.fs left grown))

section List

variable {mem grown : ListMemory} {entries : List (Nat × Nat)} {data node fuel : Nat}

theorem ListMemory.Holds.end_live (holds : mem.Holds entries) (nonempty : mem.ll.last ≠ 0) :
    ∃ old, mem.nodes mem.ll.last = some ⟨old, 0⟩ := by
  obtain ⟨initial, old, split, outside⟩ := holds.end_ nonempty
  have chain := holds.chain
  rw [split] at chain
  exact ⟨old, (chain.relink outside 0).1⟩

theorem ListMemory.Holds.add_null (holds : mem.Holds entries) :
    mem.linkedlistAdd data 0 = .ok (-12, mem) := by
  unfold linkedlistAdd
  by_cases empty : mem.ll.last = 0
  · have root : mem.ll.root = 0 := congrArg LinkedList.root (holds.zero empty)
    rw [if_pos empty, if_pos rfl, ← root]
  · obtain ⟨old, here⟩ := holds.end_live empty
    rw [if_neg empty, Blocks.load_live here, Exec.ok_bind, Blocks.store_live here, Exec.ok_bind,
      if_pos rfl, ← here, Function.update_eq_self]
    rfl

theorem ListMemory.Holds.find_added (holds : mem.Holds entries)
    (fresh : ∀ entry ∈ entries, entry.2 ≠ data)
    (added : mem.linkedlistAdd data node = .ok (0, grown)) (enough : entries.length < fuel) :
    linkedlistFind data grown.nodes fuel 0 grown.ll.root = .ok (mem.ll.last, node) := by
  have after := (holds.add added (lt_irrefl 0)).1
  rw [holds.last]
  exact linkedlistFind_segment after.null after.chain fresh enough

theorem ListMemory.Holds.add_remove_first (holds : mem.Holds entries)
    (fresh : ∀ entry ∈ entries, entry.2 ≠ data) (nonnull : node ≠ 0) (unused : mem.nodes node = none)
    (enough : entries.length < fuel) (empty : mem.ll.last = 0) :
    ∃ grown, mem.linkedlistAdd data node = .ok (0, grown) ∧
      grown.linkedlistRemoveByData data fuel = .ok (0, mem) := by
  have added : mem.linkedlistAdd data node =
      .ok (0, ⟨Function.update mem.nodes node (some ⟨data, 0⟩), ⟨node, node⟩⟩) := by
    unfold linkedlistAdd
    rw [if_pos empty, if_neg nonnull, Blocks.alloc_ok.mpr ⟨unused, rfl⟩]
    rfl
  refine ⟨_, added, ?_⟩
  have found := holds.find_added fresh added enough
  have none := Function.update_eq_self node mem.nodes
  rw [unused] at none
  unfold linkedlistRemoveByData
  rw [found, Exec.ok_bind]
  dsimp only
  rw [if_neg nonnull, if_pos rfl, Blocks.load_live (Function.update_self _ _ _), Exec.ok_bind,
    if_pos empty, Blocks.free_eq (Function.update_self _ _ _), Exec.ok_bind, Function.update_idem,
    none, empty]
  show Except.ok (0, ListMemory.mk mem.nodes ⟨0, 0⟩) = _
  rw [← holds.zero empty]

theorem ListMemory.Holds.add_remove_behind (holds : mem.Holds entries)
    (fresh : ∀ entry ∈ entries, entry.2 ≠ data) (nonnull : node ≠ 0) (unused : mem.nodes node = none)
    (enough : entries.length < fuel) (nonempty : mem.ll.last ≠ 0) :
    ∃ grown, mem.linkedlistAdd data node = .ok (0, grown) ∧
      grown.linkedlistRemoveByData data fuel = .ok (0, mem) := by
  obtain ⟨old, here⟩ := holds.end_live nonempty
  have other : node ≠ mem.ll.last := by
    intro same
    rw [same, here] at unused
    cases unused
  have apart : Function.update mem.nodes mem.ll.last (some ⟨old, node⟩) node = none := by
    rw [Function.update_of_ne other, unused]
  have added : mem.linkedlistAdd data node =
      .ok (0, ⟨Function.update (Function.update mem.nodes mem.ll.last (some ⟨old, node⟩)) node
        (some ⟨data, 0⟩), ⟨mem.ll.root, node⟩⟩) := by
    unfold linkedlistAdd
    rw [if_neg nonempty, Blocks.load_live here, Exec.ok_bind, Blocks.store_live here, Exec.ok_bind,
      if_neg nonnull, Blocks.alloc_ok.mpr ⟨apart, rfl⟩]
    rfl
  refine ⟨_, added, ?_⟩
  have found := holds.find_added fresh added enough
  have before : Function.update (Function.update mem.nodes mem.ll.last (some ⟨old, node⟩)) node
      (some ⟨data, 0⟩) mem.ll.last = some ⟨old, node⟩ := by
    rw [Function.update_of_ne (Ne.symm other), Function.update_self]
  have restored : Function.update (Function.update (Function.update (Function.update mem.nodes
      mem.ll.last (some ⟨old, node⟩)) node (some ⟨data, 0⟩)) mem.ll.last (some ⟨old, 0⟩)) node
        none = mem.nodes := by
    funext addr
    by_cases isNode : addr = node
    · rw [isNode, Function.update_self, unused]
    · by_cases isLast : addr = mem.ll.last
      · rw [isLast, Function.update_of_ne (Ne.symm other), Function.update_self, here]
      · rw [Function.update_of_ne isNode, Function.update_of_ne isLast,
          Function.update_of_ne isNode, Function.update_of_ne isLast]
  unfold linkedlistRemoveByData
  rw [found, Exec.ok_bind]
  dsimp only
  rw [if_neg nonnull, if_pos rfl, Blocks.load_live (Function.update_self _ _ _), Exec.ok_bind,
    if_neg nonempty, Blocks.load_live before, Exec.ok_bind, Blocks.store_live before, Exec.ok_bind,
    Blocks.free_eq (by rw [Function.update_of_ne other]; exact Function.update_self _ _ _),
    Exec.ok_bind, restored]
  rfl

/-- What was added last is removed without a trace. -/
theorem ListMemory.Holds.add_remove (holds : mem.Holds entries)
    (fresh : ∀ entry ∈ entries, entry.2 ≠ data) (nonnull : node ≠ 0) (unused : mem.nodes node = none)
    (enough : entries.length < fuel) :
    ∃ grown, mem.linkedlistAdd data node = .ok (0, grown) ∧
      grown.linkedlistRemoveByData data fuel = .ok (0, mem) := by
  by_cases empty : mem.ll.last = 0
  · exact holds.add_remove_first fresh nonnull unused enough empty
  · exact holds.add_remove_behind fresh nonnull unused enough empty

end List

section Strndup

variable {answers : StrndupAnswers} {maxn : Nat} {base strings : Blocks (List Byte)}
  {owned : List Nat}

theorem StrndupAnswers.Copied.not_faults (copied : answers.Copied maxn) :
    ¬ answers.CopyFaults maxn := by
  rintro ⟨_, st, -, -, -, failed⟩
  obtain ⟨_, str, -, -, -, done⟩ := copied
  rw [done] at failed
  cases failed

theorem userStrndup_cases (extends_ : base.Extends owned strings)
    (unused : base answers.dupstr = none) (other : answers.dupstr ∉ owned) :
    (answers.Copied maxn ∧ ∃ left, userStrndup answers maxn strings = .ok (.ok answers.dupstr, left) ∧
      base.Extends (owned ++ [answers.dupstr]) left) ∨
    (¬ answers.Copied maxn ∧ ∃ st left, userStrndup answers maxn strings = .ok (.error st, left) ∧
      ((¬ answers.CopyFaults maxn ∧ base.Extends owned left) ∨
        (answers.CopyFaults maxn ∧ base.Extends (owned ++ [answers.dupstr]) left))) := by
  obtain ⟨len, dupstr, copy⟩ := answers
  unfold StrndupAnswers.Copied StrndupAnswers.CopyFaults userStrndup
  dsimp only at unused other ⊢
  cases len with
  | error st => exact .inr ⟨nofun, st, strings, rfl, .inl ⟨nofun, extends_⟩⟩
  | ok len =>
    dsimp only
    by_cases long : len = maxn
    · rw [if_pos long]
      refine .inr ⟨?_, _, strings, rfl, .inl ⟨?_, extends_⟩⟩
      · rintro ⟨_, _, same, short, -⟩
        cases same
        exact short long
      · rintro ⟨_, _, same, short, -⟩
        cases same
        exact short long
    · rw [if_neg long]
      by_cases null : dupstr = 0
      · rw [if_pos null]
        refine .inr ⟨?_, _, strings, rfl, .inl ⟨?_, extends_⟩⟩
        · rintro ⟨_, _, -, -, nonnull, -⟩
          exact nonnull null
        · rintro ⟨_, _, -, -, nonnull, -⟩
          exact nonnull null
      · obtain ⟨free, grown⟩ := extends_.alloc unused other []
        rw [if_neg null, Blocks.alloc_ok.mpr ⟨free, rfl⟩, Exec.ok_bind]
        cases copy with
        | error st => exact .inr ⟨nofun, st, _, rfl, .inr ⟨⟨len, st, rfl, long, null, rfl⟩, grown⟩⟩
        | ok str =>
          dsimp only
          rw [Blocks.store_live (Function.update_self _ _ _), Exec.ok_bind, Function.update_idem]
          exact .inl ⟨⟨len, str, rfl, long, null, rfl⟩, _, rfl, (extends_.alloc unused other str).2⟩

end Strndup

theorem MountAnswers.Unused.distinct {answers : MountAnswers} {mem : MountMemory}
    (unused : answers.Unused mem) (srcSet : answers.src.dupstr ≠ 0)
    (destSet : answers.dest.dupstr ≠ 0) :
    answers.dest.dupstr ∉ [answers.src.dupstr] ∧
      ∀ args ∈ answers.args, args.dupstr ∉ [answers.src.dupstr, answers.dest.dupstr] := by
  have apart := unused.apart
  unfold MountAnswers.dupstrs at apart
  obtain ⟨src, apart⟩ := List.pairwise_cons.mp apart
  obtain ⟨dest, -⟩ := List.pairwise_cons.mp apart
  constructor
  · intro member
    exact srcSet (src answers.dest.dupstr List.mem_cons_self (List.mem_singleton.mp member).symm)
  · intro args given member
    have inside : args.dupstr ∈ (answers.args.map StrndupAnswers.dupstr).toList ++
        (answers.type.map StrndupAnswers.dupstr).toList := by
      rw [Option.mem_def.mp given]
      exact List.mem_cons_self
    rcases List.mem_cons.mp member with same | member
    · exact srcSet (src _ (List.mem_cons_of_mem _ inside) same.symm)
    · exact destSet (dest _ inside (List.mem_singleton.mp member).symm)

theorem MountAnswers.Unused.type {answers : MountAnswers} {mem : MountMemory}
    (unused : answers.Unused mem) {type : StrndupAnswers} (given : type ∈ answers.type) :
    mem.strings type.dupstr = none ∧ type.dupstr ∉ answers.fs.strings := by
  have inside : type.dupstr ∈ (answers.type.map StrndupAnswers.dupstr).toList := by
    rw [Option.mem_def.mp given]
    exact List.mem_cons_self
  have all : type.dupstr ∈ answers.dupstrs := by
    unfold dupstrs
    simp only [List.mem_cons, List.mem_append, inside, or_true]
  refine ⟨unused.strings _ all, fun member => ?_⟩
  have apart := unused.apart
  unfold dupstrs at apart
  obtain ⟨src, apart⟩ := List.pairwise_cons.mp apart
  obtain ⟨dest, apart⟩ := List.pairwise_cons.mp apart
  obtain ⟨-, -, args⟩ := List.pairwise_append.mp apart
  simp only [FsPointers.strings, fs, List.mem_append, List.mem_filter, List.mem_singleton,
    decide_eq_true_eq] at member
  rcases member with ⟨same, set⟩ | ⟨same, set⟩ | ⟨same, set⟩
  · refine set (same.trans (src type.dupstr ?_ same.symm))
    exact List.mem_cons_of_mem _ (List.mem_append_right _ inside)
  · exact set (same.trans (dest type.dupstr (List.mem_append_right _ inside) same.symm))
  · cases none : answers.args with
    | none =>
      rw [none] at same
      exact set same
    | some given =>
      rw [none] at same args
      exact set (same.trans (args given.dupstr List.mem_cons_self type.dupstr inside same.symm))

namespace MountMemory

variable {mem now : MountMemory} {answers : MountAnswers} {newfs fuel : Nat} {fs : FsPointers}
  {left base : Blocks (List Byte)} {ll : ListMemory} {entries : List (Nat × Nat)}
  {owned : List Nat}

theorem modifyFs_withFs (change : FsPointers → FsPointers) :
    (mem.withFs newfs fs left ll).modifyFs newfs change = .ok (mem.withFs newfs (change fs) left ll) := by
  unfold modifyFs withFs
  rw [Blocks.load_live (Function.update_self _ _ _), Exec.ok_bind,
    Blocks.store_live (Function.update_self _ _ _), Exec.ok_bind, Function.update_idem]
  rfl

theorem kfreeFs_withFs (unused : mem.filesystems newfs = none) :
    (mem.withFs newfs fs left ll).kfreeFs newfs = .ok ⟨mem.filesystems, left, ll⟩ := by
  have none := Function.update_eq_self newfs mem.filesystems
  rw [unused] at none
  unfold kfreeFs withFs
  rw [Blocks.free_eq (Function.update_self _ _ _), Exec.ok_bind, Function.update_idem, none]
  rfl

theorem kfreeString_extends {addr : Nat} (nonnull : addr ≠ 0)
    (extends_ : base.Extends (addr :: owned) now.strings) :
    ∃ left, now.kfreeString addr = .ok { now with strings := left } ∧ base.Extends owned left := by
  obtain ⟨left, freed, extends_⟩ := extends_.free
  refine ⟨left, ?_, extends_⟩
  unfold kfreeString
  rw [if_neg nonnull, freed]
  rfl

theorem kfreeIfSet_extends {addr : Nat}
    (extends_ : base.Extends ([addr].filter (· ≠ 0) ++ owned) now.strings) :
    ∃ left, now.kfreeIfSet addr = .ok { now with strings := left } ∧ base.Extends owned left := by
  unfold kfreeIfSet
  by_cases null : addr = 0
  · rw [if_pos null]
    simp only [null, ne_eq, not_true_eq_false, decide_false, Bool.false_eq_true, not_false_eq_true,
      List.filter_cons_of_neg, List.filter_nil, List.nil_append] at extends_
    exact ⟨now.strings, rfl, extends_⟩
  · rw [if_neg null]
    have whole : [addr].filter (· ≠ 0) = [addr] := by simp [null]
    rw [whole] at extends_
    exact kfreeString_extends null extends_

theorem kfreeIfSet_live {addr : Nat} (live : addr ≠ 0 → ∃ str, now.strings addr = some str) :
    ∃ after, now.kfreeIfSet addr = .ok after := by
  unfold kfreeIfSet
  by_cases null : addr = 0
  · exact ⟨now, if_pos null⟩
  · obtain ⟨str, here⟩ := live null
    unfold kfreeString
    rw [if_neg null, if_neg null, Blocks.free_eq here]
    exact ⟨_, rfl⟩

/-- `out_err` gives back all that `vfs_new_fs` has of its own. -/
theorem newFsOutErr_withFs (unused : mem.filesystems newfs = none) (st : Errno)
    (extends_ : mem.strings.Extends (fs.strings ++ owned) left) :
    ∃ left', (mem.withFs newfs fs left ll).newFsOutErr newfs st =
        .ok (.error st, ⟨mem.filesystems, left', ll⟩) ∧ mem.strings.Extends owned left' := by
  unfold FsPointers.strings at extends_
  rw [List.append_assoc, List.append_assoc] at extends_
  obtain ⟨first, freedSrc, extends_⟩ := @kfreeIfSet_extends (mem.withFs newfs fs left ll) _ _ _ extends_
  obtain ⟨second, freedDest, extends_⟩ := @kfreeIfSet_extends (mem.withFs newfs fs first ll) _ _ _ extends_
  obtain ⟨third, freedArgs, extends_⟩ := @kfreeIfSet_extends (mem.withFs newfs fs second ll) _ _ _ extends_
  refine ⟨third, ?_, extends_⟩
  unfold newFsOutErr
  have loaded : (mem.withFs newfs fs left ll).filesystems.load newfs = .ok fs :=
    Blocks.load_live (Function.update_self _ _ _)
  rw [loaded, Exec.ok_bind, freedSrc, Exec.ok_bind]
  change ((mem.withFs newfs fs first ll).kfreeIfSet fs.mntpoint >>= _) = _
  rw [freedDest, Exec.ok_bind]
  change ((mem.withFs newfs fs second ll).kfreeIfSet fs.args >>= _) = _
  rw [freedArgs, Exec.ok_bind]
  change ((mem.withFs newfs fs third ll).kfreeFs newfs >>= _) = _
  rw [kfreeFs_withFs unused]
  rfl

theorem Listed.fresh (listed : mem.Listed entries) (unused : mem.filesystems newfs = none) :
    ∀ entry ∈ entries, entry.2 ≠ newfs := by
  rintro entry member rfl
  obtain ⟨fs, live⟩ := listed.live entry member
  rw [unused] at live
  cases live

theorem newFsLink_ends (unused : answers.Unused mem) (listed : mem.Listed entries)
    (extends_ : mem.strings.Extends answers.fs.strings left) :
    NewFsEnds mem answers False (answers.node ≠ 0)
      ((mem.withFs answers.newfs answers.fs left mem.filesystemsLl).newFsLink answers.newfs
        answers.node) := by
  unfold newFsLink
  change NewFsEnds mem answers _ _
    (mem.filesystemsLl.linkedlistAdd answers.newfs answers.node >>= _)
  by_cases null : answers.node = 0
  · have enough : mem.strings.Extends (answers.fs.strings ++ []) left := by
      rw [List.append_nil]
      exact extends_
    obtain ⟨left', undone, extends_⟩ := @newFsOutErr_withFs mem answers.newfs answers.fs left
      mem.filesystemsLl [] unused.newfs enomem enough
    have negative : (-12 : Int) < 0 := by decide
    rw [null, listed.holds.add_null, Exec.ok_bind]
    dsimp only
    rw [if_pos negative]
    change NewFsEnds mem answers _ _ ((mem.withFs answers.newfs answers.fs left
      mem.filesystemsLl).newFsOutErr answers.newfs _)
    rw [undone]
    exact .error (fun some_ => some_ rfl) (iff_of_true extends_.eq id)
  · obtain ⟨grown, added, -⟩ := listed.holds.add_remove (listed.fresh unused.newfs) null unused.node
      (Nat.lt_succ_self _)
    rw [added, Exec.ok_bind]
    exact .made null id extends_ added

/-- A string of the new file system is copied before the rest, or `vfs_new_fs` gives up. -/
theorem newFsStrndup_ends {a : StrndupAnswers} {maxn : Nat} {faults made : Prop}
    (rest : Nat → MountMemory → Exec (Except Errno Nat × MountMemory))
    (unused : mem.filesystems answers.newfs = none) (extends_ : mem.strings.Extends fs.strings left)
    (free : mem.strings a.dupstr = none) (other : a.dupstr ∉ fs.strings)
    (later : a.Copied maxn → ∀ left', mem.strings.Extends (fs.strings ++ [a.dupstr]) left' →
      NewFsEnds mem answers faults made
        (rest a.dupstr (mem.withFs answers.newfs fs left' mem.filesystemsLl))) :
    NewFsEnds mem answers (a.CopyFaults maxn ∨ a.Copied maxn ∧ faults) (a.Copied maxn ∧ made)
      (do
        match ← (mem.withFs answers.newfs fs left mem.filesystemsLl).strndup a maxn with
        | (.error st, mem) => mem.newFsOutErr answers.newfs st
        | (.ok str, mem) => rest str mem) := by
  unfold strndup
  change NewFsEnds mem answers _ _ ((userStrndup a maxn left >>= _) >>= _)
  rcases @userStrndup_cases a maxn _ _ _ extends_ free other with
    ⟨copied, left', done, extends_⟩ | ⟨uncopied, st, left', failed, why⟩
  · rw [done, Exec.ok_bind]
    change NewFsEnds mem answers _ _
      (rest a.dupstr (mem.withFs answers.newfs fs left' mem.filesystemsLl))
    have clean := copied.not_faults
    have next := later copied left' extends_
    generalize rest a.dupstr (mem.withFs answers.newfs fs left' mem.filesystemsLl) = result at next ⊢
    cases next with
    | error unmade kept =>
      refine .error (fun both => unmade both.2) (kept.trans (not_congr ?_))
      simp [clean, copied]
    | made all unfaulted strings added =>
      refine .made ⟨copied, all⟩ ?_ strings added
      simp [clean, unfaulted]
  · rw [failed, Exec.ok_bind]
    change NewFsEnds mem answers _ _
      ((mem.withFs answers.newfs fs left' mem.filesystemsLl).newFsOutErr answers.newfs st)
    rcases why with ⟨clean, extends_⟩ | ⟨faults, extends_⟩
    · rw [← List.append_nil fs.strings] at extends_
      obtain ⟨left'', undone, extends_⟩ := @newFsOutErr_withFs mem answers.newfs fs left'
        mem.filesystemsLl [] unused st extends_
      rw [undone]
      refine .error (fun both => uncopied both.1) (iff_of_true extends_.eq ?_)
      simp [clean, uncopied]
    · obtain ⟨left'', undone, extends_⟩ := @newFsOutErr_withFs mem answers.newfs fs left'
        mem.filesystemsLl [a.dupstr] unused st extends_
      rw [undone]
      exact .error (fun both => uncopied both.1)
        (iff_of_false extends_.ne (not_not.mpr (.inl faults)))

theorem newFsArgs_ends (unused : answers.Unused mem) (listed : mem.Listed entries)
    (srcSet : answers.src.dupstr ≠ 0) (destSet : answers.dest.dupstr ≠ 0)
    (extends_ : mem.strings.Extends [answers.src.dupstr, answers.dest.dupstr] left)
    (apart : ∀ args ∈ answers.args,
      args.dupstr ∉ [answers.src.dupstr, answers.dest.dupstr]) :
    NewFsEnds mem answers (∃ args ∈ answers.args, args.CopyFaults pathMax)
      ((∀ args ∈ answers.args, args.Copied pathMax) ∧ answers.node ≠ 0)
      ((mem.withFs answers.newfs ⟨answers.src.dupstr, answers.dest.dupstr, 0, 0, 0⟩ left
        mem.filesystemsLl).newFsArgs answers) := by
  have two : FsPointers.strings ⟨answers.src.dupstr, answers.dest.dupstr, 0, 0, 0⟩ =
      [answers.src.dupstr, answers.dest.dupstr] := by
    simp [FsPointers.strings, srcSet, destSet]
  unfold newFsArgs
  cases given : answers.args with
  | none =>
    have whole : answers.fs = ⟨answers.src.dupstr, answers.dest.dupstr, 0, 0, 0⟩ := by
      unfold MountAnswers.fs
      rw [given]
      rfl
    have ends := @newFsLink_ends mem answers left entries unused listed (by
      rw [whole, two]
      exact extends_)
    rw [whole] at ends
    simpa using ends
  | some args =>
    have inside : args.dupstr ∈ answers.dupstrs := by simp [MountAnswers.dupstrs, given]
    rw [← two] at extends_ apart
    have ends := @newFsStrndup_ends mem answers
      ⟨answers.src.dupstr, answers.dest.dupstr, 0, 0, 0⟩ left args pathMax False (answers.node ≠ 0)
      (fun str mem => do
        let mem ← mem.modifyFs answers.newfs fun fs => { fs with args := str }
        mem.newFsLink answers.newfs answers.node)
      unused.newfs extends_ (unused.strings _ inside) (apart args given) (by
        rintro ⟨_, _, -, -, set, -⟩ left' extends_
        have whole : answers.fs = ⟨answers.src.dupstr, answers.dest.dupstr, args.dupstr, 0, 0⟩ := by
          unfold MountAnswers.fs
          rw [given]
          rfl
        have ends := @newFsLink_ends mem answers left' entries unused listed (by
          rw [whole]
          rw [two] at extends_
          simpa [FsPointers.strings, srcSet, destSet, set] using extends_)
        rw [whole] at ends
        rw [modifyFs_withFs, Exec.ok_bind]
        exact ends)
    have faults : (∃ given ∈ some args, given.CopyFaults pathMax) =
        (args.CopyFaults pathMax ∨ args.Copied pathMax ∧ False) := by simp
    have made : ((∀ given ∈ some args, given.Copied pathMax) ∧ answers.node ≠ 0) =
        (args.Copied pathMax ∧ answers.node ≠ 0) := by simp
    rw [faults, made]
    exact ends

theorem newFsMntpoint_ends (unused : answers.Unused mem) (listed : mem.Listed entries)
    (srcSet : answers.src.dupstr ≠ 0)
    (extends_ : mem.strings.Extends [answers.src.dupstr] left)
    (apart : answers.dest.dupstr ≠ 0 → answers.dest.dupstr ∉ [answers.src.dupstr] ∧
      ∀ args ∈ answers.args, args.dupstr ∉ [answers.src.dupstr, answers.dest.dupstr]) :
    NewFsEnds mem answers
      (answers.dest.CopyFaults pathMax ∨ answers.dest.Copied pathMax ∧
        ∃ args ∈ answers.args, args.CopyFaults pathMax)
      (answers.dest.Copied pathMax ∧ (∀ args ∈ answers.args, args.Copied pathMax) ∧
        answers.node ≠ 0)
      ((mem.withFs answers.newfs ⟨answers.src.dupstr, 0, 0, 0, 0⟩ left
        mem.filesystemsLl).newFsMntpoint answers) := by
  have one : FsPointers.strings ⟨answers.src.dupstr, 0, 0, 0, 0⟩ = [answers.src.dupstr] := by
    simp [FsPointers.strings, srcSet]
  have inside : answers.dest.dupstr ∈ answers.dupstrs := by simp [MountAnswers.dupstrs]
  have free : answers.dest.dupstr ∉ FsPointers.strings ⟨answers.src.dupstr, 0, 0, 0, 0⟩ := by
    rw [one]
    by_cases null : answers.dest.dupstr = 0
    · simp [null, Ne.symm srcSet]
    · exact (apart null).1
  rw [← one] at extends_
  exact newFsStrndup_ends
    (fun str mem => do
      let mem ← mem.modifyFs answers.newfs fun fs => { fs with mntpoint := str }
      mem.newFsArgs answers)
    unused.newfs extends_ (unused.strings _ inside) free (by
      rintro ⟨_, _, -, -, set, -⟩ left' extends_
      rw [one] at extends_
      rw [modifyFs_withFs, Exec.ok_bind]
      exact newFsArgs_ends unused listed srcSet set extends_ (apart set).2)

theorem vfsNewFs_ends (unused : answers.Unused mem) (listed : mem.Listed entries) :
    NewFsEnds mem answers answers.NewFsFaults answers.NewFsMade (mem.vfsNewFs answers) := by
  unfold MountAnswers.NewFsFaults MountAnswers.NewFsMade vfsNewFs
  by_cases null : answers.newfs = 0
  · rw [if_pos null]
    exact .error (fun made => made.1 null) (iff_of_true rfl fun faults => faults.1 null)
  · have none : FsPointers.strings ⟨0, 0, 0, 0, 0⟩ = [] := by simp [FsPointers.strings]
    have inside : answers.src.dupstr ∈ answers.dupstrs := by simp [MountAnswers.dupstrs]
    rw [if_neg null, Blocks.alloc_ok.mpr ⟨unused.newfs, rfl⟩, Exec.ok_bind]
    have start : mem.strings.Extends (FsPointers.strings ⟨0, 0, 0, 0, 0⟩) mem.strings := by
      rw [none]
      exact .refl _
    have ends := @newFsStrndup_ends mem answers ⟨0, 0, 0, 0, 0⟩ mem.strings answers.src pathMax _ _
      (fun str mem => do
        let mem ← mem.modifyFs answers.newfs fun fs => { fs with mntsrc := str }
        mem.newFsMntpoint answers)
      unused.newfs start (unused.strings _ inside) (by rw [none]; exact List.not_mem_nil) (by
        rintro ⟨_, _, -, -, set, -⟩ left' extends_
        rw [none] at extends_
        rw [modifyFs_withFs, Exec.ok_bind]
        exact newFsMntpoint_ends unused listed set extends_ (unused.distinct set))
    simp only [null, ne_eq, not_false_eq_true, true_and]
    exact ends

/-- The loop comes back, and stores nothing but drivers. -/
theorem vfsMountLoop_withFs (drv : Nat → FsDriver) (init : Nat → Int) (drivers : List Nat)
    {safeType : Nat} (named : safeType ≠ 0 → ∃ type, left safeType = some type) (fs : FsPointers) :
    ∃ st driver, vfsMountLoop drv init safeType newfs drivers (mem.withFs newfs fs left ll) =
      .ok (st, mem.withFs newfs { fs with driver := driver } left ll) := by
  induction drivers generalizing fs with
  | nil => exact ⟨-2, fs.driver, rfl⟩
  | cons driver rest ih =>
    obtain ⟨st, last, reached⟩ := ih { fs with driver := driver }
    unfold vfsMountLoop
    rw [modifyFs_withFs, Exec.ok_bind]
    by_cases null : safeType = 0
    · rw [if_neg (not_not.mpr null)]
      by_cases answered : (drv driver).genericProbe ∧ init driver ≠ -2
      · exact ⟨init driver, driver, if_pos answered⟩
      · exact ⟨st, last, (if_neg answered).trans reached⟩
    · obtain ⟨type, live⟩ := named null
      have loaded : (mem.withFs newfs { fs with driver := driver } left ll).strings.load safeType =
          .ok type := Blocks.load_live live
      rw [if_pos null, loaded, Exec.ok_bind]
      by_cases same : (drv driver).name = type
      · exact ⟨init driver, driver, if_pos same⟩
      · exact ⟨st, last, (if_neg same).trans reached⟩

theorem vfsFreeFs_withFs {grown : ListMemory} (unused : mem.filesystems newfs = none)
    (srcSet : fs.mntsrc ≠ 0) (destSet : fs.mntpoint ≠ 0)
    (removed : grown.linkedlistRemoveByData newfs fuel = .ok (0, mem.filesystemsLl))
    (extends_ : mem.strings.Extends (fs.strings ++ owned) left) :
    ∃ left', (mem.withFs newfs fs left grown).vfsFreeFs fuel newfs =
        .ok { mem with strings := left' } ∧ mem.strings.Extends owned left' := by
  have whole : fs.strings ++ owned =
      fs.mntsrc :: fs.mntpoint :: ([fs.args].filter (· ≠ 0) ++ owned) := by
    simp [FsPointers.strings, srcSet, destSet]
  rw [whole] at extends_
  obtain ⟨first, freedSrc, extends_⟩ :=
    @kfreeString_extends (mem.withFs newfs fs left mem.filesystemsLl) _ _ _ srcSet extends_
  obtain ⟨second, freedDest, extends_⟩ :=
    @kfreeString_extends (mem.withFs newfs fs first mem.filesystemsLl) _ _ _ destSet extends_
  obtain ⟨third, freedArgs, extends_⟩ :=
    @kfreeIfSet_extends (mem.withFs newfs fs second mem.filesystemsLl) _ _ _ extends_
  refine ⟨third, ?_, extends_⟩
  have loaded : (mem.withFs newfs fs left mem.filesystemsLl).filesystems.load newfs = .ok fs :=
    Blocks.load_live (Function.update_self _ _ _)
  unfold vfsFreeFs
  change (grown.linkedlistRemoveByData newfs fuel >>= _) = _
  rw [removed, Exec.ok_bind]
  change ((mem.withFs newfs fs left mem.filesystemsLl).filesystems.load newfs >>= _) = _
  rw [loaded, Exec.ok_bind]
  change ((mem.withFs newfs fs left mem.filesystemsLl).kfreeString fs.mntsrc >>= _) = _
  rw [freedSrc, Exec.ok_bind]
  change ((mem.withFs newfs fs first mem.filesystemsLl).kfreeString fs.mntpoint >>= _) = _
  rw [freedDest, Exec.ok_bind]
  change ((mem.withFs newfs fs second mem.filesystemsLl).kfreeIfSet fs.args >>= _) = _
  rw [freedArgs, Exec.ok_bind]
  exact kfreeFs_withFs unused

/-- From the loop on, the type is given back, and with it all else where no driver answers. -/
theorem mountFs_withFs {grown : ListMemory} (drv : Nat → FsDriver) (drivers : List Nat)
    (init : Nat → Int) {safeType : Nat} (unused : mem.filesystems newfs = none)
    (srcSet : fs.mntsrc ≠ 0) (destSet : fs.mntpoint ≠ 0)
    (removed : grown.linkedlistRemoveByData newfs fuel = .ok (0, mem.filesystemsLl))
    (extends_ : mem.strings.Extends (fs.strings ++ [safeType].filter (· ≠ 0)) left) :
    ∃ st now, (mem.withFs newfs fs left grown).mountFs drv drivers init fuel newfs safeType =
      .ok (st, now) ∧ (st < 0 → now = mem) := by
  have named : safeType ≠ 0 → ∃ type, left safeType = some type := by
    intro set
    apply extends_.live
    simp [set]
  obtain ⟨st, driver, reached⟩ :=
    @vfsMountLoop_withFs mem newfs left grown drv init drivers safeType named fs
  unfold mountFs
  rw [reached, Exec.ok_bind]
  dsimp only
  by_cases failed : st < 0
  · obtain ⟨left', freed, extends_⟩ := @vfsFreeFs_withFs mem newfs fuel { fs with driver := driver }
      left ([safeType].filter (· ≠ 0)) grown unused srcSet destSet removed extends_
    rw [if_pos failed, freed, Exec.ok_bind]
    rw [← List.append_nil ([safeType].filter _)] at extends_
    obtain ⟨left'', freed, extends_⟩ := @kfreeIfSet_extends { mem with strings := left' } _ _ _ extends_
    rw [freed, Exec.ok_bind, extends_.eq]
    exact ⟨st, mem, rfl, fun _ => rfl⟩
  · rw [if_neg failed]
    obtain ⟨now, freed⟩ := @kfreeIfSet_live
      (mem.withFs newfs { fs with driver := driver } left grown) safeType named
    change ∃ st' now, ((mem.withFs newfs { fs with driver := driver } left grown).kfreeIfSet
      safeType >>= _) = _ ∧ _
    rw [freed]
    exact ⟨st, now, rfl, fun negative => absurd negative failed⟩

/-- Where the type is not copied, what is left is its block. -/
theorem vfsFreeFs_untyped {grown : ListMemory} {type : StrndupAnswers}
    (unused : mem.filesystems newfs = none) (srcSet : fs.mntsrc ≠ 0) (destSet : fs.mntpoint ≠ 0)
    (removed : grown.linkedlistRemoveByData newfs fuel = .ok (0, mem.filesystemsLl))
    (why : (¬ type.CopyFaults vfsTypeMax ∧ mem.strings.Extends fs.strings left) ∨
      (type.CopyFaults vfsTypeMax ∧ mem.strings.Extends (fs.strings ++ [type.dupstr]) left)) :
    ∃ now, (mem.withFs newfs fs left grown).vfsFreeFs fuel newfs = .ok now ∧
      (now = mem ↔ ¬ type.CopyFaults vfsTypeMax) := by
  rcases why with ⟨unfaulted, extends_⟩ | ⟨faults, extends_⟩
  · rw [← List.append_nil fs.strings] at extends_
    obtain ⟨left', freed, extends_⟩ := vfsFreeFs_withFs unused srcSet destSet removed extends_
    refine ⟨_, freed, iff_of_true ?_ unfaulted⟩
    rw [extends_.eq]
  · obtain ⟨left', freed, extends_⟩ := vfsFreeFs_withFs unused srcSet destSet removed extends_
    refine ⟨_, freed, iff_of_false (fun whole => ?_) (not_not.mpr faults)⟩
    exact extends_.ne (congrArg MountMemory.strings whole)

theorem vfsMount_ends (drv : Nat → FsDriver) (drivers : List Nat) (flags : BitVec 32)
    (unused : answers.Unused mem) (listed : mem.Listed entries) (enough : entries.length < fuel) :
    ∃ st now, mem.vfsMount drv drivers fuel answers flags = .ok (st, now) ∧
      (st < 0 → (now = mem ↔ ¬ answers.CopyFaults)) ∧ (answers.CopyFaults → st < 0) := by
  have ends := vfsNewFs_ends unused listed
  unfold vfsMount MountAnswers.CopyFaults
  generalize mem.vfsNewFs answers = result at ends
  cases ends with
  | @error st left unmade kept =>
    refine ⟨st, { mem with strings := left }, rfl, fun _ => ?_, fun _ => st.2⟩
    have same : { mem with strings := left } = mem ↔ left = mem.strings :=
      ⟨fun whole => congrArg MountMemory.strings whole, fun part => by rw [part]⟩
    rw [same, kept]
    simp [unmade]
  | @made left grown all clean strings added =>
    have made := all
    obtain ⟨nonnull, ⟨_, _, -, -, srcSet, -⟩, ⟨_, _, -, -, destSet, -⟩, -, node⟩ := all
    obtain ⟨_, again, removed⟩ := listed.holds.add_remove (listed.fresh unused.newfs) node unused.node
      enough
    cases added.symm.trans again
    rw [Exec.ok_bind]
    dsimp only
    rw [modifyFs_withFs, Exec.ok_bind]
    cases given : answers.type with
    | none =>
      have typeless : mem.strings.Extends (answers.fs.strings ++ [0].filter (· ≠ 0)) left := by
        simpa using strings
      obtain ⟨st, now, done, undone⟩ := @mountFs_withFs mem answers.newfs fuel
        { answers.fs with flags := flags } left grown drv drivers answers.init 0 unused.newfs srcSet
        destSet removed typeless
      exact ⟨st, now, done, fun failed => by simp [undone failed, clean], by simp [clean]⟩
    | some type =>
      obtain ⟨free, other⟩ := unused.type given
      unfold strndup
      change ∃ st now, ((userStrndup type vfsTypeMax left >>= _) >>= _) = _ ∧ _
      rcases @userStrndup_cases type vfsTypeMax _ _ _ strings free other with
        ⟨copied, left', done, extends_⟩ | ⟨uncopied, st, left', failed, why⟩
      · rw [done, Exec.ok_bind]
        have set : type.dupstr ≠ 0 := by
          obtain ⟨_, _, -, -, set, -⟩ := copied
          exact set
        have typed : mem.strings.Extends (answers.fs.strings ++ [type.dupstr].filter (· ≠ 0)) left' := by
          simpa [set] using extends_
        obtain ⟨st, now, done, undone⟩ := @mountFs_withFs mem answers.newfs fuel
          { answers.fs with flags := flags } left' grown drv drivers answers.init type.dupstr
          unused.newfs srcSet destSet removed typed
        refine ⟨st, now, done, fun failed => ?_, ?_⟩
        · simp [undone failed, clean, copied.not_faults]
        · simp [clean, copied.not_faults]
      · rw [failed, Exec.ok_bind]
        obtain ⟨now, freed, clears⟩ := @vfsFreeFs_untyped mem answers.newfs fuel
          { answers.fs with flags := flags } left' grown type unused.newfs srcSet destSet removed why
        change ∃ st' now, ((mem.withFs answers.newfs { answers.fs with flags := flags } left'
          grown).vfsFreeFs fuel answers.newfs >>= _) = _ ∧ _
        rw [freed, Exec.ok_bind]
        refine ⟨st, now, rfl, fun _ => clears.trans ?_, fun _ => st.2⟩
        simp [made, clean]

end MountMemory

/-- The answers to a `user_strndup` during which the pages stay as they are. -/
def steadyAnswers (space : PageRights) (bytes : Ptr → Byte) (str maxn dupstr : BitVec 32) :
    StrndupAnswers :=
  let len := userStrnlen32 space str maxn bytes
  let copy := userCopyFrom32 space str dupstr (len + 1) bytes
  { len := if negative : len.toInt < 0 then .error ⟨len.toInt, negative⟩ else .ok len.toNat
    dupstr := dupstr.toNat
    copy := if negative : copy.1.toInt < 0 then .error ⟨copy.1.toInt, negative⟩
      else .ok (stringAt copy.2 dupstr len.toNat) }

/-- What could be measured can be copied, so that only pages that go away in between make a copy
    fault. -/
theorem steadyAnswers_not_faults (space : PageRights) (bytes : Ptr → Byte)
    (str maxn dupstr : BitVec 32) (writes : AllFrom space.mayWrite dupstr maxn.toNat) :
    ¬ (steadyAnswers space bytes str maxn dupstr).CopyFaults maxn.toNat := by
  rintro ⟨len, st, measured, short, -, failed⟩
  have counts : (0 : BitVec 32).toNat + maxn.toNat = maxn.toNat := by simp
  by_cases reads : AllFrom space.mayReadLong str (stringBytes bytes str maxn.toNat)
  · have counted := userStrnlenLoop_counts counts reads
    change userStrnlen32 space str maxn bytes = _ at counted
    have most := strnlen_le bytes str maxn.toNat
    have bounded := maxn.isLt
    have length : (userStrnlen32 space str maxn bytes).toNat = strnlen bytes str maxn.toNat := by
      rw [counted]
      simp only [BitVec.ofNat_eq_ofNat, BitVec.zero_add, BitVec.toNat_ofNat]
      omega
    have same : strnlen bytes str maxn.toNat = len := by
      rw [← length]
      unfold steadyAnswers at measured
      dsimp only at measured
      split at measured
      · cases measured
      · exact Except.ok.inj measured
    have all : stringBytes bytes str maxn.toNat = len + 1 := by
      rw [stringBytes, same]
      omega
    have counts : (0 : BitVec 32).toNat + (len + 1) =
        (userStrnlen32 space str maxn bytes + 1).toNat := by
      rw [BitVec.toNat_add, length, same]
      simp only [BitVec.ofNat_eq_ofNat, BitVec.toNat_ofNat]
      omega
    rw [all] at reads
    have done : (userCopyFrom32 space str dupstr (userStrnlen32 space str maxn bytes + 1) bytes).1 =
        0 := userCopyLoop_status counts reads fun i inside => writes i (by omega)
    unfold steadyAnswers at failed
    dsimp only at failed
    split at failed
    · rename_i negative
      rw [done] at negative
      exact absurd negative (by decide)
    · cases failed
  · have faults := userStrnlenLoop_faults counts reads
    change userStrnlen32 space str maxn bytes = _ at faults
    unfold steadyAnswers at measured
    rw [faults] at measured
    cases measured

/-- Where the call fails, the list and the blocks are as before. A block that was freed twice would
    stop the call. -/
def MountUndone (drv : Nat → FsDriver) (drivers : List Nat) (fuel : Nat) (answers : MountAnswers)
    (flags : BitVec 32) (mem : MountMemory) : Prop :=
  ∃ st now, mem.vfsMount drv drivers fuel answers flags = .ok (st, now) ∧ (st < 0 → now = mem)

/-- A mount that fails is undone exactly where no string was left behind by a copy that faulted. -/
theorem mountUndone_iff (drv : Nat → FsDriver) (drivers : List Nat) (fuel : Nat)
    (answers : MountAnswers) (flags : BitVec 32) (mem : MountMemory) (entries : List (Nat × Nat))
    (unused : answers.Unused mem) (listed : mem.Listed entries) (enough : entries.length < fuel) :
    MountUndone drv drivers fuel answers flags mem ↔ ¬ answers.CopyFaults := by
  obtain ⟨st, now, done, undone, fails⟩ :=
    MountMemory.vfsMount_ends drv drivers flags unused listed enough
  constructor
  · rintro ⟨st', now', done', same⟩ faults
    cases done.symm.trans done'
    exact (undone (fails faults)).mp (same (fails faults)) faults
  · exact fun clean => ⟨st, now, done, fun failed => (undone failed).mpr clean⟩

def rootMounted : MountMemory where
  filesystems addr := if addr = 8 then some ⟨24, 32, 0, 0, 64⟩ else none
  strings addr := if addr = 24 then some [0x68] else if addr = 32 then some [0x2f] else none
  filesystemsLl := ⟨fun addr => if addr = 16 then some ⟨8, 0⟩ else none, ⟨16, 16⟩⟩

theorem rootMounted_listed : rootMounted.Listed [(16, 8)] where
  holds := ⟨rfl, ⟨rfl, 0, rfl, rfl⟩, rfl, by decide⟩
  live := by
    intro entry member
    rw [List.mem_singleton.mp member]
    exact ⟨_, rfl⟩

/-- A mount of type `c`, which no driver has. -/
def unknownType : MountAnswers where
  newfs := 40
  src := ⟨.ok 1, 48, .ok [0x68]⟩
  dest := ⟨.ok 2, 56, .ok [0x2f, 0x6d]⟩
  args := none
  node := 72
  type := some ⟨.ok 1, 80, .ok [0x63]⟩
  init _ := 0

theorem mountUndone_unknownType :
    MountUndone VfsDrivers.twoDrivers [64, 128] 2 unknownType 0 rootMounted ∧
      (rootMounted.vfsMount VfsDrivers.twoDrivers [64, 128] 2 unknownType 0).map Prod.fst = .ok (-2) := by
  have unused : unknownType.Unused rootMounted := ⟨rfl, rfl, by decide, by decide⟩
  refine ⟨(mountUndone_iff VfsDrivers.twoDrivers [64, 128] 2 unknownType 0 rootMounted [(16, 8)] unused
    rootMounted_listed (by decide)).mpr ?_, by decide +kernel⟩
  rintro (⟨-, ⟨_, _, -, -, -, failed⟩ | ⟨-, ⟨_, _, -, -, -, failed⟩ | ⟨-, args, given, -⟩⟩⟩ |
    ⟨-, type, given, ⟨_, _, -, -, -, failed⟩⟩)
  · cases failed
  · cases failed
  · cases given
  · cases given
    cases failed

/-- The page of the source goes away before it is copied. -/
def sourceFaults : MountAnswers :=
  { unknownType with src := ⟨.ok 1, 48, .error ⟨-14, by decide⟩⟩ }

/-- The block of the source is left behind. -/
theorem not_mountUndone_sourceFaults :
    (rootMounted.vfsMount VfsDrivers.twoDrivers [64, 128] 2 sourceFaults 0).map (fun result =>
        (result.1, result.2.strings 48)) = .ok (-14, some []) ∧
      ¬ MountUndone VfsDrivers.twoDrivers [64, 128] 2 sourceFaults 0 rootMounted := by
  have leaks : (rootMounted.vfsMount VfsDrivers.twoDrivers [64, 128] 2 sourceFaults 0).map
      (fun result => (result.1, result.2.strings 48)) = .ok (-14, some []) := by
    decide
  refine ⟨leaks, ?_⟩
  rintro ⟨st, now, done, undone⟩
  rw [done] at leaks
  obtain ⟨status, left⟩ := Prod.mk.inj (Except.ok.inj leaks)
  dsimp only at status left
  rw [undone (by rw [status]; decide)] at left
  cases left

end Dxgmx
