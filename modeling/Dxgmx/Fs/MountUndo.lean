import Dxgmx.Fs.Mount
import Dxgmx.Fs.PathSpelling
import Dxgmx.Library.Runs

open Library

namespace Dxgmx

/-- A call on the mount table, with what the drivers answer to it. -/
inductive MountCall
  | mount (mem : Bool) (drivers : List FileSystemDriver) (init : FileSystem → InitAnswer)
    (args : MountArgs)
  | unmount (destroy : FileSystem → Exec Unit) (srcOrDest : Option (List Byte))

/-- A call that succeeds. -/
inductive MountStep : Mounts → MountCall → Mounts → Prop
  | mount {mounts mounts' : Mounts} {mem : Bool} {drivers : List FileSystemDriver}
      {init : FileSystem → InitAnswer} {args : MountArgs} {st : Int}
      (called : vfsMount mem drivers init args mounts = (st, mounts')) (done : 0 ≤ st) :
      MountStep mounts (.mount mem drivers init args) mounts'
  | unmount {mounts mounts' : Mounts} {destroy : FileSystem → Exec Unit}
      {srcOrDest : Option (List Byte)}
      (called : vfsUnmount destroy srcOrDest mounts = .ok (0, mounts')) :
      MountStep mounts (.unmount destroy srcOrDest) mounts'

theorem vfsMountLoop_keeps (init : FileSystem → InitAnswer) (type : Option (List Byte))
    (drivers : List FileSystemDriver) (fs : FileSystem) (fresh : Nat) :
    let (_, fs', fresh') := vfsMountLoop init type drivers fs fresh
    fs'.addr = fs.addr ∧ fs'.mntsrc = fs.mntsrc ∧ fs'.mntpoint = fs.mntpoint ∧ fresh ≤ fresh' := by
  induction drivers generalizing fs fresh with
  | nil => exact ⟨rfl, rfl, rfl, Nat.le_refl _⟩
  | cons driver rest ih =>
    have later := ih { fs with driver := driver } fresh
    cases type with
    | some safeType =>
      rw [vfsMountLoop]
      dsimp only
      split
      · exact ⟨rfl, rfl, rfl, Nat.le_add_right _ _⟩
      · exact later
    | none =>
      rw [vfsMountLoop]
      dsimp only
      split
      · split
        · exact ⟨rfl, rfl, rfl, Nat.le_add_right _ _⟩
        · have probed := ih (initFs init fresh { fs with driver := driver }).2.1
            (initFs init fresh { fs with driver := driver }).2.2
          exact ⟨probed.1, probed.2.1, probed.2.2.1,
            Nat.le_trans (Nat.le_add_right _ _) probed.2.2.2⟩
      · exact later

theorem vfsNewFs_ok {mem : Bool} {args : MountArgs} {addr : Nat} {fs : FileSystem}
    (h : vfsNewFs mem args addr = .ok fs) :
    fs.addr = addr ∧ args.src = .ok fs.mntsrc ∧ args.dest = .ok fs.mntpoint := by
  unfold vfsNewFs at h
  split at h
  · cases h
  · split at h
    · cases h
    · cases h
    · cases h
    · rename_i src dest _
      cases h
      exact ⟨rfl, src, dest⟩

/-- A mount that succeeds adds one file system, with a block of its own, behind all others. -/
theorem vfsMount_done {mem : Bool} {drivers : List FileSystemDriver}
    {init : FileSystem → InitAnswer} {args : MountArgs} {mounts mounts' : Mounts} {st : Int}
    (called : vfsMount mem drivers init args mounts = (st, mounts')) (done : 0 ≤ st) :
    ∃ fs, mounts'.filesystems = mounts.filesystems ++ [fs] ∧ fs.addr = mounts.fresh ∧
      args.dest = .ok fs.mntpoint ∧ mounts.fresh < mounts'.fresh := by
  unfold vfsMount at called
  split at called
  · rename_i failed _
    cases called
    exact absurd failed.2 (Int.not_lt.mpr done)
  · rename_i fs created
    obtain ⟨placed, -, dest⟩ := vfsNewFs_ok created
    split at called
    · rename_i failed _
      cases called
      exact absurd failed.2 (Int.not_lt.mpr done)
    · dsimp only at called
      have kept := vfsMountLoop_keeps init (args.type.bind Except.toOption) drivers fs
        (mounts.fresh + 1)
      generalize vfsMountLoop init (args.type.bind Except.toOption) drivers fs (mounts.fresh + 1) =
        probed at called kept
      obtain ⟨st', fs', fresh'⟩ := probed
      dsimp only at called kept
      split at called
      · rename_i failed
        cases called
        exact absurd failed (Int.not_lt.mpr done)
      · cases called
        exact ⟨fs', rfl, kept.1.trans placed, by rw [kept.2.2.1]; exact dest, kept.2.2.2⟩

theorem vfsUnmount_done {destroy : FileSystem → Exec Unit} {srcOrDest : Option (List Byte)}
    {mounts mounts' : Mounts} (called : vfsUnmount destroy srcOrDest mounts = .ok (0, mounts')) :
    ∃ name fs, srcOrDest = some name ∧ vfsFindFsBySrcOrDest name mounts.filesystems = some fs ∧
      destroy fs = .ok () ∧
      mounts' = { mounts with filesystems := mounts.filesystems.eraseP fun o => o.addr = fs.addr } := by
  unfold vfsUnmount at called
  split at called
  · cases called
  · rename_i name
    split at called
    · cases called
    · rename_i fs found
      obtain ⟨_, destroyed, rest⟩ := Exec.bind_ok.mp called
      cases rest
      exact ⟨name, fs, rfl, found, destroyed, rfl⟩

theorem Mounts.Distinct.step {mounts mounts' : Mounts} {call : MountCall}
    (distinct : mounts.Distinct) (step : MountStep mounts call mounts') : mounts'.Distinct := by
  cases step with
  | mount called done =>
    obtain ⟨fs, added, placed, -, grown⟩ := vfsMount_done called done
    constructor
    · rw [added, List.map_append, List.nodup_append]
      refine ⟨distinct.nodup, List.nodup_singleton _, ?_⟩
      intro addr before other here
      obtain ⟨old, member, rfl⟩ := List.mem_map.mp before
      have below := distinct.allocated old member
      rw [List.map_singleton, List.mem_singleton] at here
      omega
    · intro other member
      rw [added] at member
      rcases List.mem_append.mp member with before | here
      · exact Nat.lt_trans (distinct.allocated other before) grown
      · rw [List.mem_singleton.mp here, placed]
        exact grown
  | unmount called =>
    obtain ⟨name, fs, -, -, -, rfl⟩ := vfsUnmount_done called
    constructor
    · exact distinct.nodup.sublist (List.eraseP_sublist.map _)
    · exact fun other member => distinct.allocated other (List.mem_of_mem_eraseP member)

theorem Mounts.Distinct.run {start mounts : Mounts} {calls : List MountCall}
    (empty : start.filesystems = []) (run : Run MountStep start calls mounts) : mounts.Distinct := by
  refine run.invariant Mounts.Distinct (fun _ _ _ step distinct => distinct.step step) ?_
  constructor
  · rw [empty]
    exact List.nodup_nil
  · rw [empty]
    exact nofun

/-- The file system between `before` and `after` owns no absolute path: a later one is mounted on
    its mountpoint, no absolute path starts with that, or each one that does starts with a longer
    mountpoint. -/
def Obscured (before : List FileSystem) (fs : FileSystem) (after : List FileSystem) : Prop :=
  (∃ other ∈ after, other.mntpoint = fs.mntpoint) ∨
    (fs.mntpoint ≠ [] ∧ ¬ Absolute fs.mntpoint) ∨
    (fs.mntpoint = [] ∧ ∃ other ∈ before ++ after, other.mntpoint = [slash])

theorem prefix_absolute {mntpoint path : List Byte} (absolute : Absolute path)
    (starts : mntpoint <+: path) : mntpoint = [] ∨ Absolute mntpoint := by
  obtain ⟨rest, rfl⟩ := starts
  cases mntpoint with
  | nil => exact .inl rfl
  | cons c mntpoint => exact .inr absolute

theorem obscured_iff {before after : List FileSystem} {fs : FileSystem} (first : fs ∉ before)
    (only : fs ∉ after) :
    Obscured before fs after ↔
      ∀ path, Absolute path → vfsTopmostFsForPath path (before ++ fs :: after) ≠ .ok fs := by
  constructor
  · intro obscured path absolute found
    have owner := vfsTopmostFsForPath_ok.mp found
    rcases obscured with ⟨other, later, same⟩ | ⟨some, relative⟩ | ⟨none, other, member, root⟩
    · obtain ⟨before', after', split, hit, -, smaller⟩ := owner
      obtain ⟨rfl, -, rfl⟩ := (List.append_cons_inj_of_notMem first only).mp split
      have starts : other.mntpoint <+: path := by
        rw [same]
        exact hit
      have less : other.mntpoint.length < fs.mntpoint.length := smaller other later starts
      rw [same] at less
      exact Nat.lt_irrefl _ less
    · rcases prefix_absolute absolute owner.hit with none | starts
      · exact some none
      · exact relative starts
    · have inside : other ∈ before ++ fs :: after := by
        rcases List.mem_append.mp member with before | after
        · exact List.mem_append_left _ before
        · exact List.mem_append_right _ (List.mem_cons_of_mem _ after)
      have most := owner.le inside (by
        obtain ⟨rest, rfl⟩ := List.head?_eq_some_iff.mp absolute
        rw [root]
        exact ⟨rest, rfl⟩)
      rw [root, none] at most
      cases most
  · intro never
    by_contra seen
    unfold Obscured at seen
    push Not at seen
    obtain ⟨unique, absolute, unrooted⟩ := seen
    -- the mountpoint itself, or the path `/` for the mountpoint that every path starts with
    by_cases none : fs.mntpoint = []
    · have nameless (other : FileSystem) (member : other ∈ before ++ after)
          (starts : other.mntpoint <+: [slash]) : other.mntpoint = [] := by
        rcases List.prefix_cons_iff.mp starts with none | ⟨rest, same, nil⟩
        · exact none
        · rw [List.prefix_nil.mp nil] at same
          exact absurd same (unrooted none other member)
      refine never [slash] rfl (vfsTopmostFsForPath_ok.mpr ⟨before, after, rfl, ?_, ?_, ?_⟩)
      · show fs.mntpoint <+: [slash]
        rw [none]
        exact List.nil_prefix
      · intro other member starts
        show other.mntpoint.length ≤ _
        rw [nameless other (List.mem_append_left _ member) starts]
        exact Nat.zero_le _
      · intro other member starts
        refine absurd ?_ (unique other member)
        rw [nameless other (List.mem_append_right _ member) starts, none]
    · refine never fs.mntpoint (absolute none) (vfsTopmostFsForPath_ok.mpr
        ⟨before, after, rfl, List.prefix_refl _, fun other _ starts => starts.length_le, ?_⟩)
      intro other member starts
      refine Nat.lt_of_le_of_ne starts.length_le fun same => ?_
      exact unique other member (starts.eq_of_length same)

theorem vfsTopmostFsForPath_remove {before after : List FileSystem} {fs : FileSystem}
    {path : List Byte}
    (other : vfsTopmostFsForPath path (before ++ fs :: after) ≠ .ok fs) :
    vfsTopmostFsForPath path (before ++ after) =
      vfsTopmostFsForPath path (before ++ fs :: after) := by
  unfold vfsTopmostFsForPath at other ⊢
  rw [foldl_topmostStep] at other
  rw [foldl_topmostStep, foldl_topmostStep, lastMax_remove]
  intro found
  rw [found] at other
  exact other rfl

/-- Unmounting `dest` succeeds, and afterwards every absolute path is found where it was before the
    mount. -/
def Undone (destroy : FileSystem → Exec Unit) (dest : List Byte) (mounts mounts' : Mounts) : Prop :=
  ∃ mounts'', vfsUnmount destroy (some dest) mounts' = .ok (0, mounts'') ∧
    ∀ path, Absolute path →
      vfsTopmostFsForPath path mounts''.filesystems = vfsTopmostFsForPath path mounts.filesystems

/-- What `vfs_unmount` finds. -/
def MountedAs (name : List Byte) (fs : FileSystem) : Prop :=
  fs.mntsrc = name ∨ fs.mntpoint = name

instance (name : List Byte) (fs : FileSystem) : Decidable (MountedAs name fs) :=
  inferInstanceAs (Decidable (fs.mntsrc = name ∨ fs.mntpoint = name))

variable {mounts mounts' : Mounts} {new : FileSystem} {dest : List Byte}
  {destroy : FileSystem → Exec Unit}

theorem addr_ne_of_nodup {before after : List FileSystem} {fs : FileSystem}
    (nodup : ((before ++ fs :: after).map FileSystem.addr).Nodup) :
    ∀ other ∈ before ++ after, other.addr ≠ fs.addr := by
  rw [List.map_append, List.map_cons, List.nodup_middle, List.nodup_cons, ← List.map_append] at nodup
  exact fun other member same => nodup.1 (List.mem_map.mpr ⟨other, member, same⟩)

theorem eraseP_addr {before after : List FileSystem} {fs : FileSystem}
    (nodup : ((before ++ fs :: after).map FileSystem.addr).Nodup) :
    (before ++ fs :: after).eraseP (fun other => other.addr = fs.addr) = before ++ after := by
  have others := addr_ne_of_nodup nodup
  rw [List.eraseP_append_right _ fun other member => by
    simpa using others other (List.mem_append_left _ member), List.eraseP_cons_of_pos (by simp)]

theorem not_mem_of_nodup {before after : List FileSystem} {fs : FileSystem}
    (nodup : ((before ++ fs :: after).map FileSystem.addr).Nodup) : fs ∉ before ++ after :=
  fun member => addr_ne_of_nodup nodup fs member rfl

theorem vfsFindFsBySrcOrDest_of_first {name : List Byte} {before after : List FileSystem}
    {fs : FileSystem} (named : MountedAs name fs)
    (first : ∀ other ∈ before, ¬ MountedAs name other) :
    vfsFindFsBySrcOrDest name (before ++ fs :: after) = some fs := by
  unfold vfsFindFsBySrcOrDest
  rw [List.find?_eq_some_iff_append]
  refine ⟨decide_eq_true named, before, after, rfl, fun other member => ?_⟩
  rw [Bool.not_eq_true', decide_eq_false_iff_not]
  exact first other member

theorem vfsUnmount_of_first {name : List Byte} {before after : List FileSystem} {fs : FileSystem}
    (split : mounts.filesystems = before ++ fs :: after) (named : MountedAs name fs)
    (first : ∀ other ∈ before, ¬ MountedAs name other) (distinct : mounts.Distinct) :
    vfsUnmount destroy (some name) mounts =
      destroy fs >>= fun _ => pure (0, { mounts with filesystems := before ++ after }) := by
  have nodup := distinct.nodup
  rw [split] at nodup
  have found : vfsFindFsBySrcOrDest name mounts.filesystems = some fs := by
    rw [split]
    exact vfsFindFsBySrcOrDest_of_first named first
  unfold vfsUnmount
  simp only [found]
  rw [split, eraseP_addr nodup]

/-- What unmounting `dest` undoes depends on what is left of the table. -/
theorem undone_iff_of_first {before after : List FileSystem} {fs : FileSystem}
    (split : mounts'.filesystems = before ++ fs :: after) (named : MountedAs dest fs)
    (first : ∀ other ∈ before, ¬ MountedAs dest other) (distinct : mounts'.Distinct) :
    Undone destroy dest mounts mounts' ↔ destroy fs = .ok () ∧
      ∀ path, Absolute path →
        vfsTopmostFsForPath path (before ++ after) =
          vfsTopmostFsForPath path mounts.filesystems := by
  unfold Undone
  rw [vfsUnmount_of_first split named first distinct]
  constructor
  · rintro ⟨mounts'', called, same⟩
    obtain ⟨_, destroyed, rest⟩ := Exec.bind_ok.mp called
    cases rest
    exact ⟨destroyed, same⟩
  · rintro ⟨destroyed, same⟩
    rw [destroyed]
    exact ⟨_, rfl, same⟩

/-- Where nothing else has the name, the new file system is found. -/
theorem undone_iff_of_new (distinct : mounts'.Distinct)
    (added : mounts'.filesystems = mounts.filesystems ++ [new]) (named : new.mntpoint = dest)
    (none : ∀ fs ∈ mounts.filesystems, ¬ MountedAs dest fs) :
    Undone destroy dest mounts mounts' ↔ destroy new = .ok () := by
  rw [undone_iff_of_first added (.inr named) none distinct, List.append_nil]
  exact and_iff_left fun _ _ => rfl

/-- Where an earlier one has the name, that is taken out, which shows unless neither it nor the new
    one owns any path. -/
theorem undone_iff_of_earlier {before after : List FileSystem} {fs : FileSystem}
    (distinct : mounts'.Distinct) (added : mounts'.filesystems = mounts.filesystems ++ [new])
    (split : mounts.filesystems = before ++ fs :: after) (named : MountedAs dest fs)
    (first : ∀ other ∈ before, ¬ MountedAs dest other) :
    Undone destroy dest mounts mounts' ↔
      destroy fs = .ok () ∧ Obscured before fs after ∧ Obscured (before ++ after) new [] := by
  have nodup := distinct.nodup
  have apart := not_mem_of_nodup (by rw [added] at nodup; exact nodup)
  rw [List.append_nil, split] at apart
  have whole : mounts'.filesystems = before ++ fs :: (after ++ [new]) := by
    rw [added, split, List.append_assoc, List.cons_append]
  have alone := not_mem_of_nodup (by rw [whole] at nodup; exact nodup)
  rw [undone_iff_of_first whole named first distinct, ← List.append_assoc, split,
    obscured_iff (fun member => alone (by simp [member])) fun member => alone (by simp [member]),
    obscured_iff (fun member => apart ?_) List.not_mem_nil]
  · constructor
    · rintro ⟨destroyed, same⟩
      refine ⟨destroyed, fun path absolute owns => ?_, fun path absolute owns => ?_⟩
      · have owner := (same path absolute).trans owns
        refine alone ?_
        rw [← List.append_assoc]
        exact (vfsTopmostFsForPath_ok.mp owner).mem
      · have owner := (same path absolute).symm.trans owns
        exact apart (vfsTopmostFsForPath_ok.mp owner).mem
    · rintro ⟨destroyed, hidden, silent⟩
      refine ⟨destroyed, fun path absolute => ?_⟩
      rw [← vfsTopmostFsForPath_remove (hidden path absolute),
        ← vfsTopmostFsForPath_remove (silent path absolute), List.append_nil]
  · rcases List.mem_append.mp member with before | after
    · exact List.mem_append_left _ before
    · exact List.mem_append_right _ (List.mem_cons_of_mem _ after)

/-- A mount is undone by unmounting its mountpoint exactly if nothing mounted before it has that
    name and its driver comes back from destroying it, or if that holds of the first one that has
    the name and neither of the two owns any path. -/
theorem vfsUnmount_undoes_vfsMount_iff {start : Mounts} {calls : List MountCall} {mem : Bool}
    {drivers : List FileSystemDriver} {init : FileSystem → InitAnswer} {args : MountArgs} {st : Int}
    (destroy : FileSystem → Exec Unit) (empty : start.filesystems = [])
    (run : Run MountStep start calls mounts)
    (called : vfsMount mem drivers init args mounts = (st, mounts')) (done : 0 ≤ st)
    (named : args.dest = .ok dest) :
    ∃ new, mounts'.filesystems = mounts.filesystems ++ [new] ∧ new.mntpoint = dest ∧
      (Undone destroy dest mounts mounts' ↔
        ((∀ fs ∈ mounts.filesystems, ¬ MountedAs dest fs) ∧ destroy new = .ok ()) ∨
          ∃ before fs after, mounts.filesystems = before ++ fs :: after ∧ MountedAs dest fs ∧
            (∀ other ∈ before, ¬ MountedAs dest other) ∧ destroy fs = .ok () ∧
            Obscured before fs after ∧ Obscured (before ++ after) new []) := by
  have distinct := Mounts.Distinct.run empty (run.snoc (.mount called done))
  obtain ⟨new, added, -, atDest, -⟩ := vfsMount_done called done
  have same : new.mntpoint = dest := Except.ok.inj (atDest.symm.trans named)
  refine ⟨new, added, same, ?_⟩
  constructor
  · intro undone
    by_cases none : ∀ fs ∈ mounts.filesystems, ¬ MountedAs dest fs
    · exact .inl ⟨none, (undone_iff_of_new distinct added same none).mp undone⟩
    · push Not at none
      obtain ⟨other, member, has⟩ := none
      right
      cases found : vfsFindFsBySrcOrDest dest mounts.filesystems with
      | none =>
        have missed := List.find?_eq_none.mp found other member
        exact absurd (decide_eq_true has) missed
      | some fs =>
        obtain ⟨has, before, after, split, first⟩ := List.find?_eq_some_iff_append.mp found
        have first (other : FileSystem) (member : other ∈ before) : ¬ MountedAs dest other := by
          have missed := first other member
          rw [Bool.not_eq_true', decide_eq_false_iff_not] at missed
          exact missed
        have has : MountedAs dest fs := of_decide_eq_true has
        exact ⟨before, fs, after, split, has, first,
          (undone_iff_of_earlier distinct added split has first).mp undone⟩
  · rintro (⟨none, destroyed⟩ | ⟨before, fs, after, split, has, first, rest⟩)
    · exact (undone_iff_of_new distinct added same none).mpr destroyed
    · exact (undone_iff_of_earlier distinct added split has first).mpr rest

/-- A driver that caches the root. -/
def initRoot (fs : FileSystem) : InitAnswer :=
  ⟨0, some ⟨[true], 1⟩, [⟨[slash], 1, 0, 0x4000, none, 0, 0, .driver fs.driver, 0⟩]⟩

def mountWith (args : MountArgs) (mounts : Mounts) : Int × Mounts :=
  vfsMount true [.ramfs, .devfs, .fatfs] initRoot args mounts

def rootArgs : MountArgs := ⟨.ok [0x68, 0x64, 0x61, 0x70, 0x30], .ok [slash], none, none⟩

def devArgs : MountArgs :=
  ⟨.ok [0x64, 0x65, 0x76, 0x66, 0x73], .ok [slash, 0x64, 0x65, 0x76],
    some (.ok [0x64, 0x65, 0x76, 0x66, 0x73]), none⟩

def tmpArgs (dest : List Byte) : MountArgs :=
  ⟨.ok [0x74, 0x6d, 0x70], .ok dest, some (.ok [0x72, 0x61, 0x6d, 0x66, 0x73]), none⟩

/-- What `vfs_init` mounts. -/
def initMounts : Mounts := (mountWith devArgs (mountWith rootArgs ⟨[], 1, []⟩).2).2

theorem mountStep_mountWith {args : MountArgs} {mounts : Mounts}
    (done : 0 ≤ (mountWith args mounts).1) :
    MountStep mounts (.mount true [.ramfs, .devfs, .fatfs] initRoot args)
      (mountWith args mounts).2 :=
  .mount rfl done

theorem run_initMounts : ∃ calls, Run MountStep ⟨[], 1, []⟩ calls initMounts :=
  ⟨_, (Run.single (@mountStep_mountWith rootArgs _ (by decide))).snoc
    (@mountStep_mountWith devArgs _ (by decide))⟩

/-- A mount on `/tmp` is undone. -/
theorem vfsUnmount_undoes_vfsMount_tmp :
    Undone (fun _ => .ok ()) [slash, 0x74, 0x6d, 0x70] initMounts
      (mountWith (tmpArgs [slash, 0x74, 0x6d, 0x70]) initMounts).2 := by
  obtain ⟨calls, run⟩ := run_initMounts
  obtain ⟨new, -, -, undone⟩ := vfsUnmount_undoes_vfsMount_iff (fun _ => .ok ()) rfl run
    (show mountWith (tmpArgs [slash, 0x74, 0x6d, 0x70]) initMounts = _ from rfl) (by decide) rfl
  refine undone.mpr (.inl ⟨?_, rfl⟩)
  intro fs member
  have two : initMounts.filesystems.all fun fs =>
      fs.mntsrc ≠ [slash, 0x74, 0x6d, 0x70] ∧ fs.mntpoint ≠ [slash, 0x74, 0x6d, 0x70] := by decide
  have neither := of_decide_eq_true (List.all_eq_true.mp two fs member)
  exact fun named => named.elim neither.1 neither.2

/-- A second mount on `/dev` is not undone: the first one is unmounted. -/
theorem not_undone_dev :
    (∃ calls, Run MountStep ⟨[], 1, []⟩ calls initMounts) ∧
      (mountWith (tmpArgs [slash, 0x64, 0x65, 0x76]) initMounts).1 = 0 ∧
      ¬ Undone (fun _ => .ok ()) [slash, 0x64, 0x65, 0x76] initMounts
        (mountWith (tmpArgs [slash, 0x64, 0x65, 0x76]) initMounts).2 := by
  refine ⟨run_initMounts, by decide, ?_⟩
  rintro ⟨mounts'', called, same⟩
  have left : (vfsUnmount (fun _ => .ok ()) (some [slash, 0x64, 0x65, 0x76])
      (mountWith (tmpArgs [slash, 0x64, 0x65, 0x76]) initMounts).2).map
        (fun result => result.2.filesystems.map FileSystem.addr) = .ok [1, 5] := by decide
  have before : (vfsTopmostFsForPath [slash, 0x64, 0x65, 0x76] initMounts.filesystems).map
      FileSystem.addr = .ok 3 := by decide
  rw [called] at left
  rw [← same [slash, 0x64, 0x65, 0x76] rfl] at before
  cases found : vfsTopmostFsForPath [slash, 0x64, 0x65, 0x76] mounts''.filesystems with
  | error stop =>
    rw [found] at before
    cases before
  | ok fs =>
    rw [found] at before
    have three : fs.addr = 3 := Except.ok.inj before
    have addrs : mounts''.filesystems.map FileSystem.addr = [1, 5] := Except.ok.inj left
    have member := List.mem_map_of_mem (f := FileSystem.addr) (vfsTopmostFsForPath_ok.mp found).mem
    rw [addrs, three] at member
    exact absurd member (by decide)

end Dxgmx
