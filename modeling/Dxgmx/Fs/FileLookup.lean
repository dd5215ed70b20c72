import Dxgmx.Fs.LinkedVnodes
import Dxgmx.Fs.PathResolution

open Library

namespace Dxgmx

/-- The file system has the directory above the canonical path. -/
def HasDirectory (path : List Byte) (fs : FileSystem) : Prop :=
  ∃ before name dir,
    pathMakeRelative (pathMakeCanonical path) fs.mntpoint = .ok (before ++ slash :: name) ∧
      slash ∉ name ∧ fsLookupVnodeCachedRelative (directoryPart before) fs = .ok (some dir) ∧
      dir.IsDir

theorem HasDirectory.found {path : List Byte} {fs : FileSystem} (there : HasDirectory path fs)
    {relative : List Byte}
    (below : pathMakeRelative (pathMakeCanonical path) fs.mntpoint = .ok relative) :
    ∃ dir, fsGetDirVnodeForFile relative fs = .ok (some dir) ∧ dir.IsDir := by
  obtain ⟨before, name, dir, same, last, found, isDir⟩ := there
  rw [← Except.ok.inj (same.symm.trans below), fsGetDirVnodeForFile_append last]
  exact ⟨dir, found, isDir⟩

/-- The new file is found with what it was made with, and the others are found as before. -/
structure MadeRight (path : List Byte) (mode uid gid : BitVec 32) (n : Nat) (fs fs' : FileSystem) :
    Prop where
  found : ∃ vnode, fsLookupVnode path fs' = .ok (.ok vnode) ∧ vnode.n = n ∧ vnode.mode = mode ∧
    vnode.uid = uid ∧ vnode.gid = gid
  kept : ∀ other vnode, fsLookupVnode other fs = .ok (.ok vnode) →
    fsLookupVnode other fs' = .ok (.ok vnode)

/-- What `fs_mkfile` does for a path, whatever memory there is. -/
structure MkfileRight (fresh : VirtualNodeRef) (path : List Byte) (mode uid gid : BitVec 32)
    (fs : FileSystem) : Prop where
  made : ∀ mem n fs', fsMkfile mem fresh path mode uid gid fs = .ok (.ok n, fs') →
    (¬ ∃ vnode, fsLookupVnode path fs = .ok (.ok vnode)) → MadeRight path mode uid gid n fs fs'
  refused : ¬ HasDirectory path fs → ∀ mem, ∃ st fs',
    fsMkfile mem fresh path mode uid gid fs = .ok (.error st, fs') ∧ fs'.vnodeLl = fs.vnodeLl

/-- The path lies elsewhere, or its directory is there and lookups can hold the path. -/
def Findable (path : List Byte) (fs : FileSystem) : Prop :=
  (∃ st, pathMakeRelative (pathMakeCanonical path) fs.mntpoint = .error st) ∨
    HasDirectory path fs ∧ ∀ relative,
      pathMakeRelative (pathMakeCanonical path) fs.mntpoint = .ok relative →
        relative.length < pathMax

variable {fs : FileSystem} {path before name : List Byte} {fresh : VirtualNodeRef}
  {mode uid gid : BitVec 32} {dir : VirtualNode}

/-- Below a file system that has a root, what is not found has a name at its end. -/
theorem FileSystem.Linked.name_ne_nil (linked : fs.Linked)
    (below : pathMakeRelative (pathMakeCanonical path) fs.mntpoint = .ok (before ++ slash :: name))
    (missing : fsLookupVnodeCachedRelative (before ++ slash :: name) fs = .ok none) : name ≠ [] := by
  rintro rfl
  obtain ⟨front, whole⟩ := pathMakeRelative_suffix below
  have alone : pathMakeCanonical path = [slash] := by
    apply (singleSlashes_pathMakeCanonical path).2
    rw [← whole, ← List.append_assoc, List.getLast?_concat]
  have long := congrArg List.length whole
  rw [alone] at long
  simp only [List.length_append, List.length_singleton] at long
  have none : before = [] := List.length_eq_zero_iff.mp (by omega)
  obtain ⟨root, inside, top⟩ := linked.rooted
  have atRoot : fsVnodePath fs root = .ok [slash] := by
    rw [fsVnodePath_root fs top (linked.named root inside), linked.roots root inside top]
    rw [linked.roots root inside top]
    decide
  rw [none, linked.lookup] at missing
  have missed := List.find?_eq_none.mp (Except.ok.inj missing) root inside
  rw [decide_eq_true_eq] at missed
  exact missed atRoot

/-- A directory and a name below it spell the path that was looked for. -/
theorem FileSystem.Linked.spelled (linked : fs.Linked)
    (single : SingleSlashes (before ++ slash :: name))
    (found : fsLookupVnodeCachedRelative (directoryPart before) fs = .ok (some dir)) :
    directoryPart before ++ List.replicate dir.parent.isSome.toNat slash ++ name =
      before ++ slash :: name := by
  obtain ⟨inside, atDir⟩ := linked.lookup_some found
  unfold directoryPart at atDir ⊢
  cases before with
  | nil =>
    rw [if_pos rfl] at atDir ⊢
    -- a path that is a slash alone ends with a name that has one
    have top : dir.parent = none := by
      cases above : dir.parent with
      | none => rfl
      | some addr =>
        exfalso
        rcases linked.path_ends inside atDir with none | ⟨more, same⟩
        · exact absurd none (List.cons_ne_nil _ _)
        · have named := List.length_pos_iff.mpr (linked.named dir inside)
          have length := congrArg List.length same
          rw [List.length_append, List.length_singleton] at length
          have none : more = [] := List.length_eq_zero_iff.mp (by omega)
          rw [none, List.nil_append] at same
          apply (linked.below dir inside addr above).1
          rw [← same]
          exact List.mem_cons_self
    rw [top]
    rfl
  | cons c rest =>
    rw [if_neg (List.cons_ne_nil c rest)] at atDir ⊢
    cases top : dir.parent with
    | some parent => simp
    | none =>
      exfalso
      have named := linked.roots dir inside top
      rw [fsVnodePath_root fs top (linked.named dir inside) (by rw [named]; decide), named] at atDir
      rw [← Except.ok.inj atDir] at single
      exact (singleSlashes_cons.mp single).1 ⟨rfl, rfl⟩

theorem FileSystem.Linked.fsMkfile_ok (linked : fs.Linked) {n : Nat} {fs' : FileSystem}
    {mem : MkfileMem} (unused : ∀ vnode ∈ fs.vnodeLl, vnode.addr ≠ fresh)
    (below : pathMakeRelative (pathMakeCanonical path) fs.mntpoint = .ok (before ++ slash :: name))
    (last : slash ∉ name)
    (found : fsLookupVnodeCachedRelative (directoryPart before) fs = .ok (some dir))
    (h : fsMkfile mem fresh path mode uid gid fs = .ok (.ok n, fs')) :
    ∃ ctx, fs' = fs.withVnode (some ctx)
      ⟨fresh, name, n, 0, mode, 0, false, some dir.addr, uid, gid, .driver fs.driver, 0⟩ := by
  rw [fsMkfile_append linked.makesFiles below last found] at h
  obtain ⟨ctx, ⟨failed, -⟩ | ⟨n, same, rfl⟩⟩ := ramfsMkfile_ok unused h
  · cases failed
  · cases same
    exact ⟨ctx, rfl⟩

theorem FileSystem.Linked.madeRight (linked : fs.Linked) {n : Nat} {fs' : FileSystem}
    {mem : MkfileMem} (unused : ∀ vnode ∈ fs.vnodeLl, vnode.addr ≠ fresh)
    (below : pathMakeRelative (pathMakeCanonical path) fs.mntpoint = .ok (before ++ slash :: name))
    (last : slash ∉ name)
    (found : fsLookupVnodeCachedRelative (directoryPart before) fs = .ok (some dir))
    (h : fsMkfile mem fresh path mode uid gid fs = .ok (.ok n, fs'))
    (missing : ¬ ∃ vnode, fsLookupVnode path fs = .ok (.ok vnode)) :
    MadeRight path mode uid gid n fs fs' ↔ (before ++ slash :: name).length < pathMax := by
  obtain ⟨ctx, rfl⟩ := linked.fsMkfile_ok unused below last found h
  generalize new : (⟨fresh, name, n, 0, mode, 0, false, some dir.addr, uid, gid, .driver fs.driver, 0⟩
      : VirtualNode) = vnode
  obtain ⟨member, atDir⟩ := linked.lookup_some found
  have none : fsLookupVnodeCachedRelative (before ++ slash :: name) fs = .ok none := by
    rw [linked.lookup]
    cases hit : fs.vnodeLl.find? fun vnode => fsVnodePath fs vnode = .ok (before ++ slash :: name) with
    | none => rfl
    | some other =>
      refine absurd ⟨other, fsLookupVnode_found.mpr ⟨_, below, ?_⟩⟩ missing
      rw [linked.lookup, hit]
  have named := linked.name_ne_nil below none
  have single := List.IsChain.suffix (singleSlashes_pathMakeCanonical path).1
    (pathMakeRelative_suffix below)
  have spelled := linked.spelled single found
  have grown : (fs.withVnode (some ctx) vnode).Linked := by
    subst new
    exact linked.concat unused named member rfl last nofun
  have above : vnode.parent = some dir.addr := by rw [← new]
  have called : vnode.name = name := by rw [← new]
  have inside : vnode ∈ (fs.withVnode (some ctx) vnode).vnodeLl :=
    List.mem_append_right _ List.mem_cons_self
  have there : dir ∈ (fs.withVnode (some ctx) vnode).vnodeLl := List.mem_append_left _ member
  have looked := linked.lookup_concat grown none
  constructor
  · rintro ⟨⟨other, found, -⟩, -⟩
    obtain ⟨relative, same, hit⟩ := fsLookupVnode_found.mp found
    cases below.symm.trans same
    obtain ⟨held, atOther⟩ := grown.lookup_some hit
    obtain ⟨_, atOther', short⟩ := grown.atPath held
    cases atOther.symm.trans atOther'
    exact short
  · intro short
    have atPath : fsVnodePath (fs.withVnode (some ctx) vnode) vnode =
        .ok (before ++ slash :: name) := by
      rw [← spelled, ← called]
      apply grown.path_below inside there above
      · rw [linked.path_concat (some ctx) vnode member]
        exact atDir
      · unfold directoryPart
        split
        · exact List.cons_ne_nil _ _
        · assumption
      · rw [called, spelled]
        exact short
    rw [if_pos atPath] at looked
    refine ⟨⟨vnode, fsLookupVnode_found.mpr ⟨_, below, looked⟩, ?_⟩, ?_⟩
    · rw [← new]
      exact ⟨rfl, rfl, rfl, rfl⟩
    · intro other vnode' found'
      obtain ⟨relative, same, hit⟩ := fsLookupVnode_found.mp found'
      exact fsLookupVnode_found.mpr ⟨relative, same, linked.lookup_concat grown hit⟩

/-- Where the path is below the mountpoint without a directory, a file is made or the assertion
    fails. -/
theorem FileSystem.Linked.not_refused (linked : fs.Linked)
    (unused : ∀ vnode ∈ fs.vnodeLl, vnode.addr ≠ fresh) {relative : List Byte}
    (below : pathMakeRelative (pathMakeCanonical path) fs.mntpoint = .ok relative)
    {st : Int} {fs' : FileSystem}
    (h : fsMkfile ⟨true, true⟩ fresh path mode uid gid fs = .ok (.error st, fs')) : False := by
  by_cases slashed : slash ∈ relative
  · obtain ⟨before, name, rfl, last⟩ := exists_last_slash slashed
    rw [fsMkfile_append linked.makesFiles below last (linked.lookup _)] at h
    obtain ⟨ctx, n, made⟩ := @ramfsMkfile_made fs fresh ((fs.vnodeLl.find? fun vnode =>
      fsVnodePath fs vnode = .ok (directoryPart before)).map VirtualNode.addr) name mode uid gid
      linked.initialized unused
    cases made.symm.trans h
  · rw [fsMkfile_no_slash below slashed] at h
    cases h

/-- `fs_mkfile` and lookups agree on a path exactly if it lies elsewhere, or the directory above it
    is there and `PATH_MAX` holds it. -/
theorem mkfileRight_iff (linked : fs.Linked) (unused : ∀ vnode ∈ fs.vnodeLl, vnode.addr ≠ fresh) :
    MkfileRight fresh path mode uid gid fs ↔ Findable path fs := by
  constructor
  · rintro ⟨made, refused⟩
    cases below : pathMakeRelative (pathMakeCanonical path) fs.mntpoint with
    | error st => exact .inl ⟨st, below⟩
    | ok relative =>
      right
      have there : HasDirectory path fs := by
        by_contra none
        obtain ⟨st, fs', done, -⟩ := refused none ⟨true, true⟩
        exact linked.not_refused unused below done
      refine ⟨there, fun other here => ?_⟩
      obtain ⟨before, name, dir, same, last, found, isDir⟩ := there
      cases here.symm.trans same
      by_contra long
      -- no vnode has so long a path, so the file is made and not found
      have missing : ¬ ∃ vnode, fsLookupVnode path fs = .ok (.ok vnode) := by
        rintro ⟨vnode, looked⟩
        obtain ⟨_, same', hit⟩ := fsLookupVnode_found.mp looked
        cases same.symm.trans same'
        obtain ⟨inside, atPath⟩ := linked.lookup_some hit
        obtain ⟨_, atPath', short⟩ := linked.atPath inside
        cases atPath.symm.trans atPath'
        exact long short
      obtain ⟨ctx, n, done⟩ := @ramfsMkfile_made fs fresh (some dir.addr) name mode uid gid
        linked.initialized unused
      have done := (fsMkfile_append linked.makesFiles same last found).trans done
      exact long ((linked.madeRight unused same last found done missing).mp
        (made _ _ _ done missing))
  · rintro (⟨st, elsewhere⟩ | ⟨⟨before, name, dir, below, last, found, isDir⟩, short⟩)
    · have failed (mem : MkfileMem) : fsMkfile mem fresh path mode uid gid fs = .ok (.error st, fs) := by
        unfold fsMkfile
        rw [elsewhere]
      constructor
      · intro mem n fs' made
        cases (failed mem).symm.trans made
      · exact fun _ mem => ⟨st, fs, failed mem, rfl⟩
    · constructor
      · intro mem n fs' made missing
        exact (linked.madeRight unused below last found made missing).mpr (short _ below)
      · exact fun none => absurd ⟨before, name, dir, below, last, found, isDir⟩ none

/-- A ramfs on `/` after `ramfs_init`. -/
def rootRamfs : FileSystem :=
  ⟨1, [0x74, 0x6d, 0x70], [slash], .ramfs, some ⟨true :: List.replicate 7 false, 1⟩,
    [ramfsVnode 2 [slash] 1 0x4000 none]⟩

theorem linked_rootRamfs : rootRamfs.Linked := by
  constructor
  · decide
  · decide
  · decide
  · decide
  · decide
  · decide
  · intro vnode inside addr above
    rw [List.mem_singleton.mp inside] at above
    cases above

/-- `/a` is made and found. -/
theorem mkfileRight_a : MkfileRight 3 [slash, 0x61] 0x8000 5 7 rootRamfs := by
  have below : pathMakeRelative (pathMakeCanonical [slash, 0x61]) rootRamfs.mntpoint =
    .ok ([] ++ slash :: [0x61]) := by decide
  have root : fsLookupVnodeCachedRelative (directoryPart []) rootRamfs =
    .ok (some (ramfsVnode 2 [slash] 1 0x4000 none)) := by decide
  apply (mkfileRight_iff linked_rootRamfs (by decide)).mpr
  refine .inr ⟨⟨[], [0x61], _, below, by decide, root, by decide⟩, fun relative same => ?_⟩
  rw [← Except.ok.inj (below.symm.trans same)]
  decide

/-- `/a/b` is made although there is no `/a`. -/
theorem not_mkfileRight_a_b :
    rootRamfs.Linked ∧ Absolute [slash, 0x61, slash, 0x62] ∧
      ¬ MkfileRight 3 [slash, 0x61, slash, 0x62] 0x8000 5 7 rootRamfs := by
  refine ⟨linked_rootRamfs, rfl, ?_⟩
  rintro ⟨-, refused⟩
  have none : ¬ HasDirectory [slash, 0x61, slash, 0x62] rootRamfs := by
    intro there
    have same : pathMakeRelative (pathMakeCanonical [slash, 0x61, slash, 0x62]) rootRamfs.mntpoint =
      .ok [slash, 0x61, slash, 0x62] := by decide
    obtain ⟨dir, found, -⟩ := there.found same
    have missed : fsGetDirVnodeForFile [slash, 0x61, slash, 0x62] rootRamfs = .ok none := by
      decide
    cases missed.symm.trans found
  obtain ⟨st, fs', done, -⟩ := refused none ⟨true, true⟩
  have made : (fsMkfile ⟨true, true⟩ 3 [slash, 0x61, slash, 0x62] 0x8000 5 7 rootRamfs).map
    (fun result => result.1.toOption) = .ok (some 2) := by decide
  rw [done] at made
  cases made

end Dxgmx
