import Dxgmx.Fs.Mount
import Dxgmx.Fs.PathSpelling

open Library

namespace Dxgmx

/-- A path lies at or below a mountpoint. -/
def ComponentPrefix (mntpoint path : List Byte) : Prop :=
  path = mntpoint ∨ mntpoint ++ [slash] <+: path ∨ mntpoint = [slash]

theorem ComponentPrefix.shares {mntpoint path : List Byte} (absolute : Absolute path)
    (below : ComponentPrefix mntpoint path) : mntpoint <+: path := by
  rcases below with rfl | below | rfl
  · exact List.prefix_refl _
  · exact (List.prefix_append _ _).trans below
  · obtain ⟨rest, rfl⟩ := List.head?_eq_some_iff.mp absolute
    exact ⟨rest, rfl⟩

/-- Two mountpoints of one length that a path starts with are the same. -/
theorem prefix_eq_of_length_eq {first second path : List Byte} (left : first <+: path)
    (right : second <+: path) (same : first.length = second.length) : first = second :=
  (List.prefix_of_prefix_length_le left right (Nat.le_of_eq same)).eq_of_length same

/-- `fs` is the one of the file systems at or above a path that owns it. -/
def Owns (filesystems : List FileSystem) (path : List Byte) (fs : FileSystem) : Prop :=
  IsLastMax (fun fs => fs.mntpoint.length) (fun fs => ComponentPrefix fs.mntpoint path)
    filesystems fs

/-- The file system found for a path owns it exactly where each mountpoint that only shares its
    first characters with the path is shorter than one the path lies at or below. -/
theorem vfsTopmostFsForPath_owns_iff (filesystems : List FileSystem) (path : List Byte)
    (absolute : Absolute path) (root : ∃ fs ∈ filesystems, fs.mntpoint = [slash]) :
    (∃ fs, vfsTopmostFsForPath path filesystems = .ok fs ∧ Owns filesystems path fs) ↔
      ∀ fs ∈ filesystems, fs.mntpoint <+: path → ¬ ComponentPrefix fs.mntpoint path →
        ∃ other ∈ filesystems, ComponentPrefix other.mntpoint path ∧
          fs.mntpoint.length < other.mntpoint.length := by
  constructor
  · rintro ⟨fs, found, owns⟩ sibling member shares beside
    rw [vfsTopmostFsForPath_ok] at found
    refine ⟨fs, owns.mem, owns.hit, ?_⟩
    rcases Nat.lt_or_eq_of_le (found.le member shares) with shorter | same
    · exact shorter
    · rw [prefix_eq_of_length_eq shares found.hit same] at beside
      exact absurd owns.hit beside
  · intro shorter
    obtain ⟨slashFs, mounted, atRoot⟩ := root
    have above : slashFs.mntpoint <+: path := ComponentPrefix.shares absolute (.inr (.inr atRoot))
    obtain ⟨fs, found⟩ := vfsTopmostFsForPath_finds mounted above
    refine ⟨fs, found, ?_⟩
    rw [vfsTopmostFsForPath_ok] at found
    have below : ComponentPrefix fs.mntpoint path := by
      by_contra beside
      obtain ⟨other, member, below, longer⟩ := shorter fs found.mem found.hit beside
      have most := found.le member (below.shares absolute)
      omega
    obtain ⟨before, after, split, -, earlier, later⟩ := found
    exact ⟨before, after, split, below,
      fun other member hit => earlier other member (hit.shares absolute),
      fun other member hit => later other member (hit.shares absolute)⟩

def rootAndDev : List FileSystem :=
  [⟨1, [0x68, 0x64, 0x61, 0x70, 0x30], [slash], .fatfs, none, []⟩,
    ⟨2, [0x64, 0x65, 0x76, 0x66, 0x73], [slash, 0x64, 0x65, 0x76], .devfs, none, []⟩]

/-- The file system of `/dev/fb`. -/
theorem vfsTopmostFsForPath_owns_dev :
    ∃ fs, vfsTopmostFsForPath [slash, 0x64, 0x65, 0x76, slash, 0x66, 0x62] rootAndDev = .ok fs ∧
      Owns rootAndDev [slash, 0x64, 0x65, 0x76, slash, 0x66, 0x62] fs := by
  refine (vfsTopmostFsForPath_owns_iff rootAndDev
    [slash, 0x64, 0x65, 0x76, slash, 0x66, 0x62] rfl ⟨_, List.mem_cons_self, rfl⟩).mpr ?_
  intro fs member shares beside
  rcases List.mem_cons.mp member with rfl | member
  · exact absurd (.inr (.inr rfl)) beside
  · cases List.mem_singleton.mp member
    exact absurd (.inr (.inl (by decide))) beside

/-- `/devx` is canonical, but it is looked for in the file system of `/dev`. -/
theorem vfsTopmostFsForPath_sibling :
    Canonical [slash, 0x64, 0x65, 0x76, 0x78] ∧
      ¬ ∃ fs, vfsTopmostFsForPath [slash, 0x64, 0x65, 0x76, 0x78] rootAndDev = .ok fs ∧
        Owns rootAndDev [slash, 0x64, 0x65, 0x76, 0x78] fs := by
  refine ⟨by unfold Canonical; decide, ?_⟩
  rintro ⟨fs, found, owns⟩
  have dev : fs.mntpoint = [slash, 0x64, 0x65, 0x76] := by
    have same : vfsTopmostFsForPath [slash, 0x64, 0x65, 0x76, 0x78] rootAndDev =
        .ok ⟨2, [0x64, 0x65, 0x76, 0x66, 0x73], [slash, 0x64, 0x65, 0x76], .devfs, none, []⟩ := by
      decide
    rw [same] at found
    cases found
    rfl
  have below := owns.hit
  rw [dev] at below
  rcases below with same | below | root
  · cases same
  · exact absurd below (by decide)
  · cases root

/-- `vfs_open` and `vfs_rmfile` take two paths to the same file system and to the same vnode. -/
def SameObject (filesystems : List FileSystem) (path other : List Byte) : Prop :=
  vfsTopmostFsForPath path filesystems = vfsTopmostFsForPath other filesystems ∧
    ∀ fs, vfsTopmostFsForPath path filesystems = .ok fs →
      fsLookupVnode path fs = fsLookupVnode other fs

/-- The mountpoints that two paths start with are the same. -/
def SameMountpoints (filesystems : List FileSystem) (path other : List Byte) : Prop :=
  ∀ fs ∈ filesystems, fs.mntpoint <+: path ↔ fs.mntpoint <+: other

theorem vfsTopmostFsForPath_congr {filesystems : List FileSystem} {path other : List Byte}
    (same : SameMountpoints filesystems path other) :
    vfsTopmostFsForPath path filesystems = vfsTopmostFsForPath other filesystems := by
  unfold vfsTopmostFsForPath
  rw [foldl_topmostStep, foldl_topmostStep, lastMax_congr same]

/-- A mountpoint that only one of the two paths starts with is longer than any that both do. -/
theorem sameMountpoints_of_topmost {filesystems : List FileSystem} {path other : List Byte}
    (same : vfsTopmostFsForPath path filesystems = vfsTopmostFsForPath other filesystems) :
    SameMountpoints filesystems path other := by
  have half {path other : List Byte}
      (same : vfsTopmostFsForPath path filesystems = vfsTopmostFsForPath other filesystems)
      (fs : FileSystem) (member : fs ∈ filesystems) (starts : fs.mntpoint <+: path) :
      fs.mntpoint <+: other := by
    obtain ⟨top, found⟩ := vfsTopmostFsForPath_finds member starts
    have owner := vfsTopmostFsForPath_ok.mp found
    have owner' := vfsTopmostFsForPath_ok.mp (same.symm.trans found)
    exact (List.prefix_of_prefix_length_le starts owner.hit (owner.le member starts)).trans
      owner'.hit
  exact fun fs member => ⟨half same fs member, half same.symm fs member⟩

theorem fsLookupVnode_congr {path other : List Byte}
    (same : pathMakeCanonical path = pathMakeCanonical other) (fs : FileSystem) :
    fsLookupVnode path fs = fsLookupVnode other fs := by
  unfold fsLookupVnode
  rw [same]

/-- An empty file of a ramfs. -/
def ramfsVnode (addr : VirtualNodeRef) (name : List Byte) (n : Nat) (mode : BitVec 32)
    (parent : Option VirtualNodeRef) : VirtualNode :=
  ⟨addr, name, n, 0, mode, 0, false, parent, 0, 0, .driver .ramfs, 0⟩

/-- A file system on `/` with the one vnode that a path would be found by. -/
def rootWith (name : List Byte) : FileSystem :=
  ⟨1, [], [slash], .ramfs, none, [ramfsVnode 2 name 1 0x4000 none]⟩

theorem fsLookupVnode_rootWith {path name : List Byte} (absolute : Absolute path)
    (named : name ≠ []) (short : name.length < pathMax) :
    fsLookupVnode path (rootWith name) =
      .ok (if name = pathMakeCanonical path then .ok (ramfsVnode 2 name 1 0x4000 none)
        else .error (-2)) := by
  have canonical : pathMakeCanonical path ≠ [] := by
    intro none
    have absolute := absolute_pathMakeCanonical absolute
    rw [none] at absolute
    cases absolute
  have atName : fsVnodePath (rootWith name) (ramfsVnode 2 name 1 0x4000 none) = .ok name :=
    fsVnodePath_root _ rfl named short
  have found : fsLookupVnodeCachedRelative (pathMakeCanonical path) (rootWith name) = .ok
      (if name = pathMakeCanonical path then some (ramfsVnode 2 name 1 0x4000 none) else none) := by
    show fsLookupVnodeCachedRelativeLoop _ _ [_] = _
    rw [fsLookupVnodeCachedRelativeLoop_cons atName]
    split <;> rfl
  rw [fsLookupVnode_relative (pathMakeRelative_root canonical) found]
  split <;> rfl

theorem sameObject_of_spelled {filesystems : List FileSystem} {path : List Byte}
    (absolute : Absolute path) (spelled : Spelled path) :
    SameObject filesystems path (canonicalPath path) ↔
      SameMountpoints filesystems path (canonicalPath path) := by
  constructor
  · exact fun same => sameMountpoints_of_topmost same.1
  · intro same
    have canonical := (pathMakeCanonical_canonicalPath absolute).mpr spelled
    exact ⟨vfsTopmostFsForPath_congr same, fun fs _ => fsLookupVnode_congr canonical fs⟩

/-- A path whose dots are not apart misses a vnode that its canonical spelling finds or finds one
    that it misses. -/
theorem not_sameObject_of_not_spelled {path : List Byte} (absolute : Absolute path)
    (short : path.length < pathMax) (unspelled : ¬ Spelled path) :
    SameMountpoints [rootWith (pathMakeCanonical path)] path (canonicalPath path) ∧
      ¬ SameObject [rootWith (pathMakeCanonical path)] path (canonicalPath path) := by
  have starts {path : List Byte} (absolute : Absolute path) : [slash] <+: path := by
    obtain ⟨rest, rfl⟩ := List.head?_eq_some_iff.mp absolute
    exact ⟨rest, rfl⟩
  constructor
  · intro fs member
    cases List.mem_singleton.mp member
    exact iff_of_true (starts absolute) (starts (canonicalPath_absolute path))
  · intro same
    have nonempty : pathMakeCanonical path ≠ [] := by
      intro none
      have canonical := absolute_pathMakeCanonical absolute
      rw [none] at canonical
      cases canonical
    have fits := Nat.lt_of_le_of_lt (pathMakeCanonical_length path) short
    have top : vfsTopmostFsForPath path [rootWith (pathMakeCanonical path)] =
        .ok (rootWith (pathMakeCanonical path)) :=
      vfsTopmostFsForPath_ok.mpr ⟨[], [], rfl, starts absolute, nofun, nofun⟩
    have found := same.2 _ top
    rw [fsLookupVnode_rootWith absolute nonempty fits, if_pos rfl,
      fsLookupVnode_rootWith (canonicalPath_absolute path) nonempty fits,
      if_neg fun other => unspelled ((pathMakeCanonical_canonicalPath absolute).mp other)] at found
    cases found

/-- A path with its dots apart names one object with its canonical spelling exactly if both start
    with the same mountpoints. Any other path does not, in some mount table with the same
    mountpoints for both. -/
theorem sameObject_canonicalPath_iff (path : List Byte) (absolute : Absolute path)
    (short : path.length < pathMax) :
    (Spelled path → ∀ filesystems, SameObject filesystems path (canonicalPath path) ↔
      SameMountpoints filesystems path (canonicalPath path)) ∧
    (¬ Spelled path → ∃ filesystems, (∃ fs ∈ filesystems, fs.mntpoint = [slash]) ∧
      SameMountpoints filesystems path (canonicalPath path) ∧
      ¬ SameObject filesystems path (canonicalPath path)) := by
  constructor
  · exact fun spelled filesystems => sameObject_of_spelled absolute spelled
  · intro unspelled
    exact ⟨_, ⟨_, List.mem_cons_self, rfl⟩, not_sameObject_of_not_spelled absolute short unspelled⟩

/-- `/dev//fb/.` is `/dev/fb`. -/
theorem sameObject_canonicalPath_dev :
    SameObject rootAndDev [slash, 0x64, 0x65, 0x76, slash, slash, 0x66, 0x62, slash, dot]
      (canonicalPath [slash, 0x64, 0x65, 0x76, slash, slash, 0x66, 0x62, slash, dot]) := by
  refine ((sameObject_canonicalPath_iff
    [slash, 0x64, 0x65, 0x76, slash, slash, 0x66, 0x62, slash, dot] rfl (by decide)).1
      ?_ rootAndDev).mpr ?_
  · exact ⟨by decide, by unfold DotsApart; decide⟩
  · intro fs member
    rcases List.mem_cons.mp member with rfl | member
    · decide
    · cases List.mem_singleton.mp member
      decide

def rootWithAB : FileSystem :=
  ⟨1, [0x68, 0x64, 0x61, 0x70, 0x30], [slash], .ramfs, none,
    [ramfsVnode 2 [slash] 1 0x4000 none, ramfsVnode 3 [0x61] 2 0x4000 (some 2),
      ramfsVnode 4 [0x62] 3 0x8000 (some 2)]⟩

/-- `/a/../b` is looked for as `/a/.b`, and `/b` is there. -/
theorem not_sameObject_dot_dot :
    ¬ SameObject [rootWithAB] [slash, 0x61, slash, dot, dot, slash, 0x62]
      (canonicalPath [slash, 0x61, slash, dot, dot, slash, 0x62]) := by
  intro same
  have found := same.2 rootWithAB (by decide)
  have missed : fsLookupVnode [slash, 0x61, slash, dot, dot, slash, 0x62] rootWithAB =
      .ok (.error (-2)) := by decide
  have there : fsLookupVnode (canonicalPath [slash, 0x61, slash, dot, dot, slash, 0x62]) rootWithAB =
      .ok (.ok (ramfsVnode 4 [0x62] 3 0x8000 (some 2))) := by decide
  rw [missed, there] at found
  cases found

end Dxgmx
