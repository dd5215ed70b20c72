import Dxgmx.Fs.Fs
import Dxgmx.Fs.PathSpelling

open Library

namespace Dxgmx

section Names

variable {fs : FileSystem} {vnode : VirtualNode} {names : List (List Byte)}

/-- The names below the root on the way to a vnode. -/
inductive NodeNames (fs : FileSystem) : VirtualNode → List (List Byte) → Prop
  | root {vnode : VirtualNode} (top : vnode.parent = none) : NodeNames fs vnode []
  | child {vnode dir : VirtualNode} {names : List (List Byte)} (inside : dir ∈ fs.vnodeLl)
      (below : vnode.parent = some dir.addr) (above : NodeNames fs dir names) :
      NodeNames fs vnode (names ++ [vnode.name])

def AtPath (fs : FileSystem) (vnode : VirtualNode) (path : List Byte) : Prop :=
  ∃ names, NodeNames fs vnode names ∧ joinComponents names = path

theorem NodeNames.parent_isSome (way : NodeNames fs vnode names) :
    vnode.parent.isSome = decide (names ≠ []) := by
  cases way with
  | root top =>
    rw [top]
    rfl
  | child inside below above =>
    rw [below]
    simp

theorem NodeNames.unique (nodup : (fs.vnodeLl.map VirtualNode.addr).Nodup)
    (way : NodeNames fs vnode names) {others : List (List Byte)} (other : NodeNames fs vnode others) :
    names = others := by
  induction way generalizing others with
  | root top =>
    cases other with
    | root => rfl
    | child inside below above =>
      rw [top] at below
      cases below
  | child inside below above ih =>
    cases other with
    | root top =>
      rw [below] at top
      cases top
    | child inside' below' above' =>
      have same := Option.some.inj (below.symm.trans below')
      have dirs := List.inj_on_of_nodup_map nodup inside inside' same
      rw [← dirs] at above'
      rw [ih above']

theorem AtPath.unique (nodup : (fs.vnodeLl.map VirtualNode.addr).Nodup) {path other : List Byte}
    (here : AtPath fs vnode path) (there : AtPath fs vnode other) : path = other := by
  obtain ⟨names, way, rfl⟩ := here
  obtain ⟨others, way', rfl⟩ := there
  rw [way.unique nodup way']

theorem joinComponents_concat (names : List (List Byte)) (name : List Byte) :
    joinComponents (names ++ [name]) =
      joinComponents names ++ List.replicate (decide (names ≠ [])).toNat slash ++ name := by
  unfold joinComponents
  rw [if_neg (by simp)]
  by_cases none : names = []
  · subst none
    simp [separated]
  · rw [if_neg none, decide_eq_true none]
    simp [separated]

/-- Every step puts a name in front of what the buffer holds. -/
theorem fsVnodePathLoop_names (nodup : (fs.vnodeLl.map VirtualNode.addr).Nodup)
    (named : ∀ vnode ∈ fs.vnodeLl, vnode.name ≠ [])
    (roots : ∀ vnode ∈ fs.vnodeLl, vnode.parent = none → vnode.name = [slash])
    (inside : vnode ∈ fs.vnodeLl) (way : NodeNames fs vnode names) {fuel : Nat}
    {tmpPath : List Byte} {addslash : Bool} (enough : pathMax ≤ fuel + tmpPath.length)
    (fits : (joinComponents names).length + addslash.toNat + tmpPath.length < pathMax) :
    fsVnodePathLoop fs fuel tmpPath addslash vnode =
      .ok (joinComponents names ++ List.replicate addslash.toNat slash ++ tmpPath) := by
  induction way generalizing fuel tmpPath addslash with
  | root top =>
    rename_i working
    have name := roots working inside top
    have whole : joinComponents [] = working.name := name.symm
    have width : working.name.length = 1 := congrArg List.length name
    rw [whole] at fits ⊢
    obtain ⟨fuel, rfl⟩ : ∃ left, fuel = left + 1 := ⟨fuel - 1, by omega⟩
    rw [fsVnodePathLoop_step (by omega) (by omega), top]
  | child member below above ih =>
    rename_i working dir names
    have name := List.length_pos_iff.mpr (named working inside)
    have whole := joinComponents_concat names working.name
    rw [whole, List.length_append, List.length_append, List.length_replicate] at fits
    obtain ⟨fuel, rfl⟩ : ∃ left, fuel = left + 1 := ⟨fuel - 1, by omega⟩
    have there : fs.vnodeAt dir.addr = some dir := (find?_addr nodup).mpr ⟨member, rfl⟩
    rw [fsVnodePathLoop_step (by omega) (by omega), below]
    dsimp only
    rw [there]
    dsimp only
    rw [above.parent_isSome, ih member, whole]
    · simp only [List.append_assoc]
    · simp only [List.length_append, List.length_replicate]
      omega
    · simp only [List.length_append, List.length_replicate]
      omega

theorem fsVnodePath_names (nodup : (fs.vnodeLl.map VirtualNode.addr).Nodup)
    (named : ∀ vnode ∈ fs.vnodeLl, vnode.name ≠ [])
    (roots : ∀ vnode ∈ fs.vnodeLl, vnode.parent = none → vnode.name = [slash])
    (inside : vnode ∈ fs.vnodeLl) (way : NodeNames fs vnode names)
    (short : (joinComponents names).length < pathMax) :
    fsVnodePath fs vnode = .ok (joinComponents names) := by
  unfold fsVnodePath
  rw [fsVnodePathLoop_names nodup named roots inside way (Nat.le_refl _) (by simpa using short)]
  simp

end Names

/-- The path that a vnode and the directories above it spell. -/
inductive TreePath (fs : FileSystem) : VirtualNode → List Byte → Prop
  | root {vnode : VirtualNode} (top : vnode.parent = none) : TreePath fs vnode vnode.name
  | child {vnode dir : VirtualNode} {path : List Byte} (inside : dir ∈ fs.vnodeLl)
      (below : vnode.parent = some dir.addr) (isDir : dir.IsDir) (above : TreePath fs dir path) :
      TreePath fs vnode (path ++ List.replicate dir.parent.isSome.toNat slash ++ vnode.name)

/-- What a ramfs or a devfs holds: a tree under one root or more, in which every path fits. -/
structure FileSystem.Sound (fs : FileSystem) : Prop where
  makesFiles : fs.driver ≠ .fatfs
  initialized : fs.driverCtx ≠ none
  nodup : (fs.vnodeLl.map VirtualNode.addr).Nodup
  named : ∀ vnode ∈ fs.vnodeLl, vnode.name ≠ []
  rooted : ∃ root ∈ fs.vnodeLl, root.parent = none
  roots : ∀ vnode ∈ fs.vnodeLl, vnode.parent = none → vnode.name = [slash] ∧ vnode.IsDir
  placed : ∀ vnode ∈ fs.vnodeLl, ∃ path, TreePath fs vnode path ∧ path.length < pathMax
  files : ∀ vnode ∈ fs.vnodeLl, vnode.pendingRm = true → ¬ vnode.IsDir

variable {fs fs' : FileSystem} {vnode : VirtualNode} {path : List Byte}

theorem FileSystem.Sound.vnodeAt (sound : fs.Sound) (inside : vnode ∈ fs.vnodeLl) :
    fs.vnodeAt vnode.addr = some vnode := (find?_addr sound.nodup).mpr ⟨inside, rfl⟩

theorem TreePath.ne_nil (sound : fs.Sound) (inside : vnode ∈ fs.vnodeLl)
    (tree : TreePath fs vnode path) : path ≠ [] := by
  cases tree with
  | root top => exact sound.named vnode inside
  | child => exact List.append_ne_nil_of_right_ne_nil _ (sound.named vnode inside)

/-- Directories above a vnode that are still there spell the same path. -/
theorem TreePath.mono (kept : ∀ dir ∈ fs.vnodeLl, dir.IsDir → dir ∈ fs'.vnodeLl)
    (tree : TreePath fs vnode path) : TreePath fs' vnode path := by
  induction tree with
  | root top => exact .root top
  | child inside below isDir above ih => exact .child (kept _ inside isDir) below isDir ih

theorem TreePath.atPath (sound : fs.Sound) (inside : vnode ∈ fs.vnodeLl)
    (tree : TreePath fs vnode path) : AtPath fs vnode path := by
  induction tree with
  | root top => exact ⟨[], .root top, (sound.roots _ inside top).1.symm⟩
  | child member below isDir above ih =>
    obtain ⟨names, way, rfl⟩ := ih member
    refine ⟨_, .child member below way, ?_⟩
    rw [joinComponents_concat, way.parent_isSome]

theorem fsVnodePath_treePath (sound : fs.Sound) (inside : vnode ∈ fs.vnodeLl)
    (tree : TreePath fs vnode path) (short : path.length < pathMax) :
    fsVnodePath fs vnode = .ok path := by
  obtain ⟨names, way, rfl⟩ := tree.atPath sound inside
  exact fsVnodePath_names sound.nodup sound.named
    (fun vnode member top => (sound.roots vnode member top).1) inside way short

theorem FileSystem.Sound.atPath (sound : fs.Sound) (inside : vnode ∈ fs.vnodeLl) :
    ∃ path, TreePath fs vnode path ∧ fsVnodePath fs vnode = .ok path := by
  obtain ⟨path, tree, short⟩ := sound.placed vnode inside
  exact ⟨path, tree, fsVnodePath_treePath sound inside tree short⟩

/-- A lookup ends with a vnode that has the path, or no vnode has it. -/
theorem FileSystem.Sound.lookup (sound : fs.Sound) (path : List Byte) :
    (∃ vnode ∈ fs.vnodeLl, fsLookupVnodeCachedRelative path fs = .ok (some vnode) ∧
      TreePath fs vnode path) ∨
    (fsLookupVnodeCachedRelative path fs = .ok none ∧
      ∀ vnode ∈ fs.vnodeLl, fsVnodePath fs vnode ≠ .ok path) := by
  have loop (rest : List VirtualNode) (sub : ∀ vnode ∈ rest, vnode ∈ fs.vnodeLl) :
      (∃ vnode ∈ fs.vnodeLl, fsLookupVnodeCachedRelativeLoop path fs rest = .ok (some vnode) ∧
        TreePath fs vnode path) ∨
      (fsLookupVnodeCachedRelativeLoop path fs rest = .ok none ∧
        ∀ vnode ∈ rest, fsVnodePath fs vnode ≠ .ok path) := by
    induction rest with
    | nil => exact .inr ⟨rfl, nofun⟩
    | cons first rest ih =>
      have here := sub first List.mem_cons_self
      obtain ⟨found, tree, atPath⟩ := sound.atPath here
      rw [fsLookupVnodeCachedRelativeLoop_cons atPath]
      by_cases same : found = path
      · rw [if_pos same]
        rw [same] at tree
        exact .inl ⟨first, here, rfl, tree⟩
      · rw [if_neg same]
        rcases ih fun vnode member => sub vnode (List.mem_cons_of_mem _ member) with hit | ⟨miss, none⟩
        · exact .inl hit
        · refine .inr ⟨miss, fun vnode member => ?_⟩
          rcases List.mem_cons.mp member with rfl | later
          · rw [atPath]
            exact fun equal => same (Except.ok.inj equal)
          · exact none vnode later
  exact loop fs.vnodeLl fun _ member => member

/-- A vnode under a directory, with a new address and a name, keeps the tree. -/
theorem FileSystem.Sound.concat (sound : fs.Sound) {dir : VirtualNode} {above : List Byte}
    (unused : ∀ other ∈ fs.vnodeLl, other.addr ≠ vnode.addr) (named : vnode.name ≠ [])
    (inside : dir ∈ fs.vnodeLl) (below : vnode.parent = some dir.addr) (isDir : dir.IsDir)
    (tree : TreePath fs dir above)
    (spelled : above ++ List.replicate dir.parent.isSome.toNat slash ++ vnode.name = path)
    (short : path.length < pathMax) (kept : vnode.pendingRm = false) (ctx : Option RamFsMetadata)
    (initialized : ctx ≠ none) :
    FileSystem.Sound { fs with driverCtx := ctx, vnodeLl := fs.vnodeLl ++ [vnode] } ∧
      fsVnodePath { fs with driverCtx := ctx, vnodeLl := fs.vnodeLl ++ [vnode] } vnode =
        .ok path := by
  have there (other : VirtualNode) (member : other ∈ fs.vnodeLl) :
      other ∈ fs.vnodeLl ++ [vnode] := List.mem_append_left _ member
  have placed : TreePath { fs with driverCtx := ctx, vnodeLl := fs.vnodeLl ++ [vnode] } vnode path := by
    rw [← spelled]
    exact .child (there dir inside) below isDir (tree.mono fun other member _ => there other member)
  have grown : FileSystem.Sound { fs with driverCtx := ctx, vnodeLl := fs.vnodeLl ++ [vnode] } := by
    constructor
    · exact sound.makesFiles
    · exact initialized
    · exact nodup_addr_concat sound.nodup unused
    · intro other member
      rcases List.mem_append.mp member with old | here
      · exact sound.named other old
      · rw [List.mem_singleton.mp here]
        exact named
    · obtain ⟨root, member, top⟩ := sound.rooted
      exact ⟨root, there root member, top⟩
    · intro other member top
      rcases List.mem_append.mp member with old | here
      · exact sound.roots other old top
      · rw [List.mem_singleton.mp here, below] at top
        cases top
    · intro other member
      rcases List.mem_append.mp member with old | here
      · obtain ⟨found, tree, short⟩ := sound.placed other old
        exact ⟨found, tree.mono fun dir inside _ => there dir inside, short⟩
      · rw [List.mem_singleton.mp here]
        exact ⟨path, placed, short⟩
    · intro other member pending
      rcases List.mem_append.mp member with old | here
      · exact sound.files other old pending
      · rw [List.mem_singleton.mp here, kept] at pending
        cases pending
  exact ⟨grown, fsVnodePath_treePath grown (List.mem_append_right _ List.mem_cons_self) placed
    short⟩

/-- Two states of one vnode that differ in what no path depends on. -/
structure VirtualNode.Same (vnode vnode' : VirtualNode) : Prop where
  addr : vnode'.addr = vnode.addr
  name : vnode'.name = vnode.name
  mode : vnode'.mode = vnode.mode
  parent : vnode'.parent = vnode.parent

theorem VirtualNode.Same.isDir {vnode vnode' : VirtualNode} (same : vnode.Same vnode') :
    vnode'.IsDir ↔ vnode.IsDir := by
  unfold VirtualNode.IsDir
  rw [same.mode]

theorem TreePath.map {f : VirtualNode → VirtualNode} (same : ∀ vnode ∈ fs.vnodeLl, vnode.Same (f vnode))
    (inside : vnode ∈ fs.vnodeLl) (tree : TreePath fs vnode path) :
    TreePath { fs with vnodeLl := fs.vnodeLl.map f } (f vnode) path := by
  induction tree with
  | root top =>
    rename_i vnode
    rw [← (same vnode inside).name]
    exact .root ((same vnode inside).parent.trans top)
  | child member below isDir above ih =>
    rename_i vnode dir path
    have above := @TreePath.child { fs with vnodeLl := fs.vnodeLl.map f } (f vnode) (f dir) path
      (List.mem_map_of_mem member) (by rw [(same vnode inside).parent, below, (same dir member).addr])
      ((same dir member).isDir.mpr isDir) (ih member)
    rw [(same vnode inside).name, (same dir member).parent] at above
    exact above

theorem FileSystem.Sound.map (sound : fs.Sound) {f : VirtualNode → VirtualNode}
    (same : ∀ vnode ∈ fs.vnodeLl, vnode.Same (f vnode))
    (files : ∀ vnode ∈ fs.vnodeLl, (f vnode).pendingRm = true → ¬ vnode.IsDir) :
    FileSystem.Sound { fs with vnodeLl := fs.vnodeLl.map f } := by
  constructor
  · exact sound.makesFiles
  · exact sound.initialized
  · have addrs : fs.vnodeLl.map (VirtualNode.addr ∘ f) = fs.vnodeLl.map VirtualNode.addr :=
      List.map_congr_left fun vnode inside => (same vnode inside).addr
    show ((fs.vnodeLl.map f).map VirtualNode.addr).Nodup
    rw [List.map_map, addrs]
    exact sound.nodup
  · intro other member
    obtain ⟨vnode, inside, rfl⟩ := List.mem_map.mp member
    rw [(same vnode inside).name]
    exact sound.named vnode inside
  · obtain ⟨root, inside, top⟩ := sound.rooted
    exact ⟨f root, List.mem_map_of_mem inside, (same root inside).parent.trans top⟩
  · intro other member top
    obtain ⟨vnode, inside, rfl⟩ := List.mem_map.mp member
    rw [(same vnode inside).parent] at top
    rw [(same vnode inside).name, (same vnode inside).isDir]
    exact sound.roots vnode inside top
  · intro other member
    obtain ⟨vnode, inside, rfl⟩ := List.mem_map.mp member
    obtain ⟨path, tree, short⟩ := sound.placed vnode inside
    exact ⟨path, tree.map same inside, short⟩
  · intro other member pending
    obtain ⟨vnode, inside, rfl⟩ := List.mem_map.mp member
    rw [(same vnode inside).isDir]
    exact files vnode inside pending

/-- A file has nothing below it, so the tree stays one without it. -/
theorem FileSystem.Sound.erase (sound : fs.Sound) (inside : vnode ∈ fs.vnodeLl)
    (file : ¬ vnode.IsDir) (ctx : RamFsMetadata) {left : List VirtualNode}
    (fewer : left.Sublist fs.vnodeLl)
    (kept : ∀ other, other ∈ left ↔ other ∈ fs.vnodeLl ∧ other.addr ≠ vnode.addr) :
    FileSystem.Sound { fs with driverCtx := some ctx, vnodeLl := left } := by
  have old (other : VirtualNode) (member : other ∈ left) : other ∈ fs.vnodeLl :=
    ((kept other).mp member).1
  have dirs (dir : VirtualNode) (member : dir ∈ fs.vnodeLl) (isDir : dir.IsDir) : dir ∈ left := by
    refine (kept dir).mpr ⟨member, fun same => ?_⟩
    rw [List.inj_on_of_nodup_map sound.nodup member inside same] at isDir
    exact file isDir
  constructor
  · exact sound.makesFiles
  · nofun
  · exact sound.nodup.sublist (fewer.map _)
  · exact fun other member => sound.named other (old other member)
  · obtain ⟨root, member, top⟩ := sound.rooted
    exact ⟨root, dirs root member (sound.roots root member top).2, top⟩
  · exact fun other member => sound.roots other (old other member)
  · intro other member
    obtain ⟨path, tree, short⟩ := sound.placed other (old other member)
    exact ⟨path, tree.mono dirs, short⟩
  · exact fun other member => sound.files other (old other member)

theorem FileSystem.Sound.setCtx (sound : fs.Sound) (ctx : RamFsMetadata) :
    FileSystem.Sound { fs with driverCtx := some ctx } := by
  constructor
  · exact sound.makesFiles
  · nofun
  · exact sound.nodup
  · exact sound.named
  · exact sound.rooted
  · exact sound.roots
  · intro vnode inside
    obtain ⟨path, tree, short⟩ := sound.placed vnode inside
    refine ⟨path, ?_, short⟩
    apply tree.mono
    exact fun _ member _ => member
  · exact sound.files

end Dxgmx
