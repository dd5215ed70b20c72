import Dxgmx.Fs.FileCreation
import Mathlib.Data.List.Find

open Library

namespace Dxgmx

/-- The vnodes of a ramfs, of which each stands below another one or is a root. Their paths may
    be of any length. A devfs is a ramfs too. -/
structure FileSystem.Linked (fs : FileSystem) : Prop where
  makesFiles : fs.driver ≠ .fatfs
  initialized : fs.driverCtx ≠ none
  nodup : (fs.vnodeLl.map VirtualNode.addr).Nodup
  named : ∀ vnode ∈ fs.vnodeLl, vnode.name ≠ []
  rooted : ∃ root ∈ fs.vnodeLl, root.parent = none
  roots : ∀ vnode ∈ fs.vnodeLl, vnode.parent = none → vnode.name = [slash]
  below : ∀ vnode ∈ fs.vnodeLl, ∀ addr, vnode.parent = some addr →
    slash ∉ vnode.name ∧ ∃ dir ∈ fs.vnodeLl, dir.addr = addr

variable {fs fs' : FileSystem} {vnode dir : VirtualNode}

theorem FileSystem.Linked.vnodeAt (linked : fs.Linked) (inside : vnode ∈ fs.vnodeLl) :
    fs.vnodeAt vnode.addr = some vnode := (find?_addr linked.nodup).mpr ⟨inside, rfl⟩

theorem FileSystem.Linked.loop_succ (linked : fs.Linked) (inside : vnode ∈ fs.vnodeLl)
    (fuel : Nat) (tmpPath : List Byte) (addslash : Bool) :
    fsVnodePathLoop fs (fuel + 1) tmpPath addslash vnode =
      if pathMax ≤ tmpPath.length + (vnode.name.length + addslash.toNat) then .ok tmpPath
      else
        match vnode.parent.bind fs.vnodeAt with
        | none => .ok (vnode.name ++ List.replicate addslash.toNat slash ++ tmpPath)
        | some dir =>
          fsVnodePathLoop fs fuel (vnode.name ++ List.replicate addslash.toNat slash ++ tmpPath)
            dir.parent.isSome dir := by
  have named := List.length_pos_iff.mpr (linked.named vnode inside)
  by_cases long : pathMax ≤ tmpPath.length + (vnode.name.length + addslash.toNat)
  · rw [fsVnodePathLoop]
    simp only [if_pos long]
  · rw [if_neg long, fsVnodePathLoop_step (by omega) (by omega)]
    cases above : vnode.parent with
    | none => rfl
    | some addr =>
      obtain ⟨dir, member, rfl⟩ := (linked.below vnode inside addr above).2
      simp only [Option.bind_some, linked.vnodeAt member]

theorem FileSystem.Linked.mem_of_above (linked : fs.Linked)
    (above : vnode.parent.bind fs.vnodeAt = some dir) : dir ∈ fs.vnodeLl := by
  obtain ⟨addr, -, found⟩ := Option.bind_eq_some_iff.mp above
  exact ((find?_addr linked.nodup).mp found).1

/-- The buffer grows to the left and stays shorter than `PATH_MAX`. -/
theorem FileSystem.Linked.loop_ok (linked : fs.Linked) {fuel : Nat} (inside : vnode ∈ fs.vnodeLl)
    {tmpPath : List Byte} {addslash : Bool} (enough : pathMax ≤ fuel + tmpPath.length)
    (short : tmpPath.length < pathMax) :
    ∃ more, fsVnodePathLoop fs fuel tmpPath addslash vnode = .ok (more ++ tmpPath) ∧
      (more ++ tmpPath).length < pathMax := by
  induction fuel generalizing vnode tmpPath addslash with
  | zero => omega
  | succ fuel ih =>
    have named := List.length_pos_iff.mpr (linked.named vnode inside)
    rw [linked.loop_succ inside]
    by_cases long : pathMax ≤ tmpPath.length + (vnode.name.length + addslash.toNat)
    · rw [if_pos long]
      exact ⟨[], rfl, short⟩
    · rw [if_neg long]
      have grown : (vnode.name ++ List.replicate addslash.toNat slash ++ tmpPath).length =
          vnode.name.length + addslash.toNat + tmpPath.length := by simp [Nat.add_assoc]
      cases above : vnode.parent.bind fs.vnodeAt with
      | none => exact ⟨_, rfl, by omega⟩
      | some dir =>
        obtain ⟨more, done, fits⟩ := @ih dir (linked.mem_of_above above)
          (vnode.name ++ List.replicate addslash.toNat slash ++ tmpPath) dir.parent.isSome
          (by omega) (by omega)
        refine ⟨more ++ (vnode.name ++ List.replicate addslash.toNat slash), ?_, ?_⟩
        · rw [List.append_assoc more]
          exact done
        · rw [List.append_assoc more]
          exact fits

theorem FileSystem.Linked.atPath (linked : fs.Linked) (inside : vnode ∈ fs.vnodeLl) :
    ∃ path, fsVnodePath fs vnode = .ok path ∧ path.length < pathMax := by
  obtain ⟨more, done, fits⟩ := @FileSystem.Linked.loop_ok _ _ linked pathMax inside [] false
    (by simp) (by decide)
  exact ⟨_, done, fits⟩

theorem FileSystem.Linked.path_ends (linked : fs.Linked) (inside : vnode ∈ fs.vnodeLl)
    {path : List Byte} (atPath : fsVnodePath fs vnode = .ok path) :
    path = [] ∨ ∃ more, path = more ++ vnode.name := by
  change fsVnodePathLoop fs (511 + 1) [] false vnode = _ at atPath
  rw [linked.loop_succ inside] at atPath
  by_cases long : pathMax ≤ ([] : List Byte).length + (vnode.name.length + false.toNat)
  · rw [if_pos long] at atPath
    exact .inl (Except.ok.inj atPath).symm
  · rw [if_neg long] at atPath
    simp only [Bool.toNat_false, List.replicate_zero, List.append_nil, List.length_nil] at atPath long
    right
    cases above : vnode.parent.bind fs.vnodeAt with
    | none =>
      rw [above] at atPath
      exact ⟨[], (Except.ok.inj atPath).symm⟩
    | some dir =>
      have named := List.length_pos_iff.mpr (linked.named vnode inside)
      obtain ⟨more, done, -⟩ := @FileSystem.Linked.loop_ok _ _ linked 511
        (linked.mem_of_above above) vnode.name dir.parent.isSome (by show 512 ≤ _; omega) (by omega)
      rw [above] at atPath
      exact ⟨more, Except.ok.inj (atPath.symm.trans done)⟩

/-- What the buffer held before stays at the end, so a path that fits is the same with more behind
    it. -/
theorem FileSystem.Linked.loop_append (linked : fs.Linked) {fuel fuel' : Nat}
    (inside : vnode ∈ fs.vnodeLl) {tmpPath more : List Byte} (behind : List Byte)
    {addslash : Bool} (enough : pathMax ≤ fuel + tmpPath.length)
    (enough' : pathMax ≤ fuel' + (tmpPath ++ behind).length)
    (done : fsVnodePathLoop fs fuel tmpPath addslash vnode = .ok (more ++ tmpPath))
    (fits : (more ++ tmpPath ++ behind).length < pathMax) :
    fsVnodePathLoop fs fuel' (tmpPath ++ behind) addslash vnode =
      .ok (more ++ tmpPath ++ behind) := by
  induction fuel generalizing vnode tmpPath more addslash fuel' with
  | zero =>
    simp only [List.length_append] at fits
    omega
  | succ fuel ih =>
    have named := List.length_pos_iff.mpr (linked.named vnode inside)
    simp only [List.length_append] at enough' fits
    obtain ⟨fuel', rfl⟩ : ∃ left, fuel' = left + 1 := ⟨fuel' - 1, by omega⟩
    rw [linked.loop_succ inside] at done ⊢
    by_cases long : pathMax ≤ tmpPath.length + (vnode.name.length + addslash.toNat)
    · rw [if_pos long] at done
      have none : more = [] := by simpa using Except.ok.inj done
      rw [if_pos (by rw [List.length_append]; omega), none]
      rfl
    · rw [if_neg long] at done
      cases above : vnode.parent.bind fs.vnodeAt with
      | none =>
        rw [above] at done
        have same := List.append_cancel_right (Except.ok.inj done)
        rw [← same] at fits ⊢
        simp only [List.length_append, List.length_replicate] at fits
        rw [if_neg (by rw [List.length_append]; omega)]
        simp only [List.append_assoc]
      | some dir =>
        rw [above] at done
        have member := linked.mem_of_above above
        have grown : (vnode.name ++ List.replicate addslash.toNat slash ++ tmpPath).length =
            vnode.name.length + addslash.toNat + tmpPath.length := by simp [Nat.add_assoc]
        obtain ⟨front, again, -⟩ := @FileSystem.Linked.loop_ok _ _ linked fuel member
          (vnode.name ++ List.replicate addslash.toNat slash ++ tmpPath) dir.parent.isSome
          (by omega) (by omega)
        have same := Except.ok.inj (done.symm.trans again)
        have length := congrArg List.length same
        simp only [List.length_append, List.length_replicate] at length
        rw [if_neg (by rw [List.length_append]; omega)]
        have next := @ih dir fuel' member _ front dir.parent.isSome (by omega)
          (by rw [List.length_append, grown]; omega) again
          (by rw [List.length_append, ← same, List.length_append]; omega)
        rw [← same] at next
        simp only [List.append_assoc] at next ⊢
        exact next

theorem FileSystem.Linked.path_below (linked : fs.Linked) {path : List Byte}
    (inside : vnode ∈ fs.vnodeLl) (member : dir ∈ fs.vnodeLl)
    (below : vnode.parent = some dir.addr) (atDir : fsVnodePath fs dir = .ok path)
    (some : path ≠ [])
    (fits : (path ++ List.replicate dir.parent.isSome.toNat slash ++ vnode.name).length < pathMax) :
    fsVnodePath fs vnode =
      .ok (path ++ List.replicate dir.parent.isSome.toNat slash ++ vnode.name) := by
  unfold fsVnodePath at atDir ⊢
  have named := List.length_pos_iff.mpr (linked.named dir member)
  have named' := List.length_pos_iff.mpr (linked.named vnode inside)
  simp only [List.length_append, List.length_replicate] at fits
  have above : vnode.parent.bind fs.vnodeAt = .some dir := by
    rw [below]
    exact linked.vnodeAt member
  -- the steps of the vnode and of the directory
  show fsVnodePathLoop fs (511 + 1) [] false vnode = _
  change fsVnodePathLoop fs (511 + 1) [] false dir = _ at atDir
  rw [linked.loop_succ member] at atDir
  rw [linked.loop_succ inside, if_neg (by simp; omega), above]
  dsimp only
  by_cases long : pathMax ≤ ([] : List Byte).length + (dir.name.length + false.toNat)
  · rw [if_pos long] at atDir
    exact absurd (Except.ok.inj atDir).symm some
  · rw [if_neg long] at atDir
    show fsVnodePathLoop fs (510 + 1) _ _ dir = _
    rw [linked.loop_succ member]
    simp only [Bool.toNat_false, List.replicate_zero, List.append_nil, List.length_nil] at atDir long ⊢
    cases higher : dir.parent.bind fs.vnodeAt with
    | none =>
      rw [higher] at atDir
      have same := Except.ok.inj atDir
      rw [← same] at fits ⊢
      rw [if_neg (by omega)]
    | some other =>
      rw [higher] at atDir
      have there := linked.mem_of_above higher
      obtain ⟨front, again, -⟩ := @FileSystem.Linked.loop_ok _ _ linked 511 there dir.name
        other.parent.isSome (by show 512 ≤ _; omega) (by omega)
      have same := Except.ok.inj (atDir.symm.trans again)
      have length := congrArg List.length same
      rw [List.length_append] at length
      rw [if_neg (by omega)]
      have next := @FileSystem.Linked.loop_append _ _ linked 511 510 there dir.name front
        (List.replicate dir.parent.isSome.toNat slash ++ vnode.name) other.parent.isSome
        (by show 512 ≤ _; omega) (by simp only [List.length_append]; show 512 ≤ _; omega) again
        (by rw [List.length_append, ← same, List.length_append, List.length_replicate]; omega)
      rw [← same] at next
      simp only [List.append_assoc] at next ⊢
      exact next

theorem FileSystem.Linked.lookup (linked : fs.Linked) (path : List Byte) :
    fsLookupVnodeCachedRelative path fs =
      .ok (fs.vnodeLl.find? fun vnode => fsVnodePath fs vnode = .ok path) := by
  have loop (rest : List VirtualNode) (sub : ∀ vnode ∈ rest, vnode ∈ fs.vnodeLl) :
      fsLookupVnodeCachedRelativeLoop path fs rest =
        .ok (rest.find? fun vnode => fsVnodePath fs vnode = .ok path) := by
    induction rest with
    | nil => rfl
    | cons first rest ih =>
      obtain ⟨found, atPath, -⟩ := linked.atPath (sub first List.mem_cons_self)
      rw [fsLookupVnodeCachedRelativeLoop_cons atPath, List.find?_cons, atPath,
        ih fun vnode member => sub vnode (List.mem_cons_of_mem _ member)]
      by_cases same : found = path
      · simp [same]
      · simp [same]
  exact loop fs.vnodeLl fun _ member => member

theorem FileSystem.Linked.lookup_some (linked : fs.Linked) {path : List Byte}
    (found : fsLookupVnodeCachedRelative path fs = .ok (some vnode)) :
    vnode ∈ fs.vnodeLl ∧ fsVnodePath fs vnode = .ok path := by
  rw [linked.lookup] at found
  have hit := Except.ok.inj found
  exact ⟨List.mem_of_find?_eq_some hit, by simpa using List.find?_some hit⟩

theorem fsLookupVnode_found {path : List Byte} :
    fsLookupVnode path fs = .ok (.ok vnode) ↔
      ∃ relative, pathMakeRelative (pathMakeCanonical path) fs.mntpoint = .ok relative ∧
        fsLookupVnodeCachedRelative relative fs = .ok (some vnode) := by
  constructor
  · intro found
    unfold fsLookupVnode at found
    split at found
    · cases found
    · rename_i relative below
      obtain ⟨hit, looked, found⟩ := Exec.bind_ok.mp found
      cases hit with
      | none => cases found
      | some other =>
        cases found
        exact ⟨relative, below, looked⟩
  · rintro ⟨relative, below, found⟩
    exact fsLookupVnode_relative below found

/-- The file system after a driver cached one more vnode. -/
def FileSystem.withVnode (fs : FileSystem) (ctx : Option RamFsMetadata) (vnode : VirtualNode) :
    FileSystem :=
  { fs with driverCtx := ctx, vnodeLl := fs.vnodeLl ++ [vnode] }

section Concat

variable {ctx : Option RamFsMetadata}

theorem FileSystem.Linked.concat (linked : fs.Linked)
    (unused : ∀ other ∈ fs.vnodeLl, other.addr ≠ vnode.addr) (named : vnode.name ≠ [])
    (member : dir ∈ fs.vnodeLl) (below : vnode.parent = some dir.addr) (plain : slash ∉ vnode.name)
    (initialized : ctx ≠ none) :
    (fs.withVnode ctx vnode).Linked := by
  constructor
  · exact linked.makesFiles
  · exact initialized
  · exact nodup_addr_concat linked.nodup unused
  · intro other inside
    rcases List.mem_append.mp inside with old | here
    · exact linked.named other old
    · rw [List.mem_singleton.mp here]
      exact named
  · obtain ⟨root, inside, top⟩ := linked.rooted
    exact ⟨root, List.mem_append_left _ inside, top⟩
  · intro other inside top
    rcases List.mem_append.mp inside with old | here
    · exact linked.roots other old top
    · rw [List.mem_singleton.mp here, below] at top
      cases top
  · intro other inside addr above
    rcases List.mem_append.mp inside with old | here
    · obtain ⟨clean, higher, there, same⟩ := linked.below other old addr above
      exact ⟨clean, higher, List.mem_append_left _ there, same⟩
    · rw [List.mem_singleton.mp here] at above ⊢
      refine ⟨plain, dir, List.mem_append_left _ member, ?_⟩
      exact Option.some.inj (below.symm.trans above)

/-- A vnode at the end of the list does not change the path of another. -/
theorem FileSystem.Linked.path_concat (linked : fs.Linked) (ctx : Option RamFsMetadata)
    (vnode : VirtualNode) {old : VirtualNode} (inside : old ∈ fs.vnodeLl) :
    fsVnodePath (fs.withVnode ctx vnode) old = fsVnodePath fs old := by
  have loop (fuel : Nat) (other : VirtualNode) (member : other ∈ fs.vnodeLl)
      (tmpPath : List Byte) (addslash : Bool) :
      fsVnodePathLoop (fs.withVnode ctx vnode) fuel tmpPath addslash other =
        fsVnodePathLoop fs fuel tmpPath addslash other := by
    induction fuel generalizing other tmpPath addslash with
    | zero => rfl
    | succ fuel ih =>
      simp only [fsVnodePathLoop]
      cases above : other.parent with
      | none => rfl
      | some addr =>
        obtain ⟨dir, there, rfl⟩ := (linked.below other member addr above).2
        have here := linked.vnodeAt there
        have same : (fs.withVnode ctx vnode).vnodeAt dir.addr = some dir := by
          change fs.vnodeLl.find? _ = _ at here
          show (fs.vnodeLl ++ [vnode]).find? _ = _
          rw [List.find?_append, here]
          rfl
        simp only [same, linked.vnodeAt there, ih dir there]
  exact loop _ old inside _ _

/-- What a lookup finds after a vnode was added: the first match of before, else the new vnode. -/
theorem FileSystem.Linked.lookup_concat (linked : fs.Linked)
    (grown : (fs.withVnode ctx vnode).Linked)
    {path : List Byte} {hit : Option VirtualNode}
    (found : fsLookupVnodeCachedRelative path fs = .ok hit) :
    fsLookupVnodeCachedRelative path (fs.withVnode ctx vnode) = .ok (hit.or
      (if fsVnodePath (fs.withVnode ctx vnode) vnode = .ok path then some vnode else none)) := by
  rw [linked.lookup] at found
  rw [grown.lookup, ← Except.ok.inj found]
  show Except.ok ((fs.vnodeLl ++ [vnode]).find? _) = _
  rw [List.find?_append]
  congr 2
  · apply List.find?_congr
    intro other inside
    rw [linked.path_concat ctx vnode inside]
  · rw [List.find?_singleton]
    simp only [decide_eq_true_eq]

end Concat

end Dxgmx
