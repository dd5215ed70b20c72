import Mathlib.Data.List.Find
import Dxgmx.Fs.PathBuffer
import Dxgmx.Fs.PathCreation

open Library

namespace Dxgmx

/-- The last loop of `path_make_relative`: each round moves the whole string down by one. -/
def dropFrontIn (pathlen : Nat) : (count : Nat) → List Byte → Exec (List Byte)
  | 0, path => .ok path
  | count + 1, path => do
    let path ← moveDown 1 pathlen 0 path
    dropFrontIn pathlen count path

/-- `path_make_relative` on the bytes from `path` on that it may use. -/
def pathMakeRelativeIn (path mntpoint : List Byte) : Exec (Int × List Byte) := do
  let text ← cstring path
  if text.length < mntpoint.length then pure (-22, path)
  else if mntpoint = [slash] then pure (0, path)
  else if (text.zip mntpoint).countP (fun pair => pair.1 = pair.2) ≠ mntpoint.length then
    pure (-36, path)
  else do
    let path ← dropFrontIn text.length mntpoint.length path
    pure (0, path)

section InPlace

variable {path mntpoint : List Byte}

theorem dropFrontIn_ok (front rest junk : List Byte) (zeros : Nat) :
    dropFrontIn (front.length + rest.length + zeros) front.length
        (front ++ (rest ++ (List.replicate (zeros + 1) 0 ++ junk))) =
      .ok (rest ++ (List.replicate (zeros + front.length + 1) 0 ++ junk)) := by
  induction front generalizing zeros with
  | nil => rfl
  | cons c front ih =>
    have taken : (front ++ (rest ++ (List.replicate (zeros + 1) 0 ++ junk))).take
        ((c :: front).length + rest.length + zeros) =
        front ++ (rest ++ List.replicate (zeros + 1) 0) := by
      rw [← List.append_assoc rest, ← List.append_assoc front]
      exact List.take_left' (by simp; omega)
    have dropped : ([c] ++ (front ++ (rest ++ (List.replicate (zeros + 1) 0 ++ junk)))).drop
        ((c :: front).length + rest.length + zeros) = 0 :: junk := by
      have split : [c] ++ (front ++ (rest ++ (List.replicate (zeros + 1) 0 ++ junk))) =
          (c :: front ++ (rest ++ List.replicate zeros 0)) ++ 0 :: junk := by
        rw [List.replicate_succ']
        simp
      rw [split]
      exact List.drop_left' (by simp; omega)
    have moved := @moveDown_append Byte [] [c]
      (front ++ (rest ++ (List.replicate (zeros + 1) 0 ++ junk)))
      ((c :: front).length + rest.length + zeros) (by simp; omega)
    rw [taken, dropped, List.nil_append, List.nil_append] at moved
    have later := ih (zeros + 1)
    have width : (c :: front).length + rest.length + zeros =
        front.length + rest.length + (zeros + 1) := by
      rw [List.length_cons]
      omega
    have count : zeros + (c :: front).length + 1 = zeros + 1 + front.length + 1 := by
      rw [List.length_cons]
      omega
    have again : front ++ (rest ++ List.replicate (zeros + 1) 0) ++ 0 :: junk =
        front ++ (rest ++ (List.replicate (zeros + 1 + 1) 0 ++ junk)) := by
      rw [List.replicate_succ' (n := zeros + 1)]
      simp
    have step : moveDown 1 ((c :: front).length + rest.length + zeros) 0
        (c :: (front ++ (rest ++ (List.replicate (zeros + 1) 0 ++ junk)))) =
        .ok (front ++ (rest ++ (List.replicate (zeros + 1 + 1) 0 ++ junk))) := by
      rw [← again]
      exact moved
    calc dropFrontIn ((c :: front).length + rest.length + zeros) (front.length + 1)
          (c :: (front ++ (rest ++ (List.replicate (zeros + 1) 0 ++ junk))))
        = dropFrontIn ((c :: front).length + rest.length + zeros) front.length
            (front ++ (rest ++ (List.replicate (zeros + 1 + 1) 0 ++ junk))) := by
          rw [dropFrontIn, step, Exec.ok_bind]
      _ = _ := by
          rw [width, count]
          exact later

theorem pathMakeRelativeIn_eq (text : 0 ∉ path) (junk : List Byte) :
    ∃ junk', pathMakeRelativeIn (path ++ 0 :: junk) mntpoint =
      .ok (match pathMakeRelative path mntpoint with
        | .ok relative => (0, relative ++ 0 :: junk')
        | .error st => (st, path ++ 0 :: junk)) := by
  unfold pathMakeRelativeIn pathMakeRelative
  rw [cstring_terminated text, Exec.ok_bind]
  split
  · exact ⟨junk, rfl⟩
  · rename_i long
    split
    · exact ⟨junk, rfl⟩
    · split
      · exact ⟨junk, rfl⟩
      · rename_i matching
        rw [not_not, countP_zip_eq_length (Nat.le_of_not_lt long)] at matching
        obtain ⟨rest, rfl⟩ := matching
        have down := dropFrontIn_ok mntpoint rest junk 0
        refine ⟨List.replicate mntpoint.length 0 ++ junk, ?_⟩
        rw [List.length_append, List.drop_left, List.append_assoc]
        change dropFrontIn (mntpoint.length + rest.length) _ (mntpoint ++ (rest ++ 0 :: junk)) = _
          at down
        rw [down, Nat.zero_add, List.replicate_succ]
        rfl

end InPlace

/-- Inside the file system `relative` names what `path` names. -/
structure NamesInside (fs : FileSystem) (path relative : List Byte) : Prop where
  absolute : Absolute relative
  same : ∀ vnode ∈ fs.vnodeLl, AtPath fs vnode relative ↔ ∃ names, NodeNames fs vnode names ∧
    components slash path = components slash fs.mntpoint ++ names

/-- The path is made relative in its memory, and the mountpoint itself is looked up as the root. -/
def MakesRelative (fs : FileSystem) (root : VirtualNode) (path : List Byte) : Prop :=
  (∀ junk, ∃ path' relative, pathMakeRelativeIn (path ++ 0 :: junk) fs.mntpoint = .ok (0, path') ∧
    cstring path' = .ok relative ∧ NamesInside fs path relative) ∧
  (path = fs.mntpoint → fsLookupVnode path fs = .ok (.ok root))

section Mountpoint

variable {fs : FileSystem} {vnode root : VirtualNode} {path : List Byte} {names : List (List Byte)}

theorem FileSystem.TreeShaped.isComponent (tree : fs.TreeShaped) (inside : vnode ∈ fs.vnodeLl)
    (way : NodeNames fs vnode names) : ∀ name ∈ names, IsComponent slash name := by
  induction way with
  | root top => exact fun name member => absurd member List.not_mem_nil
  | child member below above ih =>
    rename_i working dir names
    intro name here
    rcases List.mem_append.mp here with before | last
    · exact ih member name before
    · rw [List.mem_singleton.mp last]
      exact tree.comps working inside fun top => by rw [top] at below; cases below

theorem FileSystem.TreeShaped.atPath_join (tree : fs.TreeShaped) (inside : vnode ∈ fs.vnodeLl)
    (wf : ∀ name ∈ names, IsComponent slash name) :
    AtPath fs vnode (joinComponents names) ↔ NodeNames fs vnode names := by
  constructor
  · rintro ⟨others, way, same⟩
    have comps := congrArg (components slash) same
    rw [components_joinComponents (tree.isComponent inside way), components_joinComponents wf] at comps
    exact comps ▸ way
  · exact fun way => ⟨names, way, rfl⟩

theorem FileSystem.TreeShaped.atPath_root (tree : fs.TreeShaped) (inside : vnode ∈ fs.vnodeLl) :
    AtPath fs vnode [slash] ↔ vnode.parent = none := by
  have whole : joinComponents [] = [slash] := rfl
  rw [← whole, tree.atPath_join inside fun name member => absurd member List.not_mem_nil]
  constructor
  · intro way
    simpa using way.parent_isSome
  · exact fun top => .root top

theorem fsLookupVnode_root (tree : fs.TreeShaped) (mounted : fs.mntpoint = [slash])
    (rooted : fs.vnodeLl.find? (fun vnode => vnode.parent = none) = some root) :
    fsLookupVnode [slash] fs = .ok (.ok root) := by
  have canonical : pathMakeCanonical [slash] = [slash] := by decide
  have below : pathMakeRelative (pathMakeCanonical [slash]) fs.mntpoint = .ok [slash] := by
    rw [canonical, mounted]
    exact pathMakeRelative_root (List.cons_ne_nil _ _)
  rw [fsLookupVnode_relative below (tree.lookup [slash])]
  have same : (fs.vnodeLl.find? fun vnode => @decide (AtPath fs vnode [slash])
      (Classical.propDecidable _)) = some root := by
    rw [← rooted]
    apply List.find?_congr
    intro vnode inside
    rw [decide_eq_decide]
    exact tree.atPath_root inside
  rw [same]
  rfl

theorem namesInside_join (tree : fs.TreeShaped)
    (split : components slash path = components slash fs.mntpoint ++ names) :
    NamesInside fs path (joinComponents names) := by
  have wf (name : List Byte) (member : name ∈ names) : IsComponent slash name := by
    have inside : name ∈ components slash path := by
      rw [split]
      exact List.mem_append_right _ member
    exact isComponent_of_mem_components inside
  refine ⟨joinComponents_absolute names, fun vnode inside => ?_⟩
  rw [tree.atPath_join inside wf]
  constructor
  · exact fun way => ⟨names, way, split⟩
  · rintro ⟨others, way, same⟩
    rw [List.append_cancel_left (split.symm.trans same)]
    exact way

theorem exists_names (below : path = fs.mntpoint ∨ fs.mntpoint = [slash] ∨
      fs.mntpoint ++ [slash] <+: path) :
    ∃ names, components slash path = components slash fs.mntpoint ++ names := by
  rcases below with rfl | root | ⟨rest, rfl⟩
  · exact ⟨[], (List.append_nil _).symm⟩
  · rw [root]
    exact ⟨_, rfl⟩
  · rw [List.append_assoc, List.singleton_append]
    exact ⟨_, componentsFrom_append_sep [] fs.mntpoint rest⟩

/-- What is left of a path behind a mountpoint is spelled by the names that are left. -/
theorem pathMakeRelative_names (canonical : Canonical path) (mountpoint : Canonical fs.mntpoint)
    (split : components slash path = components slash fs.mntpoint ++ names) :
    pathMakeRelative path fs.mntpoint =
      .ok (if fs.mntpoint = [slash] then joinComponents names else separated slash names) := by
  have whole := canonical.join
  have front := mountpoint.join
  rw [split] at whole
  by_cases root : fs.mntpoint = [slash]
  · have none : components slash [slash] = ([] : List (List Byte)) := rfl
    rw [if_pos root, root]
    rw [root, none, List.nil_append] at whole
    rw [whole]
    apply pathMakeRelative_root
    rw [← whole]
    exact fun empty => absurd (joinComponents_absolute names) (by rw [empty]; exact nofun)
  · have some : components slash fs.mntpoint ≠ [] := by
      intro none
      rw [none] at front
      exact root front.symm
    unfold joinComponents at whole front
    rw [if_neg some] at front
    rw [if_neg (List.append_ne_nil_of_left_ne_nil some _)] at whole
    have path' : fs.mntpoint ++ separated slash names = path := by
      rw [← whole]
      conv_lhs => rw [← front]
      exact List.flatMap_append.symm
    rw [if_neg root, ← path']
    exact pathMakeRelative_append root _

/-- A path in or below the mountpoint is made relative as it should be exactly where it is not the
    mountpoint itself, or the mountpoint is `/`. -/
theorem makesRelative_iff (fs : FileSystem) (root : VirtualNode) (path : List Byte)
    (tree : fs.TreeShaped)
    (rooted : fs.vnodeLl.find? (fun vnode => vnode.parent = none) = some root)
    (mountpoint : Canonical fs.mntpoint) (canonical : Canonical path) (text : 0 ∉ path)
    (below : path = fs.mntpoint ∨ fs.mntpoint = [slash] ∨ fs.mntpoint ++ [slash] <+: path) :
    MakesRelative fs root path ↔ path ≠ fs.mntpoint ∨ fs.mntpoint = [slash] := by
  obtain ⟨names, split⟩ := exists_names below
  have relative := pathMakeRelative_names canonical mountpoint split
  constructor
  · rintro ⟨made, -⟩
    by_contra neither
    rw [not_or, not_not] at neither
    obtain ⟨path', found, call, string, inside⟩ := made []
    obtain ⟨junk', result⟩ := @pathMakeRelativeIn_eq path fs.mntpoint text []
    have none : names = [] := by
      rw [neither.1] at split
      simpa using split
    rw [relative, if_neg neither.2, none] at result
    rw [result] at call
    obtain ⟨-, rfl⟩ := Prod.mk.inj (Except.ok.inj call)
    cases string
    cases inside.absolute
  · intro other
    have joined : (if fs.mntpoint = [slash] then joinComponents names else separated slash names) =
        joinComponents names := by
      split_ifs with root
      · rfl
      · have some : names ≠ [] := by
          rintro rfl
          have same := canonical.join
          rw [split, List.append_nil, mountpoint.join] at same
          exact (other.resolve_right root) same.symm
        unfold joinComponents
        rw [if_neg some]
    rw [joined] at relative
    constructor
    · intro junk
      obtain ⟨junk', result⟩ := @pathMakeRelativeIn_eq path fs.mntpoint text junk
      rw [relative] at result
      refine ⟨_, joinComponents names, result, ?_, namesInside_join tree split⟩
      exact cstring_terminated (fun zero => text ((pathMakeRelative_suffix relative).subset zero)) _
    · rintro rfl
      have mounted := other.resolve_left (not_not.mpr rfl)
      rw [mounted]
      exact fsLookupVnode_root tree mounted rooted

end Mountpoint

/-- A devfs on `/dev` that has a framebuffer. -/
def devWithFb : FileSystem :=
  ⟨1, [], [slash, 0x64, 0x65, 0x76], .devfs, none,
    [ramfsVnode 2 [slash] 1 0x4000 none, ramfsVnode 3 [0x66, 0x62] 2 0x8000 (some 2)]⟩

theorem devWithFb_treeShaped : devWithFb.TreeShaped := by
  have root : NodeNames devWithFb (ramfsVnode 2 [slash] 1 0x4000 none) [] := .root rfl
  have file : NodeNames devWithFb (ramfsVnode 3 [0x66, 0x62] 2 0x8000 (some 2)) [[0x66, 0x62]] :=
    .child (by decide) rfl root
  constructor
  · decide
  · decide
  · decide
  · unfold IsComponent
    decide
  · intro vnode inside
    simp only [devWithFb, List.mem_cons, List.not_mem_nil, or_false] at inside
    rcases inside with rfl | rfl
    · exact ⟨_, ⟨_, root, rfl⟩, by decide⟩
    · exact ⟨_, ⟨_, file, rfl⟩, by decide⟩

/-- `/dev/fb` is `/fb` there. -/
theorem makesRelative_fb :
    MakesRelative devWithFb (ramfsVnode 2 [slash] 1 0x4000 none)
      [slash, 0x64, 0x65, 0x76, slash, 0x66, 0x62] :=
  (makesRelative_iff devWithFb _ _ devWithFb_treeShaped (by decide)
    (by unfold Canonical; decide) (by unfold Canonical; decide) (by decide) (.inr (.inr ⟨[0x66, 0x62], rfl⟩))).mpr (.inl (by decide))

/-- `/dev` itself becomes the empty string, and is not found. -/
theorem not_makesRelative_dev :
    Canonical devWithFb.mntpoint ∧ ¬ MakesRelative devWithFb (ramfsVnode 2 [slash] 1 0x4000 none)
      devWithFb.mntpoint ∧
      pathMakeRelative devWithFb.mntpoint devWithFb.mntpoint = .ok [] ∧
      fsLookupVnode devWithFb.mntpoint devWithFb = .ok (.error (-2)) := by
  have missed : fsLookupVnode devWithFb.mntpoint devWithFb = .ok (.error (-2)) := by decide
  refine ⟨by unfold Canonical; decide, fun made => ?_, by decide, missed⟩
  have found := made.2 rfl
  rw [missed] at found
  cases found

end Dxgmx
