import Dxgmx.Fs.PathInPlace
import Dxgmx.Fs.PathResolution
import Dxgmx.Fs.VnodeTree

open Library

namespace Dxgmx

/-- The inner loop of `fs_lookup_vnode_cached_relative` in the memory of `tmp_path`. A step that adds
    nothing moves the buffer from an index below zero on. -/
def fsVnodePathLoopIn (fs : FileSystem) : (fuel : Nat) → (tmpPath : List Byte) → (runningLen : Nat) →
    (addslash : Bool) → VirtualNode → Exec (List Byte)
  | 0, _, _, _, _ => .error .fuel
  | fuel + 1, tmpPath, runningLen, addslash, working =>
    let curLen := working.name.length + addslash.toNat
    if pathMax ≤ runningLen + curLen then .ok tmpPath
    else if curLen = 0 then .error .fault
    else do
      let tmpPath ← moveUp curLen runningLen tmpPath
      let tmpPath ← putAll 0 working.name tmpPath
      let tmpPath ← if addslash then put tmpPath (curLen - 1) slash else pure tmpPath
      match working.parent with
      | none => pure tmpPath
      | some parent =>
        match fs.vnodeAt parent with
        | none => .error .fault
        | some parent =>
          fsVnodePathLoopIn fs fuel tmpPath (runningLen + curLen) parent.parent.isSome parent

def fsVnodePathIn (fs : FileSystem) (vnode : VirtualNode) : Exec (List Byte) := do
  let tmpPath ← fsVnodePathLoopIn fs pathMax (List.replicate pathMax 0) 0 false vnode
  cstring tmpPath

def fsLookupVnodeCachedRelativeLoopIn (path : List Byte) (fs : FileSystem) :
    List VirtualNode → Exec (Option VirtualNode)
  | [] => .ok none
  | vnode :: rest => do
    let tmpPath ← fsVnodePathIn fs vnode
    if tmpPath = path then pure (some vnode)
    else fsLookupVnodeCachedRelativeLoopIn path fs rest

def fsLookupVnodeCachedRelativeIn (path : List Byte) (fs : FileSystem) : Exec (Option VirtualNode) :=
  fsLookupVnodeCachedRelativeLoopIn path fs fs.vnodeLl

def padded (text : List Byte) : List Byte := text ++ List.replicate (pathMax - text.length) 0

section Refinement

variable {fs : FileSystem} {vnode : VirtualNode} {path text : List Byte}

theorem padded_split {width : Nat} (fits : text.length + width ≤ pathMax) :
    padded text = text ++ (List.replicate width 0 ++
      List.replicate (pathMax - (text.length + width)) 0) := by
  unfold padded
  rw [List.replicate_append_replicate]
  congr 2
  omega

/-- One step puts a name, and a slash where one is due, in front of the text. -/
theorem moveUp_padded (name : List Byte) (addslash : Bool)
    (fits : text.length + (name.length + addslash.toNat) < pathMax) :
    ∃ moved named, moveUp (name.length + addslash.toNat) text.length (padded text) = .ok moved ∧
      putAll 0 name moved = .ok named ∧ ∀ next : List Byte → Exec (List Byte),
      (if addslash then put named (name.length + addslash.toNat - 1) slash >>= next
        else pure named >>= next) =
        next (padded (name ++ List.replicate addslash.toNat slash ++ text)) := by
  have moved := @moveUp_append Byte text (List.replicate (name.length + addslash.toNat) 0)
    (List.replicate (pathMax - (text.length + (name.length + addslash.toNat))) 0)
  rw [← padded_split (Nat.le_of_lt fits), List.length_replicate] at moved
  -- what stands in the cells that the name and the slash take
  obtain ⟨front, made⟩ : ∃ front, front = (text ++
    List.replicate (name.length + addslash.toNat) 0).take (name.length + addslash.toNat) := ⟨_, rfl⟩
  have width : front.length = name.length + addslash.toNat := by
    rw [made, List.length_take, List.length_append, List.length_replicate]
    omega
  have rest : padded (name ++ List.replicate addslash.toNat slash ++ text) =
      name ++ (List.replicate addslash.toNat slash ++ (text ++ List.replicate
        (pathMax - (text.length + (name.length + addslash.toNat))) 0)) := by
    unfold padded
    simp only [List.append_assoc, List.length_append, List.length_replicate]
    congr 5
    omega
  have named := @putAll_append Byte [] (front.take name.length) name (by simp [width])
    (front.drop name.length ++ (text ++
      List.replicate (pathMax - (text.length + (name.length + addslash.toNat))) 0))
  rw [← List.append_assoc (front.take name.length), List.take_append_drop] at named
  rw [← made] at moved
  refine ⟨_, _, moved, named, fun next => ?_⟩
  rw [rest]
  cases addslash with
  | false =>
    have none : front.drop name.length = [] := by simp [width]
    rw [none]
    rfl
  | true =>
    obtain ⟨last, alone⟩ : ∃ last, front.drop name.length = [last] := by
      rw [← List.length_eq_one_iff]
      simp [width]
    have stored := put_append name last slash (text ++ List.replicate
      (pathMax - (text.length + (name.length + true.toNat))) 0)
    rw [if_pos rfl, alone]
    exact congrArg (fun call => call >>= next) stored

theorem fsVnodePathLoopIn_eq (fs : FileSystem) (fuel : Nat) (text : List Byte) (addslash : Bool)
    (vnode : VirtualNode) :
    fsVnodePathLoopIn fs fuel (padded text) text.length addslash vnode =
      (fsVnodePathLoop fs fuel text addslash vnode).map padded := by
  induction fuel generalizing text addslash vnode with
  | zero => rfl
  | succ fuel ih =>
    rw [fsVnodePathLoopIn, fsVnodePathLoop]
    dsimp only
    split
    · rfl
    · rename_i fits
      split
      · rfl
      · have step := @moveUp_padded text vnode.name addslash (Nat.lt_of_not_le fits)
        obtain ⟨text', here⟩ : ∃ text', text' =
          vnode.name ++ List.replicate addslash.toNat slash ++ text := ⟨_, rfl⟩
        have grown : text.length + (vnode.name.length + addslash.toNat) = text'.length := by
          rw [here, List.length_append, List.length_append, List.length_replicate]
          omega
        rw [← here] at step ⊢
        obtain ⟨moved, named, first, second, third⟩ := step
        rw [first, Exec.ok_bind, second, Exec.ok_bind, third, grown]
        cases vnode.parent with
        | none => rfl
        | some parent =>
          dsimp only
          cases fs.vnodeAt parent with
          | none => rfl
          | some dir => exact ih text' dir.parent.isSome dir

/-- What the buffer holds fits into it with a terminator, and no terminator stands in it. -/
theorem fsVnodePathLoop_text (strings : ∀ vnode ∈ fs.vnodeLl, 0 ∉ vnode.name) {fuel : Nat}
    {addslash : Bool} (named : 0 ∉ vnode.name) (terminated : 0 ∉ text) (short : text.length < pathMax)
    (h : fsVnodePathLoop fs fuel text addslash vnode = .ok path) :
    0 ∉ path ∧ path.length < pathMax := by
  induction fuel generalizing text addslash vnode with
  | zero => cases h
  | succ fuel ih =>
    rw [fsVnodePathLoop] at h
    dsimp only at h
    split at h
    · cases h
      exact ⟨terminated, short⟩
    · rename_i fits
      split at h
      · cases h
      · have terminated : 0 ∉ vnode.name ++ List.replicate addslash.toNat slash ++ text := by
          simp only [List.mem_append, List.mem_replicate, not_or]
          exact ⟨⟨named, fun zero => absurd zero.2 (by decide)⟩, terminated⟩
        have short : (vnode.name ++ List.replicate addslash.toNat slash ++ text).length < pathMax := by
          simp only [List.length_append, List.length_replicate]
          omega
        split at h
        · cases h
          exact ⟨terminated, short⟩
        · split at h
          · cases h
          · rename_i parent found
            exact ih (strings parent (List.mem_of_find?_eq_some found)) terminated short h

/-- The buffer takes the path and is never left. -/
theorem fsVnodePathIn_eq (strings : ∀ vnode ∈ fs.vnodeLl, 0 ∉ vnode.name)
    (inside : vnode ∈ fs.vnodeLl) : fsVnodePathIn fs vnode = fsVnodePath fs vnode := by
  have loop := fsVnodePathLoopIn_eq fs pathMax [] false vnode
  change fsVnodePathLoopIn fs pathMax (List.replicate pathMax 0) 0 false vnode = _ at loop
  unfold fsVnodePathIn fsVnodePath
  rw [loop]
  cases here : fsVnodePathLoop fs pathMax [] false vnode with
  | error stop => rfl
  | ok path =>
    obtain ⟨terminated, short⟩ :=
      fsVnodePathLoop_text strings (strings vnode inside) List.not_mem_nil (by decide) here
    obtain ⟨left, room⟩ : ∃ left, pathMax - path.length = left + 1 :=
      ⟨pathMax - path.length - 1, by omega⟩
    show cstring (padded path) = .ok path
    unfold padded
    rw [room, List.replicate_succ]
    exact cstring_terminated terminated _

theorem fsLookupVnodeCachedRelativeIn_eq (strings : ∀ vnode ∈ fs.vnodeLl, 0 ∉ vnode.name)
    (path : List Byte) :
    fsLookupVnodeCachedRelativeIn path fs = fsLookupVnodeCachedRelative path fs := by
  have loop (rest : List VirtualNode) (sub : ∀ vnode ∈ rest, vnode ∈ fs.vnodeLl) :
      fsLookupVnodeCachedRelativeLoopIn path fs rest =
        fsLookupVnodeCachedRelativeLoop path fs rest := by
    induction rest with
    | nil => rfl
    | cons vnode rest ih =>
      rw [fsLookupVnodeCachedRelativeLoopIn, fsLookupVnodeCachedRelativeLoop,
        fsVnodePathIn_eq strings (sub vnode List.mem_cons_self),
        ih fun other member => sub other (List.mem_cons_of_mem _ member)]
  exact loop fs.vnodeLl fun _ member => member

end Refinement

/-- Vnodes that form a tree in which every path fits into a buffer. -/
structure FileSystem.TreeShaped (fs : FileSystem) : Prop where
  nodup : (fs.vnodeLl.map VirtualNode.addr).Nodup
  strings : ∀ vnode ∈ fs.vnodeLl, 0 ∉ vnode.name
  roots : ∀ vnode ∈ fs.vnodeLl, vnode.parent = none → vnode.name = [slash]
  comps : ∀ vnode ∈ fs.vnodeLl, vnode.parent ≠ none → IsComponent slash vnode.name
  placed : ∀ vnode ∈ fs.vnodeLl, ∃ path, AtPath fs vnode path ∧ path.length < pathMax

section Lookup

variable {fs : FileSystem} {vnode : VirtualNode}

theorem FileSystem.TreeShaped.named (tree : fs.TreeShaped) (inside : vnode ∈ fs.vnodeLl) :
    vnode.name ≠ [] := by
  by_cases top : vnode.parent = none
  · rw [tree.roots vnode inside top]
    exact List.cons_ne_nil _ _
  · exact (tree.comps vnode inside top).1

theorem FileSystem.TreeShaped.fsVnodePath_iff (tree : fs.TreeShaped) (inside : vnode ∈ fs.vnodeLl)
    (path : List Byte) : fsVnodePath fs vnode = .ok path ↔ AtPath fs vnode path := by
  obtain ⟨found, ⟨names, way, rfl⟩, short⟩ := tree.placed vnode inside
  rw [fsVnodePath_names tree.nodup (fun _ member => tree.named member) tree.roots inside way short]
  constructor
  · intro same
    exact ⟨names, way, Except.ok.inj same⟩
  · intro there
    rw [AtPath.unique tree.nodup ⟨names, way, rfl⟩ there]

open Classical in
theorem FileSystem.TreeShaped.lookup (tree : fs.TreeShaped) (path : List Byte) :
    fsLookupVnodeCachedRelative path fs =
      .ok (fs.vnodeLl.find? fun vnode => AtPath fs vnode path) := by
  have loop (rest : List VirtualNode) (sub : ∀ vnode ∈ rest, vnode ∈ fs.vnodeLl) :
      fsLookupVnodeCachedRelativeLoop path fs rest =
        .ok (rest.find? fun vnode => AtPath fs vnode path) := by
    induction rest with
    | nil => rfl
    | cons vnode rest ih =>
      have inside := sub vnode List.mem_cons_self
      obtain ⟨found, there, short⟩ := tree.placed vnode inside
      have atPath := (tree.fsVnodePath_iff inside found).mpr there
      rw [fsLookupVnodeCachedRelativeLoop_cons atPath, List.find?_cons,
        ih fun other member => sub other (List.mem_cons_of_mem _ member)]
      by_cases same : found = path
      · rw [if_pos same, decide_eq_true (same ▸ there)]
      · rw [if_neg same, decide_eq_false fun other => same (there.unique tree.nodup other)]
  exact loop fs.vnodeLl fun _ member => member

open Classical in
/-- The lookup in a tree of vnodes finds the first one at the path. -/
theorem fsLookupVnodeCachedRelativeIn_first (fs : FileSystem) (tree : fs.TreeShaped)
    (path : List Byte) :
    fsLookupVnodeCachedRelativeIn path fs =
      .ok (fs.vnodeLl.find? fun vnode => AtPath fs vnode path) := by
  rw [fsLookupVnodeCachedRelativeIn_eq tree.strings]
  exact tree.lookup path

/-- A file `b` in the directory `/a`. -/
def rootWithFileInA : FileSystem :=
  ⟨1, [], [slash], .ramfs, none, [ramfsVnode 4 [0x62] 3 0x8000 (some 3),
    ramfsVnode 3 [0x61] 2 0x4000 (some 2), ramfsVnode 2 [slash] 1 0x4000 none]⟩

theorem rootWithFileInA_treeShaped : rootWithFileInA.TreeShaped := by
  have root : NodeNames rootWithFileInA (ramfsVnode 2 [slash] 1 0x4000 none) [] := .root rfl
  have dir : NodeNames rootWithFileInA (ramfsVnode 3 [0x61] 2 0x4000 (some 2)) [[0x61]] :=
    .child (by decide) rfl root
  have file : NodeNames rootWithFileInA (ramfsVnode 4 [0x62] 3 0x8000 (some 3)) [[0x61], [0x62]] :=
    .child (by decide) rfl dir
  constructor
  · decide
  · decide
  · decide
  · unfold IsComponent
    decide
  · intro vnode inside
    simp only [rootWithFileInA, List.mem_cons, List.not_mem_nil, or_false] at inside
    rcases inside with rfl | rfl | rfl
    · exact ⟨_, ⟨_, file, rfl⟩, by decide⟩
    · exact ⟨_, ⟨_, dir, rfl⟩, by decide⟩
    · exact ⟨_, ⟨_, root, rfl⟩, by decide⟩

open Classical in
theorem fsLookupVnodeCachedRelativeIn_first_a_b :
    fsLookupVnodeCachedRelativeIn [slash, 0x61, slash, 0x62] rootWithFileInA =
      .ok (rootWithFileInA.vnodeLl.find? fun vnode =>
        AtPath rootWithFileInA vnode [slash, 0x61, slash, 0x62]) :=
  fsLookupVnodeCachedRelativeIn_first rootWithFileInA rootWithFileInA_treeShaped _

end Lookup

end Dxgmx
