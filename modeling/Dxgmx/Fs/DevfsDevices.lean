import Dxgmx.Fs.Devfs
import Dxgmx.Fs.PathCreation
import Dxgmx.Fs.LinkedVnodes

open Library

namespace Dxgmx

/-- A root and the files below it. -/
structure FileSystem.Flat (fs : FileSystem) (root : VirtualNode) (files : List VirtualNode) :
    Prop where
  driver : fs.driver = .devfs
  holds : fs.vnodeLl = root :: files
  nodup : (fs.vnodeLl.map VirtualNode.addr).Nodup
  top : root.parent = none
  named : root.name = [slash]
  below : ∀ file ∈ files, file.parent = some root.addr
  files : ∀ file ∈ files, file.name ≠ [] ∧ slash ∉ file.name ∧ file.name.length + 1 < pathMax

variable {fs fs' : FileSystem} {root file vnode : VirtualNode} {files : List VirtualNode}

theorem FileSystem.Flat.root_path (flat : fs.Flat root files) :
    fsVnodePath fs root = .ok [slash] := by
  rw [fsVnodePath_root fs flat.top, flat.named]
  · rw [flat.named]
    exact List.cons_ne_nil _ _
  · rw [flat.named]
    decide

theorem FileSystem.Flat.file_path (flat : fs.Flat root files) (inside : file ∈ files) :
    fsVnodePath fs file = .ok (slash :: file.name) := by
  obtain ⟨some, -, short⟩ := flat.files file inside
  have named := List.length_pos_iff.mpr some
  have above : fs.vnodeAt root.addr = .some root := by
    apply (find?_addr flat.nodup).mpr
    rw [flat.holds]
    exact ⟨List.mem_cons_self, rfl⟩
  show fsVnodePathLoop fs (511 + 1) [] false file = _
  rw [fsVnodePathLoop_step (by simp; omega) (by simp; omega), flat.below file inside]
  dsimp only
  rw [above]
  dsimp only
  show fsVnodePathLoop fs (510 + 1) _ _ root = _
  rw [fsVnodePathLoop_step (by simp [flat.named, flat.top]; omega)
    (by simp [flat.named, flat.top]), flat.top]
  simp [flat.named]

theorem FileSystem.Flat.lookup_root (flat : fs.Flat root files) :
    fsLookupVnodeCachedRelative [slash] fs = .ok (some root) := by
  unfold fsLookupVnodeCachedRelative
  rw [flat.holds, fsLookupVnodeCachedRelativeLoop_cons flat.root_path, if_pos rfl]

theorem FileSystem.Flat.lookup (flat : fs.Flat root files) {name : List Byte} (some : name ≠ []) :
    fsLookupVnodeCachedRelative (slash :: name) fs =
      .ok (files.find? fun file => file.name = name) := by
  have loop (rest : List VirtualNode) (sub : ∀ file ∈ rest, file ∈ files) :
      fsLookupVnodeCachedRelativeLoop (slash :: name) fs rest =
        .ok (rest.find? fun file => file.name = name) := by
    induction rest with
    | nil => rfl
    | cons first rest ih =>
      rw [fsLookupVnodeCachedRelativeLoop_cons (flat.file_path (sub first List.mem_cons_self)),
        List.find?_cons, ih fun file member => sub file (List.mem_cons_of_mem _ member)]
      by_cases same : first.name = name
      · simp [same]
      · simp [same]
  have other : [slash] ≠ slash :: name := fun same => some (List.cons.inj same).2.symm
  unfold fsLookupVnodeCachedRelative
  rw [flat.holds, fsLookupVnodeCachedRelativeLoop_cons flat.root_path, if_neg other,
    loop files fun _ member => member]

theorem FileSystem.Flat.withVnode (flat : fs.Flat root files)
    (unused : ∀ other ∈ fs.vnodeLl, other.addr ≠ vnode.addr) (below : vnode.parent = some root.addr)
    (named : vnode.name ≠ [] ∧ slash ∉ vnode.name ∧ vnode.name.length + 1 < pathMax)
    (ctx : Option RamFsMetadata) : (fs.withVnode ctx vnode).Flat root (files ++ [vnode]) := by
  constructor
  · exact flat.driver
  · show fs.vnodeLl ++ [vnode] = _
    rw [flat.holds]
    rfl
  · exact nodup_addr_concat flat.nodup unused
  · exact flat.top
  · exact flat.named
  · intro file inside
    rcases List.mem_append.mp inside with old | new
    · exact flat.below file old
    · rw [List.mem_singleton.mp new]
      exact below
  · intro file inside
    rcases List.mem_append.mp inside with old | new
    · exact flat.files file old
    · rw [List.mem_singleton.mp new]
      exact named

theorem FileSystem.Flat.map (flat : fs.Flat root files) {f : VirtualNode → VirtualNode}
    (same : ∀ vnode ∈ fs.vnodeLl, (f vnode).addr = vnode.addr ∧ (f vnode).name = vnode.name ∧
      (f vnode).parent = vnode.parent) :
    FileSystem.Flat { fs with vnodeLl := fs.vnodeLl.map f } (f root) (files.map f) := by
  have there (file : VirtualNode) (inside : file ∈ files) : file ∈ fs.vnodeLl := by
    rw [flat.holds]
    exact List.mem_cons_of_mem _ inside
  have first : root ∈ fs.vnodeLl := by
    rw [flat.holds]
    exact List.mem_cons_self
  constructor
  · exact flat.driver
  · show fs.vnodeLl.map f = _
    rw [flat.holds, List.map_cons]
  · show ((fs.vnodeLl.map f).map VirtualNode.addr).Nodup
    have addrs : fs.vnodeLl.map (VirtualNode.addr ∘ f) = fs.vnodeLl.map VirtualNode.addr :=
      List.map_congr_left fun vnode inside => (same vnode inside).1
    rw [List.map_map, addrs]
    exact flat.nodup
  · rw [(same root first).2.2, flat.top]
  · rw [(same root first).2.1, flat.named]
  · intro other inside
    obtain ⟨file, member, rfl⟩ := List.mem_map.mp inside
    rw [(same file (there file member)).2.2, (same root first).1]
    exact flat.below file member
  · intro other inside
    obtain ⟨file, member, rfl⟩ := List.mem_map.mp inside
    rw [(same file (there file member)).2.1]
    exact flat.files file member

section Step

variable {ctx ctx' : RamFsMetadata} {n : Nat} {fresh : VirtualNodeRef} {dir : Option VirtualNodeRef}
  {name : List Byte} {mode uid gid : BitVec 32}

/-- The file that `ramfs_mkfile` makes, where the search for an inode is known. -/
theorem ramfsMkfile_eq (here : fs.driverCtx = some ctx)
    (unused : ∀ other ∈ fs.vnodeLl, other.addr ≠ fresh)
    (found : ramfsFindNextAvailFd true ctx = (.ok n, ctx')) :
    ramfsMkfile ⟨true, true⟩ fresh dir name mode uid gid fs = .ok (.ok n,
      fs.withVnode (some { ctx' with files := ctx'.files.set (n - 1) true })
        ⟨fresh, name, n, 0, mode, 0, false, dir, uid, gid, .driver fs.driver, 0⟩) := by
  have full : ¬ true = false := by decide
  unfold ramfsMkfile fsNewVnodeCache
  rw [here, if_neg full]
  dsimp only
  rw [found]
  have stored := @map_concat_fresh fs.vnodeLl
    ⟨fresh, name, 0, 0, 0, 0, false, none, 0, 0, .driver fs.driver, 0⟩
    ⟨fresh, name, n, 0, mode, 0, false, dir, uid, gid, .driver fs.driver, 0⟩ rfl unused
  unfold FileSystem.setVnode FileSystem.withVnode
  rw [← stored]

/-- The vnode that `devfs_init` makes for an entry. -/
def DevFSEntry.newVnode (entry : DevFSEntry) (fresh root : VirtualNodeRef) (n : Nat) : VirtualNode :=
  ⟨fresh, trimDot entry.name, n, 0, entry.mode, 0, false, some root, entry.uid, entry.gid,
    .driver .devfs, 0⟩

/-- An entry as `devfs_register` keeps it. -/
def DevFSEntry.registered (entry : DevFSEntry) : DevFSEntry :=
  { entry with name := slash :: entry.name }

/-- `devfs_init` has room for the path of the entry. -/
def DevFSEntry.Fits (mntpoint : List Byte) (entry : DevFSEntry) : Prop :=
  mntpoint.length + entry.name.length + 3 ≤ pathMax

instance decidableFits (mntpoint : List Byte) (entry : DevFSEntry) :
    Decidable (entry.Fits mntpoint) :=
  inferInstanceAs (Decidable (mntpoint.length + entry.name.length + 3 ≤ pathMax))

def plenty : VirtualNodeRef → MkfileMem := fun _ => ⟨true, true⟩

theorem devfsInitLoop_skip {entry : DevFSEntry} (long : ¬ entry.Fits fs.mntpoint) (rest : List DevFSEntry) :
    devfsInitLoop plenty fresh (entry.registered :: rest) fs =
      devfsInitLoop plenty (fresh + 1) rest fs := by
  unfold DevFSEntry.Fits at long
  rw [devfsInitLoop, if_pos]
  show pathMax < fs.mntpoint.length + 1 + (entry.name.length + 1) + 1
  omega

/-- What the loop does for an entry: it makes a file and gives the first vnode with the inode of the
    file the operations of the entry. -/
theorem FileSystem.Flat.step (flat : fs.Flat root files) {entry : DevFSEntry}
    (canonical : CanonicalMountpoint fs.mntpoint) (single : SingleComponent entry.name)
    (fits : entry.Fits fs.mntpoint) (unused : ∀ other ∈ fs.vnodeLl, other.addr ≠ fresh)
    (here : fs.driverCtx = some ctx) (found : ramfsFindNextAvailFd true ctx = (.ok n, ctx'))
    {first : VirtualNode} (hit : (fs.vnodeLl ++ [entry.newVnode fresh root.addr n]).find?
      (fun vnode => vnode.n = n) = some first) (rest : List DevFSEntry) :
    devfsInitLoop plenty fresh (entry.registered :: rest) fs =
      devfsInitLoop plenty (fresh + 1) rest
        ((fs.withVnode (some { ctx' with files := ctx'.files.set (n - 1) true })
          (entry.newVnode fresh root.addr n)).setVnode
          { first with ops := .registered entry.ops, data := entry.data }) := by
  unfold DevFSEntry.Fits at fits
  have makesFiles : fs.driver ≠ .fatfs := by
    rw [flat.driver]
    decide
  have below := canonical.relative single (.inr rfl)
  have made : fsMkfile ⟨true, true⟩ fresh (fs.mntpoint ++ slash :: entry.registered.name) entry.mode
      entry.uid entry.gid fs = .ok (.ok n,
        fs.withVnode (some { ctx' with files := ctx'.files.set (n - 1) true })
          (entry.newVnode fresh root.addr n)) := by
    show fsMkfile _ _ (fs.mntpoint ++ slash :: ([slash] ++ entry.name)) _ _ _ _ = _
    rw [@fsMkfile_append fs _ ⟨true, true⟩ fresh entry.mode entry.uid entry.gid [] _ _ makesFiles below
      (slash_not_mem_trimDot single.plain) flat.lookup_root, ramfsMkfile_eq here unused found]
    unfold DevFSEntry.newVnode
    rw [flat.driver]
    rfl
  rw [devfsInitLoop, if_neg]
  · show (fsMkfile ⟨true, true⟩ fresh (fs.mntpoint ++ slash :: entry.registered.name) entry.mode
      entry.uid entry.gid fs >>= _) = _
    rw [made, Exec.ok_bind]
    dsimp only
    have hit : fsInoToVnode n (fs.withVnode (some { ctx' with files := ctx'.files.set (n - 1) true })
        (entry.newVnode fresh root.addr n)) = some first := hit
    rw [hit]
    rfl
  · show ¬ pathMax < fs.mntpoint.length + 1 + (entry.name.length + 1) + 1
    omega

/-- The operations of an entry go to one vnode. -/
def DevFSEntry.attach (entry : DevFSEntry) (first vnode : VirtualNode) : VirtualNode :=
  if vnode.addr = first.addr then { first with ops := .registered entry.ops, data := entry.data }
  else vnode

theorem attach_first (entry : DevFSEntry) (first : VirtualNode) :
    entry.attach first first = { first with ops := .registered entry.ops, data := entry.data } :=
  if_pos rfl

theorem attach_other {vnodes : List VirtualNode} (nodup : (vnodes.map VirtualNode.addr).Nodup)
    {first : VirtualNode} (member : first ∈ vnodes) (inside : vnode ∈ vnodes) (other : vnode ≠ first)
    (entry : DevFSEntry) : entry.attach first vnode = vnode :=
  if_neg fun same => other (List.inj_on_of_nodup_map nodup inside member same)

theorem attach_same {vnodes : List VirtualNode} (nodup : (vnodes.map VirtualNode.addr).Nodup)
    {first : VirtualNode} (member : first ∈ vnodes) (inside : vnode ∈ vnodes)
    (entry : DevFSEntry) :
    (entry.attach first vnode).addr = vnode.addr ∧ (entry.attach first vnode).name = vnode.name ∧
      (entry.attach first vnode).parent = vnode.parent ∧ (entry.attach first vnode).n = vnode.n := by
  by_cases same : vnode = first
  · rw [same, attach_first]
    exact ⟨rfl, rfl, rfl, rfl⟩
  · rw [attach_other nodup member inside same]
    exact ⟨rfl, rfl, rfl, rfl⟩

/-- The loop can take the next entry. -/
structure FileSystem.Ready (fs : FileSystem) (fresh : VirtualNodeRef) (ctx : RamFsMetadata)
    (root : VirtualNode) (files : List VirtualNode) : Prop where
  flat : fs.Flat root files
  canonical : CanonicalMountpoint fs.mntpoint
  allocated : ∀ vnode ∈ fs.vnodeLl, vnode.addr < fresh
  initialized : fs.driverCtx = some ctx

theorem FileSystem.Ready.unused (ready : fs.Ready fresh ctx root files) (other : VirtualNode)
    (inside : other ∈ fs.vnodeLl) : other.addr ≠ fresh :=
  Nat.ne_of_lt (ready.allocated other inside)

/-- An address is not used for an entry that is too long. -/
theorem FileSystem.Ready.later (ready : fs.Ready fresh ctx root files) :
    fs.Ready (fresh + 1) ctx root files := by
  constructor
  · exact ready.flat
  · exact ready.canonical
  · exact fun vnode inside => Nat.lt_succ_of_lt (ready.allocated vnode inside)
  · exact ready.initialized

theorem FileSystem.Ready.nodup (ready : fs.Ready fresh ctx root files) (entry : DevFSEntry)
    (n : Nat) :
    ((root :: (files ++ [entry.newVnode fresh root.addr n])).map VirtualNode.addr).Nodup := by
  have grown := @nodup_addr_concat _ (entry.newVnode fresh root.addr n) ready.flat.nodup ready.unused
  rw [ready.flat.holds] at grown
  exact grown

theorem FileSystem.Ready.step (ready : fs.Ready fresh ctx root files) {entry : DevFSEntry}
    (single : SingleComponent entry.name) (fits : entry.Fits fs.mntpoint)
    (found : ramfsFindNextAvailFd true ctx = (.ok n, ctx')) :
    ∃ first fs', (root :: (files ++ [entry.newVnode fresh root.addr n])).find?
        (fun vnode => vnode.n = n) = some first ∧
      (∀ rest, devfsInitLoop plenty fresh (entry.registered :: rest) fs =
        devfsInitLoop plenty (fresh + 1) rest fs') ∧ fs'.mntpoint = fs.mntpoint ∧
      fs'.Ready (fresh + 1) { ctx' with files := ctx'.files.set (n - 1) true }
        (entry.attach first root)
        ((files ++ [entry.newVnode fresh root.addr n]).map (entry.attach first)) := by
  have holds : fs.vnodeLl ++ [entry.newVnode fresh root.addr n] =
      root :: (files ++ [entry.newVnode fresh root.addr n]) := by
    rw [ready.flat.holds]
    rfl
  have fits' : entry.name.length + 1 < pathMax := by
    unfold DevFSEntry.Fits at fits
    omega
  have grown : (fs.withVnode (some { ctx' with files := ctx'.files.set (n - 1) true })
      (entry.newVnode fresh root.addr n)).Flat root (files ++ [entry.newVnode fresh root.addr n]) := by
    apply ready.flat.withVnode ready.unused rfl
    exact ⟨single.trim_ne_nil, slash_not_mem_trimDot single.plain,
      Nat.lt_of_le_of_lt (Nat.succ_le_succ (trimDot_length _)) fits'⟩
  cases hit : (root :: (files ++ [entry.newVnode fresh root.addr n])).find? fun vnode => vnode.n = n with
  | none =>
    have missed := List.find?_eq_none.mp hit (entry.newVnode fresh root.addr n)
      (List.mem_cons_of_mem _ (List.mem_append_right _ List.mem_cons_self))
    exact absurd (decide_eq_true rfl) missed
  | some first =>
    rw [← holds] at hit
    refine ⟨first, _, rfl, ready.flat.step ready.canonical single fits ready.unused ready.initialized found
      hit, rfl, ?_⟩
    have member := List.mem_of_find?_eq_some hit
    have same (vnode : VirtualNode) (inside : vnode ∈ fs.vnodeLl ++ [entry.newVnode fresh root.addr n]) :=
      attach_same grown.nodup member inside entry
    constructor
    · exact grown.map fun vnode inside => ⟨(same vnode inside).1, (same vnode inside).2.1,
        (same vnode inside).2.2.1⟩
    · exact ready.canonical
    · intro other inside
      obtain ⟨vnode, before, rfl⟩ := List.mem_map.mp inside
      show (entry.attach first vnode).addr < _
      rw [(same vnode before).1]
      rcases List.mem_append.mp before with old | new
      · exact Nat.lt_succ_of_lt (ready.allocated vnode old)
      · rw [List.mem_singleton.mp new]
        exact Nat.lt_succ_self fresh
    · rfl

theorem ramfsFindNextAvailFd_total (ctx : RamFsMetadata) :
    ∃ n ctx', ramfsFindNextAvailFd true ctx = (.ok n, ctx') := by
  have full : ¬ true = false := by decide
  unfold ramfsFindNextAvailFd
  split
  · exact ⟨_, _, rfl⟩
  · rw [if_neg full]
    exact ⟨_, _, rfl⟩

theorem map_attach_name {vnodes files : List VirtualNode}
    (nodup : (vnodes.map VirtualNode.addr).Nodup) {first : VirtualNode} (member : first ∈ vnodes)
    (sub : ∀ file ∈ files, file ∈ vnodes) (entry : DevFSEntry) :
    (files.map (entry.attach first)).map VirtualNode.name = files.map VirtualNode.name := by
  rw [List.map_map]
  exact List.map_congr_left fun file inside => (attach_same nodup member (sub file inside) entry).2.1

theorem FileSystem.Ready.run_names {entries : List DevFSEntry}
    (ready : fs.Ready fresh ctx root files)
    (single : ∀ entry ∈ entries, SingleComponent entry.name)
    (h : devfsInitLoop plenty fresh (entries.map DevFSEntry.registered) fs = .ok fs') :
    ∃ root' files', fs'.Flat root' files' ∧ fs'.mntpoint = fs.mntpoint ∧
      files'.map VirtualNode.name = files.map VirtualNode.name ++
        (entries.filter fun entry => entry.Fits fs.mntpoint).map fun entry => trimDot entry.name := by
  induction entries generalizing fs fresh ctx root files with
  | nil =>
    cases h
    exact ⟨root, files, ready.flat, rfl, (List.append_nil _).symm⟩
  | cons entry rest ih =>
    have later (other : DevFSEntry) (inside : other ∈ rest) := single other (List.mem_cons_of_mem _ inside)
    rw [List.map_cons] at h
    by_cases fits : entry.Fits fs.mntpoint
    · obtain ⟨n, ctx', found⟩ := ramfsFindNextAvailFd_total ctx
      obtain ⟨first, next, hit, steps, same, ready'⟩ :=
        ready.step (single entry List.mem_cons_self) fits found
      rw [steps] at h
      obtain ⟨root', files', flat, kept, names⟩ := ih ready' later h
      refine ⟨root', files', flat, kept.trans same, ?_⟩
      rw [names, same, List.filter_cons_of_pos (by simpa using fits), map_attach_name
        (ready.nodup entry n) (List.mem_of_find?_eq_some hit) fun file inside =>
          List.mem_cons_of_mem _ inside]
      rw [List.map_append, List.append_assoc]
      rfl
    · rw [devfsInitLoop_skip fits] at h
      rw [List.filter_cons_of_neg (by simpa using fits)]
      exact ih ready.later later h

/-- The file of an entry. -/
def DevFSEntry.At (entry : DevFSEntry) (file : VirtualNode) : Prop :=
  file.name = trimDot entry.name ∧ file.ops = .registered entry.ops ∧ file.data = entry.data

/-- The inodes of a ramfs of eight files, of which the first ones are used. -/
def usedFiles (used : Nat) : RamFsMetadata :=
  ⟨List.replicate used true ++ List.replicate (8 - used) false, used⟩

theorem usedFiles_next {used : Nat} (few : used < 8) :
    ∃ ctx, ramfsFindNextAvailFd true (usedFiles used) = (.ok (used + 1), ctx) ∧
      { ctx with files := ctx.files.set (used + 1 - 1) true } = usedFiles (used + 1) := by
  have split : List.replicate (8 - used) false = false :: List.replicate (8 - (used + 1)) false := by
    rw [show 8 - used = 8 - (used + 1) + 1 by omega]
    rfl
  unfold ramfsFindNextAvailFd usedFiles
  dsimp only
  rw [List.drop_left' (List.length_replicate), split]
  refine ⟨_, rfl, ?_⟩
  dsimp only
  rw [Nat.add_sub_cancel, List.set_set, List.set_append_right _ _ (by simp)]
  simp [List.replicate_succ']

/-- The eighth search after the root's finds the block full: it makes the block larger and gives the
    inode before it again. -/
theorem usedFiles_full : ∃ ctx, ramfsFindNextAvailFd true (usedFiles 8) = (.ok 8, ctx) :=
  ⟨_, rfl⟩

/-- The first files: each has the next inode and the operations of its entry. -/
structure FileSystem.Attached (fs : FileSystem) (fresh : VirtualNodeRef) (root : VirtualNode)
    (files : List VirtualNode) (done : List DevFSEntry) : Prop where
  ready : fs.Ready fresh (usedFiles (done.length + 1)) root files
  inodes : (root :: files).map VirtualNode.n = List.range' 1 (done.length + 1)
  entries : List.Forall₂ DevFSEntry.At done files

theorem FileSystem.Attached.step {done : List DevFSEntry} {entry : DevFSEntry}
    (attached : fs.Attached fresh root files done) (few : done.length < 7)
    (single : SingleComponent entry.name) (fits : entry.Fits fs.mntpoint) :
    ∃ fs' files', (∀ rest, devfsInitLoop plenty fresh (entry.registered :: rest) fs =
        devfsInitLoop plenty (fresh + 1) rest fs') ∧ fs'.mntpoint = fs.mntpoint ∧
      fs'.Attached (fresh + 1) root files' (done ++ [entry]) := by
  obtain ⟨ctx, found, next⟩ := @usedFiles_next (done.length + 1) (by omega)
  obtain ⟨first, fs', hit, steps, same, ready⟩ := attached.ready.step single fits found
  have nodup := attached.ready.nodup entry (done.length + 1 + 1)
  -- no vnode of before has the inode
  have new : first = entry.newVnode fresh root.addr (done.length + 1 + 1) := by
    rw [← List.cons_append, List.find?_append] at hit
    have none : (root :: files).find? (fun vnode => vnode.n = done.length + 1 + 1) = none := by
      rw [List.find?_eq_none]
      intro vnode inside number
      have member := List.mem_map_of_mem (f := VirtualNode.n) inside
      rw [attached.inodes, of_decide_eq_true number, List.mem_range'_1] at member
      omega
    rw [none, Option.none_or, List.find?_singleton] at hit
    simpa [DevFSEntry.newVnode] using hit.symm
  have kept (vnode : VirtualNode) (inside : vnode ∈ root :: files) : entry.attach first vnode = vnode := by
    apply attach_other nodup (List.mem_of_find?_eq_some hit)
    · rw [← List.cons_append]
      exact List.mem_append_left _ inside
    · rintro rfl
      apply attached.ready.unused vnode
      · rw [attached.ready.flat.holds]
        exact inside
      · rw [new]
        rfl
  have files' : files.map (entry.attach first) = files := by
    conv_rhs => rw [← List.map_id files]
    exact List.map_congr_left fun file inside => kept file (List.mem_cons_of_mem _ inside)
  rw [kept root List.mem_cons_self, List.map_append, files', List.map_singleton] at ready
  rw [← new] at ready
  rw [attach_first, next] at ready
  refine ⟨fs', files ++ [{ first with ops := .registered entry.ops, data := entry.data }], steps, same,
    ?_⟩
  constructor
  · rw [List.length_append]
    exact ready
  · have more : List.range' 1 (done.length + 1 + 1) =
        List.range' 1 (done.length + 1) ++ [1 + 1 * (done.length + 1)] := List.range'_concat
    rw [← List.cons_append, List.map_append, attached.inodes, List.length_append, List.length_singleton,
      more, List.map_singleton, new]
    simp [DevFSEntry.newVnode, Nat.add_comm]
  · apply List.rel_append attached.entries
    rw [new]
    exact .cons ⟨rfl, rfl, rfl⟩ .nil

theorem FileSystem.Attached.run {done entries : List DevFSEntry}
    (attached : fs.Attached fresh root files done) (few : done.length + entries.length ≤ 7)
    (single : ∀ entry ∈ entries, SingleComponent entry.name)
    (fits : ∀ entry ∈ entries, entry.Fits fs.mntpoint) :
    ∃ fs' fresh' files', (∀ rest, devfsInitLoop plenty fresh (entries.map DevFSEntry.registered ++ rest) fs =
        devfsInitLoop plenty fresh' rest fs') ∧ fs'.mntpoint = fs.mntpoint ∧
      fs'.Attached fresh' root files' (done ++ entries) := by
  induction entries generalizing fs fresh files done with
  | nil =>
    rw [List.append_nil]
    exact ⟨fs, fresh, files, fun _ => rfl, rfl, attached⟩
  | cons entry rest ih =>
    rw [List.length_cons] at few
    obtain ⟨next, files', steps, same, attached'⟩ := attached.step (by omega)
      (single entry List.mem_cons_self) (fits entry List.mem_cons_self)
    obtain ⟨fs', fresh', files'', later, kept, last⟩ := ih attached'
      (by rw [List.length_append, List.length_singleton]; omega)
      (fun other inside => single other (List.mem_cons_of_mem _ inside))
      (fun other inside => by rw [same]; exact fits other (List.mem_cons_of_mem _ inside))
    refine ⟨fs', fresh', files'', fun rest => ?_, kept.trans same, ?_⟩
    · rw [List.map_cons, List.cons_append, steps, later]
    · rw [List.append_assoc] at last
      exact last

/-- A file of the name that keeps the operations of the driver, as an earlier vnode has its
    inode. -/
def Shadowed (name : List Byte) (root : VirtualNode) (files : List VirtualNode) : Prop :=
  ∃ before file after, files = before ++ file :: after ∧ file.name = name ∧
    file.ops = .driver .devfs ∧ (∃ vnode ∈ root :: before, vnode.n = file.n) ∧
    ∀ vnode ∈ before, vnode.name ≠ name

theorem Shadowed.attach {entry : DevFSEntry} {first : VirtualNode} (shadowed : Shadowed name root files)
    (nodup : ((root :: files).map VirtualNode.addr).Nodup)
    (hit : (root :: files).find? (fun vnode => vnode.n = n) = some first) :
    Shadowed name (entry.attach first root) (files.map (entry.attach first)) := by
  obtain ⟨before, file, after, rfl, named, kept, ⟨vnode, inside, same⟩, others⟩ := shadowed
  have member := List.mem_of_find?_eq_some hit
  have there : file ∈ root :: (before ++ file :: after) :=
    List.mem_cons_of_mem _ (List.mem_append_right _ List.mem_cons_self)
  have early (vnode : VirtualNode) (inside : vnode ∈ root :: before) :
      vnode ∈ root :: (before ++ file :: after) := by
    rw [← List.cons_append]
    exact List.mem_append_left _ inside
  -- the search ends before it comes to the file
  have other : file ≠ first := by
    rintro rfl
    have number : file.n = n := by simpa using List.find?_some hit
    rw [← List.cons_append, List.find?_append] at hit
    rw [← List.cons_append, List.map_append, List.nodup_append] at nodup
    cases earlier : (root :: before).find? fun vnode => vnode.n = n with
    | none =>
      have missed := List.find?_eq_none.mp earlier vnode inside
      rw [decide_eq_true_eq] at missed
      exact missed (same.trans number)
    | some hit' =>
      rw [earlier] at hit
      have equal : hit' = file := Option.some.inj hit
      rw [equal] at earlier
      exact nodup.2.2 _ (List.mem_map_of_mem (List.mem_of_find?_eq_some earlier)) _
        (List.mem_map_of_mem List.mem_cons_self) rfl
  refine ⟨before.map (entry.attach first), file, after.map (entry.attach first), ?_, named, kept, ?_, ?_⟩
  · rw [List.map_append, List.map_cons, attach_other nodup member there other]
  · refine ⟨entry.attach first vnode, ?_, ?_⟩
    · rw [← List.map_cons]
      exact List.mem_map_of_mem inside
    · rw [(attach_same nodup member (early vnode inside) entry).2.2.2, same]
  · intro vnode' inside'
    obtain ⟨old, before', rfl⟩ := List.mem_map.mp inside'
    rw [(attach_same nodup member (early old (List.mem_cons_of_mem _ before')) entry).2.1]
    exact others old before'

theorem Shadowed.concat (shadowed : Shadowed name root files) (new : VirtualNode) :
    Shadowed name root (files ++ [new]) := by
  obtain ⟨before, file, after, rfl, rest⟩ := shadowed
  exact ⟨before, file, after ++ [new], by simp, rest⟩

theorem Shadowed.run {entries : List DevFSEntry} (shadowed : Shadowed name root files)
    (ready : fs.Ready fresh ctx root files) (single : ∀ entry ∈ entries, SingleComponent entry.name)
    (h : devfsInitLoop plenty fresh (entries.map DevFSEntry.registered) fs = .ok fs') :
    ∃ root' files', fs'.Flat root' files' ∧ fs'.mntpoint = fs.mntpoint ∧ Shadowed name root' files' := by
  induction entries generalizing fs fresh ctx root files with
  | nil =>
    cases h
    exact ⟨root, files, ready.flat, rfl, shadowed⟩
  | cons entry rest ih =>
    have later (other : DevFSEntry) (inside : other ∈ rest) := single other (List.mem_cons_of_mem _ inside)
    rw [List.map_cons] at h
    by_cases fits : entry.Fits fs.mntpoint
    · obtain ⟨n, ctx', found⟩ := ramfsFindNextAvailFd_total ctx
      obtain ⟨first, next, hit, steps, same, ready'⟩ :=
        ready.step (single entry List.mem_cons_self) fits found
      rw [steps] at h
      obtain ⟨root', files', flat, kept, last⟩ :=
        ih ((shadowed.concat _).attach (ready.nodup entry n) hit) ready' later h
      exact ⟨root', files', flat, kept.trans same, last⟩
    · rw [devfsInitLoop_skip fits] at h
      exact ih shadowed (ready.later) later h

/-- The search for the eighth file after the root gives the seventh one its operations. -/
theorem FileSystem.Attached.shadowed {done : List DevFSEntry} {entry : DevFSEntry}
    (attached : fs.Attached fresh root files done) (seven : done.length = 7)
    (single : SingleComponent entry.name) (fits : entry.Fits fs.mntpoint)
    (distinct : ∀ other ∈ done, trimDot other.name ≠ trimDot entry.name) :
    ∃ fs' ctx' root' files', (∀ rest, devfsInitLoop plenty fresh (entry.registered :: rest) fs =
        devfsInitLoop plenty (fresh + 1) rest fs') ∧ fs'.mntpoint = fs.mntpoint ∧
      fs'.Ready (fresh + 1) ctx' root' files' ∧ Shadowed (trimDot entry.name) root' files' := by
  obtain ⟨ready, inodes, entries⟩ := attached
  rw [seven] at ready inodes
  obtain ⟨ctx, found⟩ := usedFiles_full
  obtain ⟨first, fs', hit, steps, same, ready'⟩ := ready.step single fits found
  have nodup := ready.nodup entry 8
  refine ⟨fs', _, _, _, steps, same, ready', ?_⟩
  -- an earlier vnode has the inode, so the search ends there
  have used : ∃ vnode ∈ root :: files, vnode.n = 8 := by
    have member : 8 ∈ (root :: files).map VirtualNode.n := by
      rw [inodes]
      decide
    exact List.mem_map.mp member
  rw [List.map_append]
  have earlier : first ∈ root :: files := by
    rw [← List.cons_append, List.find?_append] at hit
    cases there : (root :: files).find? fun vnode => vnode.n = 8 with
    | none =>
      obtain ⟨vnode, inside, number⟩ := used
      have missed := List.find?_eq_none.mp there vnode inside
      rw [decide_eq_true_eq] at missed
      exact absurd number missed
    | some vnode =>
      rw [there] at hit
      rw [← Option.some.inj hit]
      exact List.mem_of_find?_eq_some there
  have whole (vnode : VirtualNode) (inside : vnode ∈ root :: files) :
      vnode ∈ root :: (files ++ [entry.newVnode fresh root.addr 8]) := by
    rw [← List.cons_append]
    exact List.mem_append_left _ inside
  have new : entry.attach first (entry.newVnode fresh root.addr 8) =
      entry.newVnode fresh root.addr 8 := by
    apply attach_other nodup (whole first earlier)
    · exact List.mem_cons_of_mem _ (List.mem_append_right _ List.mem_cons_self)
    · rintro rfl
      apply ready.unused (entry.newVnode fresh root.addr 8)
      · rw [ready.flat.holds]
        exact earlier
      · rfl
  rw [List.map_singleton, new]
  refine ⟨_, _, [], rfl, rfl, rfl, ?_, ?_⟩
  · obtain ⟨vnode, inside, number⟩ := used
    refine ⟨entry.attach first vnode, ?_, ?_⟩
    · rw [← List.map_cons]
      exact List.mem_map_of_mem inside
    · exact (attach_same nodup (whole first earlier) (whole vnode inside) entry).2.2.2.trans number
  · intro vnode inside
    obtain ⟨file, member, rfl⟩ := List.mem_map.mp inside
    rw [(attach_same nodup (whole first earlier) (whole file (List.mem_cons_of_mem _ member)) entry).2.1]
    obtain ⟨other, before, there⟩ : ∃ other ∈ done, other.At file := by
      obtain ⟨i, bound, rfl⟩ := List.getElem_of_mem member
      have same := entries.length_eq
      exact ⟨done[i], List.getElem_mem _, entries.get (by omega) bound⟩
    rw [there.1]
    exact distinct other before

end Step

section Init

variable {fresh : VirtualNodeRef}

def registerAll (entries : List DevFSEntry) : List DevFSEntry :=
  entries.foldl (fun registered entry => (devfsRegister true entry registered).2) []

theorem registerAll_eq {entries : List DevFSEntry}
    (single : ∀ entry ∈ entries, SingleComponent entry.name) :
    registerAll entries = entries.map DevFSEntry.registered := by
  have loop (before : List DevFSEntry) :
      entries.foldl (fun registered entry => (devfsRegister true entry registered).2) before =
        before ++ entries.map DevFSEntry.registered := by
    induction entries generalizing before with
    | nil => exact (List.append_nil before).symm
    | cons entry rest ih =>
      have lead : entry.name.head? ≠ some slash := by
        intro starts
        obtain ⟨rest, same⟩ := List.head?_eq_some_iff.mp starts
        apply (single entry List.mem_cons_self).plain
        rw [same]
        exact List.mem_cons_self
      have full : ¬ true = false := by decide
      rw [List.foldl_cons, ih fun other inside => single other (List.mem_cons_of_mem _ inside)]
      unfold devfsRegister
      rw [if_neg full, if_pos lead, List.map_cons, List.append_assoc]
      rfl
  exact loop []

def plentyInit : RamfsMem := ⟨true, true, ⟨true, true⟩⟩

def devfsRoot (fresh : VirtualNodeRef) : VirtualNode :=
  ⟨fresh, [slash], 1, 0, ramfsDirMode, 0, false, none, 0, 0, .driver .devfs, 0⟩

theorem ramfsInit_eq (driver : fs.driver = .devfs) (empty : fs.vnodeLl = []) :
    ramfsInit plentyInit fresh fs = .ok (0, { fs with
      driverCtx := some (usedFiles 1)
      vnodeLl := [devfsRoot fresh] }) := by
  obtain ⟨ctx, found, next⟩ := @usedFiles_next 0 (by decide)
  have made := @ramfsMkfile_eq { fs with driverCtx := some (usedFiles 0) } (usedFiles 0) ctx 1 fresh
    none [slash] ramfsDirMode 0 0 rfl (by rw [empty]; nofun) found
  rw [next] at made
  have full : ¬ true = false := by decide
  unfold ramfsInit
  rw [show plentyInit.metadata = true from rfl, show plentyInit.files = true from rfl, if_neg full,
    if_neg full]
  show (ramfsMkfile ⟨true, true⟩ fresh none [slash] ramfsDirMode 0 0
    { fs with driverCtx := some (usedFiles 0) } >>= _) = _
  rw [made, Exec.ok_bind]
  unfold FileSystem.withVnode devfsRoot
  dsimp only
  rw [driver, empty]
  rfl

theorem devfsInit_eq (driver : fs.driver = .devfs) (empty : fs.vnodeLl = [])
    (registered : List DevFSEntry) :
    devfsInit plentyInit plenty fresh registered fs =
      devfsInitLoop plenty (fresh + 1) registered { fs with
        driverCtx := some (usedFiles 1)
        vnodeLl := [devfsRoot fresh] } >>= fun fs => pure (0, fs) := by
  unfold devfsInit
  rw [ramfsInit_eq driver empty, Exec.ok_bind]
  rfl

theorem attached_init (canonical : CanonicalMountpoint fs.mntpoint) (driver : fs.driver = .devfs) :
    FileSystem.Attached { fs with
      driverCtx := some (usedFiles 1)
      vnodeLl := [devfsRoot fresh] } (fresh + 1) (devfsRoot fresh) [] [] := by
  refine ⟨⟨?_, canonical, ?_, rfl⟩, rfl, .nil⟩
  · constructor
    · exact driver
    · rfl
    · exact List.nodup_singleton _
    · rfl
    · rfl
    · nofun
    · nofun
  · intro vnode inside
    rw [List.mem_singleton.mp inside]
    exact Nat.lt_succ_self fresh

end Init

/-- After `devfs_init` each device is found with its own operations and data. -/
def DevicesRight (fresh : VirtualNodeRef) (entries : List DevFSEntry) (fs : FileSystem) : Prop :=
  ∃ fs', devfsInit plentyInit plenty fresh (registerAll entries) fs = .ok (0, fs') ∧
    ∀ entry ∈ entries, ∃ vnode, fsLookupVnode (fs.mntpoint ++ slash :: entry.name) fs' = .ok (.ok vnode) ∧
      vnode.ops = .registered entry.ops ∧ vnode.data = entry.data

section Devices

variable {fresh : VirtualNodeRef} {names : List (List Byte)} {entries : List DevFSEntry}

/-- A device is looked for among the files by the name that the path functions leave of it. -/
theorem FileSystem.Flat.lookup_device (flat : fs'.Flat root files)
    (canonical : CanonicalMountpoint fs.mntpoint) (same : fs'.mntpoint = fs.mntpoint)
    {name : List Byte} (single : SingleComponent name) :
    fsLookupVnode (fs.mntpoint ++ slash :: name) fs' = .ok (.ok vnode) ↔
      files.find? (fun file => file.name = trimDot name) = some vnode := by
  have below := canonical.relative single (.inl rfl)
  rw [fsLookupVnode_found, same]
  constructor
  · rintro ⟨relative, here, found⟩
    cases below.symm.trans here
    rw [flat.lookup single.trim_ne_nil] at found
    exact Except.ok.inj found
  · intro found
    exact ⟨_, below, by rw [flat.lookup single.trim_ne_nil, found]⟩

theorem DevicesRight.run (right : DevicesRight fresh entries fs) (driver : fs.driver = .devfs)
    (empty : fs.vnodeLl = []) (single : ∀ entry ∈ entries, SingleComponent entry.name) :
    ∃ fs', devfsInitLoop plenty (fresh + 1) (entries.map DevFSEntry.registered) { fs with
        driverCtx := some (usedFiles 1)
        vnodeLl := [devfsRoot fresh] } = .ok fs' ∧
      ∀ entry ∈ entries, ∃ vnode,
        fsLookupVnode (fs.mntpoint ++ slash :: entry.name) fs' = .ok (.ok vnode) ∧
          vnode.ops = .registered entry.ops ∧ vnode.data = entry.data := by
  obtain ⟨fs', done, devices⟩ := right
  rw [devfsInit_eq driver empty, registerAll_eq single] at done
  obtain ⟨last, looped, same⟩ := Exec.bind_ok.mp done
  cases same
  exact ⟨fs', looped, devices⟩

theorem DevicesRight.flat (right : DevicesRight fresh entries fs)
    (canonical : CanonicalMountpoint fs.mntpoint) (driver : fs.driver = .devfs)
    (empty : fs.vnodeLl = []) (single : ∀ entry ∈ entries, SingleComponent entry.name) :
    ∃ files : List VirtualNode, files.map VirtualNode.name =
        (entries.filter fun entry => entry.Fits fs.mntpoint).map (fun entry => trimDot entry.name) ∧
      ∀ entry ∈ entries, ∃ vnode, files.find? (fun file => file.name = trimDot entry.name) = some vnode ∧
        vnode.ops = .registered entry.ops := by
  obtain ⟨fs', looped, devices⟩ := right.run driver empty single
  obtain ⟨root, files, flat, same, names⟩ :=
    (@attached_init fs fresh canonical driver).ready.run_names single looped
  refine ⟨files, names, fun entry inside => ?_⟩
  obtain ⟨vnode, found, ops, -⟩ := devices entry inside
  exact ⟨vnode, (flat.lookup_device canonical same (single entry inside)).mp found, ops⟩

/-- Entries of given names. -/
def entriesOf (ops : List Byte → Nat) (names : List (List Byte)) : List DevFSEntry :=
  names.map fun name => ⟨name, 0, 0, 0, ops name, 0⟩

end Devices

end Dxgmx
