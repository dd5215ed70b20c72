import Dxgmx.Fs.Devfs
import Dxgmx.Fs.FileLookup
import Dxgmx.Library.Runs

open Library

namespace Dxgmx

/-- The calls that make and remove the files of a ramfs. -/
inductive RamfsCall
  | mkfile (mem : MkfileMem) (fresh : VirtualNodeRef) (dir : Option VirtualNodeRef) (name : List Byte)
      (mode uid gid : BitVec 32)
  | rmnode (vnode : VirtualNode)

def RamfsCall.run (fs : FileSystem) : RamfsCall → Exec (Except Int Nat × FileSystem)
  | .mkfile mem fresh dir name mode uid gid => ramfsMkfile mem fresh dir name mode uid gid fs
  | .rmnode vnode => do
    let fs ← ramfsRmnode vnode fs
    pure (.ok vnode.n, fs)

/-- A vnode is made at an address that no other has; what is removed is a regular file of the ramfs. -/
def RamfsCall.Allowed (fs : FileSystem) : RamfsCall → Prop
  | .mkfile _ fresh _ _ _ _ _ => ∀ vnode ∈ fs.vnodeLl, vnode.addr ≠ fresh
  | .rmnode vnode => vnode ∈ fs.vnodeLl ∧ ¬ vnode.IsDir

/-- A file is made where all files from the cursor on are used, and there is memory for more. -/
def RamfsCall.Grows (fs : FileSystem) : RamfsCall → Prop
  | .mkfile mem _ _ _ _ _ _ => mem.vnode = true ∧ mem.files = true ∧
      ∃ ctx, fs.driverCtx = some ctx ∧ false ∉ ctx.files.drop ctx.fileCursor
  | .rmnode _ => False

def RamfsStep (fs : FileSystem) (call : RamfsCall) (fs' : FileSystem) : Prop :=
  call.Allowed fs ∧ ∃ res, call.run fs = .ok (res, fs')

/-- The vnodes have inodes of their own, and a file is used exactly if a vnode has its inode. -/
structure InodesRight (files : List Bool) (vnodes : List VirtualNode) : Prop where
  distinct : (vnodes.map VirtualNode.n).Nodup
  inside : ∀ vnode ∈ vnodes, 1 ≤ vnode.n ∧ vnode.n ≤ files.length
  used : ∀ i, files[i]? = some true ↔ ∃ vnode ∈ vnodes, vnode.n = i + 1

def FileSystem.RamfsRight (fs : FileSystem) : Prop :=
  ∃ ctx, fs.driverCtx = some ctx ∧ InodesRight ctx.files fs.vnodeLl

/-- A call that ends in a state that is right, and leaves the files as they were if it fails. -/
structure RamfsCallRight (fs : FileSystem) (call : RamfsCall) (fs' : FileSystem) : Prop where
  right : fs'.RamfsRight
  failed : ∀ st, call.run fs = .ok (.error st, fs') → fs'.vnodeLl = fs.vnodeLl ∧
    fs'.driverCtx.map RamFsMetadata.files = fs.driverCtx.map RamFsMetadata.files

/-- What every call keeps, whether it is right or not. -/
structure CursorTracks (ctx : RamFsMetadata) (vnodes : List VirtualNode) : Prop where
  addrs : (vnodes.map VirtualNode.addr).Nodup
  inside : ∀ vnode ∈ vnodes, 1 ≤ vnode.n ∧ vnode.n ≤ ctx.files.length
  cursor : ctx.fileCursor ≤ ctx.files.length
  last : ctx.fileCursor = ctx.files.length → ctx.files[ctx.fileCursor - 1]? = some true

def FileSystem.CursorTracks (fs : FileSystem) : Prop :=
  ∃ ctx, fs.driverCtx = some ctx ∧ Dxgmx.CursorTracks ctx fs.vnodeLl

section Find

theorem ramfsFindLoop_some {idx found : Nat} {files : List Bool}
    (h : ramfsFindLoop idx files = some found) :
    ∃ i, found = idx + i ∧ files[i]? = some false := by
  induction files generalizing idx with
  | nil => cases h
  | cons used rest ih =>
    unfold ramfsFindLoop at h
    cases used with
    | true =>
      obtain ⟨i, rfl, free⟩ := ih h
      exact ⟨i + 1, by omega, free⟩
    | false =>
      cases h
      exact ⟨0, rfl, rfl⟩

theorem ramfsFindLoop_none {idx : Nat} {files : List Bool} :
    ramfsFindLoop idx files = none ↔ false ∉ files := by
  induction files generalizing idx with
  | nil => simp [ramfsFindLoop]
  | cons used rest ih =>
    unfold ramfsFindLoop
    cases used with
    | true => simpa using ih
    | false => simp

end Find

section Slots

variable {files : List Bool} {vnodes : List VirtualNode} {vnode : VirtualNode} {idx : Nat}

theorem InodesRight.take (right : InodesRight files vnodes) (free : files[idx]? = some false)
    (inode : vnode.n = idx + 1) : InodesRight (files.set idx true) (vnodes ++ [vnode]) where
  distinct := by
    rw [List.map_append, List.map_singleton, ← List.concat_eq_append]
    apply right.distinct.concat
    intro member
    obtain ⟨other, there, same⟩ := List.mem_map.mp member
    have used := (right.used idx).mpr ⟨other, there, same.trans inode⟩
    rw [free] at used
    cases used
  inside := by
    have inBlock : idx < files.length := (List.getElem?_eq_some_iff.mp free).1
    intro other member
    rw [List.length_set]
    rcases List.mem_append.mp member with old | new
    · exact right.inside other old
    · rw [List.mem_singleton.mp new, inode]
      omega
  used := by
    intro i
    rw [List.getElem?_set]
    have inBlock : idx < files.length := (List.getElem?_eq_some_iff.mp free).1
    by_cases same : idx = i
    · rw [if_pos same, ← same, if_pos inBlock]
      exact iff_of_true rfl ⟨vnode, List.mem_append_right _ (List.mem_singleton_self _), inode⟩
    · rw [if_neg same, right.used i]
      constructor
      · rintro ⟨other, there, its⟩
        exact ⟨other, List.mem_append_left _ there, its⟩
      · rintro ⟨other, there, its⟩
        rcases List.mem_append.mp there with old | new
        · exact ⟨other, old, its⟩
        · rw [List.mem_singleton.mp new, inode] at its
          omega

theorem InodesRight.release (right : InodesRight files vnodes)
    (addrs : (vnodes.map VirtualNode.addr).Nodup) (member : vnode ∈ vnodes) :
    InodesRight (files.set (vnode.n - 1) false)
      (vnodes.eraseP fun old => old.addr = vnode.addr) where
  distinct := right.distinct.sublist (List.eraseP_sublist.map _)
  inside := by
    intro other there
    rw [List.length_set]
    exact right.inside other ((mem_eraseP_addr addrs _ other).mp there).1
  used := by
    obtain ⟨one, inBlock⟩ := right.inside vnode member
    intro i
    rw [List.getElem?_set]
    by_cases same : vnode.n - 1 = i
    · rw [if_pos same, if_pos (by omega)]
      refine iff_of_false (by simp) ?_
      rintro ⟨other, there, its⟩
      obtain ⟨old, differs⟩ := (mem_eraseP_addr addrs _ other).mp there
      have sameInode : other.n = vnode.n := by omega
      exact differs (congrArg _ (List.inj_on_of_nodup_map right.distinct old member sameInode))
    · rw [if_neg same, right.used i]
      constructor
      · rintro ⟨other, there, its⟩
        refine ⟨other, (mem_eraseP_addr addrs _ other).mpr ⟨there, fun sameAddr => ?_⟩, its⟩
        cases List.inj_on_of_nodup_map addrs there member sameAddr
        omega
      · rintro ⟨other, there, its⟩
        exact ⟨other, ((mem_eraseP_addr addrs _ other).mp there).1, its⟩

end Slots

section Steps

variable {ctx : RamFsMetadata} {fs fs' : FileSystem} {mem : MkfileMem} {fresh : VirtualNodeRef}
  {dir : Option VirtualNodeRef} {name : List Byte} {mode uid gid : BitVec 32} {res : Except Int Nat}

/-- What `ramfs_mkfile` can do: fail, take a file that is not used, or make the block larger and give
    the file before it again. -/
theorem ramfsMkfile_cases (here : fs.driverCtx = some ctx)
    (unused : ∀ vnode ∈ fs.vnodeLl, vnode.addr ≠ fresh)
    (h : ramfsMkfile mem fresh dir name mode uid gid fs = .ok (res, fs')) :
    (∃ cursor, res = .error (-12) ∧ (mem.vnode = false ∨ mem.files = false) ∧
        fs' = { fs with driverCtx := some { ctx with fileCursor := cursor } } ∧
        (cursor = ctx.fileCursor ∨
          cursor = max ctx.fileCursor ctx.files.length ∧ false ∉ ctx.files.drop ctx.fileCursor)) ∨
      (∃ idx, ctx.files[idx]? = some false ∧ ctx.fileCursor ≤ idx ∧ res = .ok (idx + 1) ∧
        fs' = fs.withVnode (some ⟨ctx.files.set idx true, idx + 1⟩)
          ⟨fresh, name, idx + 1, 0, mode, 0, false, dir, uid, gid, .driver fs.driver, 0⟩) ∨
      (mem.vnode = true ∧ mem.files = true ∧ false ∉ ctx.files.drop ctx.fileCursor ∧
        ∃ last, last = max ctx.fileCursor ctx.files.length ∧ res = .ok last ∧
          fs' = fs.withVnode
            (some ⟨(ctx.files ++ List.replicate ctx.files.length false).set (last - 1) true, last⟩)
            ⟨fresh, name, last, 0, mode, 0, false, dir, uid, gid, .driver fs.driver, 0⟩) := by
  unfold ramfsMkfile fsNewVnodeCache at h
  rw [here] at h
  dsimp only at h
  by_cases noVnode : mem.vnode = false
  · rw [if_pos noVnode] at h
    cases h
    exact .inl ⟨ctx.fileCursor, rfl, .inl noVnode, by rw [← here], .inl rfl⟩
  rw [if_neg noVnode] at h
  dsimp only at h
  have stored := fun n => @map_concat_fresh fs.vnodeLl
    ⟨fresh, name, 0, 0, 0, 0, false, none, 0, 0, .driver fs.driver, 0⟩
    ⟨fresh, name, n, 0, mode, 0, false, dir, uid, gid, .driver fs.driver, 0⟩ rfl unused
  unfold ramfsFindNextAvailFd at h
  cases found : ramfsFindLoop ctx.fileCursor (ctx.files.drop ctx.fileCursor) with
  | some idx =>
    rw [found] at h
    cases h
    obtain ⟨i, rfl, free⟩ := ramfsFindLoop_some found
    rw [List.getElem?_drop] at free
    refine .inr (.inl ⟨ctx.fileCursor + i, free, by omega, rfl, ?_⟩)
    unfold FileSystem.setVnode FileSystem.withVnode
    rw [← stored, Nat.add_sub_cancel, List.set_set]
  | none =>
    rw [found] at h
    have none_ := ramfsFindLoop_none.mp found
    dsimp only at h
    by_cases noFiles : mem.files = false
    · rw [if_pos noFiles] at h
      cases h
      refine .inl ⟨_, rfl, .inr noFiles, ?_, .inr ⟨rfl, none_⟩⟩
      have erased := @eraseP_concat_fresh fs.vnodeLl
        ⟨fresh, name, 0, 0, 0, 0, false, none, 0, 0, .driver fs.driver, 0⟩ unused
      unfold fsFreeCachedVnode
      dsimp only at erased ⊢
      rw [erased]
    · rw [if_neg noFiles] at h
      cases h
      refine .inr (.inr ⟨by simpa using noVnode, by simpa using noFiles, none_, _, rfl, rfl, ?_⟩)
      unfold FileSystem.setVnode FileSystem.withVnode
      rw [← stored]

theorem ramfsRmnode_ok {vnode : VirtualNode} (here : fs.driverCtx = some ctx)
    (h : ramfsRmnode vnode fs = .ok fs') :
    fs' = { fs with
      driverCtx := some ⟨ctx.files.set (vnode.n - 1) false, vnode.n - 1⟩
      vnodeLl := fs.vnodeLl.eraseP fun old => old.addr = vnode.addr } := by
  unfold ramfsRmnode at h
  rw [here] at h
  dsimp only at h
  split at h
  · cases h
  · cases h
    rfl

theorem max_cursor (tracks : CursorTracks ctx fs.vnodeLl) :
    max ctx.fileCursor ctx.files.length = ctx.files.length := max_eq_right tracks.cursor

/-- Where the search finds nothing, the last file is used. -/
theorem CursorTracks.last_used (tracks : CursorTracks ctx fs.vnodeLl)
    (full : false ∉ ctx.files.drop ctx.fileCursor) :
    0 < ctx.files.length ∧ ctx.files[ctx.files.length - 1]? = some true := by
  by_cases atEnd : ctx.fileCursor = ctx.files.length
  · have used := tracks.last atEnd
    rw [atEnd] at used
    refine ⟨?_, used⟩
    have inBlock := (List.getElem?_eq_some_iff.mp used).1
    omega
  · have before := tracks.cursor
    have inBlock : ctx.files.length - 1 < ctx.files.length := by omega
    refine ⟨by omega, ?_⟩
    rw [List.getElem?_eq_getElem inBlock]
    by_contra unused
    apply full
    have free : ctx.files[ctx.files.length - 1] = false := by simpa using unused
    rw [← free]
    apply List.mem_of_getElem? (i := ctx.files.length - 1 - ctx.fileCursor)
    rw [List.getElem?_drop, ← List.getElem?_eq_getElem inBlock]
    congr 1
    omega

theorem CursorTracks.made (tracks : CursorTracks ctx fs.vnodeLl) {files : List Bool} {cursor : Nat}
    {vnode : VirtualNode} (unused : ∀ other ∈ fs.vnodeLl, other.addr ≠ vnode.addr)
    (longer : ctx.files.length ≤ files.length) (inside : 1 ≤ vnode.n ∧ vnode.n ≤ files.length)
    (cursorInside : cursor ≤ files.length)
    (last : cursor = files.length → files[cursor - 1]? = some true) :
    CursorTracks ⟨files, cursor⟩ (fs.vnodeLl ++ [vnode]) where
  addrs := nodup_addr_concat tracks.addrs unused
  inside := by
    intro other member
    rcases List.mem_append.mp member with old | new
    · have its := tracks.inside other old
      exact ⟨its.1, Nat.le_trans its.2 longer⟩
    · rw [List.mem_singleton.mp new]
      exact inside
  cursor := cursorInside
  last := last

theorem CursorTracks.mkfile (tracks : CursorTracks ctx fs.vnodeLl) (here : fs.driverCtx = some ctx)
    (unused : ∀ vnode ∈ fs.vnodeLl, vnode.addr ≠ fresh)
    (h : ramfsMkfile mem fresh dir name mode uid gid fs = .ok (res, fs')) : fs'.CursorTracks := by
  obtain ⟨cursor, -, -, rfl, moved⟩ | ⟨idx, free, ahead, -, rfl⟩ |
    ⟨-, -, full, last, isLast, -, rfl⟩ := ramfsMkfile_cases here unused h
  · refine ⟨_, rfl, tracks.addrs, tracks.inside, ?_, ?_⟩
    · rcases moved with rfl | ⟨rfl, -⟩
      · exact tracks.cursor
      · exact Nat.le_of_eq (max_cursor tracks)
    · intro atEnd
      rcases moved with rfl | ⟨rfl, full⟩
      · exact tracks.last atEnd
      · dsimp only
        rw [max_cursor tracks]
        exact (tracks.last_used full).2
  · have inBlock : idx < ctx.files.length := (List.getElem?_eq_some_iff.mp free).1
    refine ⟨_, rfl, tracks.made unused ?_ ?_ ?_ ?_⟩ <;> rw [List.length_set]
    · exact ⟨Nat.succ_pos idx, inBlock⟩
    · exact inBlock
    · intro _
      rw [Nat.add_sub_cancel, List.getElem?_set_self inBlock]
  · obtain ⟨some_, used⟩ := tracks.last_used full
    rw [max_cursor tracks] at isLast
    have twice : ((ctx.files ++ List.replicate ctx.files.length false).set (last - 1) true).length =
        ctx.files.length + ctx.files.length := by simp
    refine ⟨_, rfl, tracks.made unused ?_ ?_ ?_ ?_⟩ <;> rw [twice]
    · omega
    · dsimp only
      omega
    · omega
    · omega

theorem CursorTracks.rmnode {vnode : VirtualNode} (tracks : CursorTracks ctx fs.vnodeLl)
    (here : fs.driverCtx = some ctx) (member : vnode ∈ fs.vnodeLl)
    (h : ramfsRmnode vnode fs = .ok fs') : fs'.CursorTracks := by
  have inside := tracks.inside vnode member
  cases ramfsRmnode_ok here h
  refine ⟨_, rfl, tracks.addrs.sublist (List.eraseP_sublist.map _), ?_, ?_, ?_⟩
  · intro other there
    rw [List.length_set]
    exact tracks.inside other ((mem_eraseP_addr tracks.addrs _ other).mp there).1
  · rw [List.length_set]
    dsimp only
    omega
  · rw [List.length_set]
    dsimp only
    omega

theorem RamfsStep.tracks {call : RamfsCall} (step : RamfsStep fs call fs') (tracks : fs.CursorTracks) :
    fs'.CursorTracks := by
  obtain ⟨ctx, here, tracks⟩ := tracks
  obtain ⟨allowed, res, h⟩ := step
  cases call with
  | mkfile mem fresh dir name mode uid gid => exact tracks.mkfile here allowed h
  | rmnode vnode =>
    obtain ⟨fs'', removed, same⟩ := Exec.bind_ok.mp h
    cases same
    exact tracks.rmnode here allowed.1 removed

/-- A call on a state that is right leaves it right, unless the block grows: the vnode that is made
    then gets the inode of the last file, which is another one's. -/
theorem RamfsStep.right {call : RamfsCall} (step : RamfsStep fs call fs') (tracks : fs.CursorTracks)
    (right : fs.RamfsRight) : fs'.RamfsRight ↔ ¬ call.Grows fs := by
  obtain ⟨ctx, here, tracks⟩ := tracks
  obtain ⟨ctx', here', right⟩ := right
  cases here.symm.trans here'
  obtain ⟨allowed, res, h⟩ := step
  cases call with
  | rmnode vnode =>
    obtain ⟨fs'', removed, same⟩ := Exec.bind_ok.mp h
    cases same
    cases ramfsRmnode_ok here removed
    exact iff_of_true ⟨_, rfl, right.release tracks.addrs allowed.1⟩ not_false
  | mkfile mem fresh dir name mode uid gid =>
    obtain ⟨cursor, -, short, rfl, -⟩ | ⟨idx, free, ahead, -, rfl⟩ |
      ⟨vnodeMem, filesMem, full, last, isLast, -, rfl⟩ := ramfsMkfile_cases here allowed h
    · refine iff_of_true ⟨_, rfl, right⟩ ?_
      rintro ⟨vnodeMem, filesMem, -⟩
      rw [vnodeMem, filesMem] at short
      simp at short
    · refine iff_of_true ⟨_, rfl, right.take free rfl⟩ ?_
      rintro ⟨-, -, other, there, full⟩
      cases here.symm.trans there
      apply full
      apply List.mem_of_getElem? (i := idx - ctx.fileCursor)
      rw [List.getElem?_drop, ← free]
      congr 1
      omega
    · refine iff_of_false ?_ (not_not_intro ⟨vnodeMem, filesMem, ctx, here, full⟩)
      rintro ⟨other, there, after⟩
      obtain ⟨some_, used⟩ := tracks.last_used full
      rw [max_cursor tracks] at isLast
      obtain ⟨holder, member, inode⟩ := (right.used (ctx.files.length - 1)).mp used
      have distinct := after.distinct
      unfold FileSystem.withVnode at distinct
      dsimp only at distinct
      rw [List.map_append, List.nodup_append] at distinct
      exact distinct.2.2 holder.n (List.mem_map_of_mem member) last (by simp) (by omega)

theorem RamfsStep.failed {call : RamfsCall} (step : RamfsStep fs call fs') (tracks : fs.CursorTracks)
    {st : Int} (h : call.run fs = .ok (.error st, fs')) : fs'.vnodeLl = fs.vnodeLl ∧
      fs'.driverCtx.map RamFsMetadata.files = fs.driverCtx.map RamFsMetadata.files := by
  obtain ⟨ctx, here, -⟩ := tracks
  cases call with
  | rmnode vnode =>
    obtain ⟨fs'', removed, same⟩ := Exec.bind_ok.mp h
    cases same
  | mkfile mem fresh dir name mode uid gid =>
    obtain ⟨cursor, -, -, rfl, -⟩ | ⟨idx, -, -, made, -⟩ | ⟨-, -, -, last, -, made, -⟩ :=
      ramfsMkfile_cases here step.1 h
    · rw [here]
      exact ⟨rfl, rfl⟩
    · cases made
    · cases made

end Steps

theorem ramfsInit_right {mem : RamfsMem} {fresh : VirtualNodeRef} {fs fs' : FileSystem}
    (empty : fs.vnodeLl = []) (h : ramfsInit mem fresh fs = .ok (0, fs')) :
    fs'.CursorTracks ∧ fs'.RamfsRight := by
  unfold ramfsInit at h
  split at h
  · cases h
  split at h
  · cases h
  obtain ⟨⟨res, made⟩, mkfile, rest⟩ := Exec.bind_ok.mp h
  have tracks : FileSystem.CursorTracks
      { fs with driverCtx := some ⟨List.replicate 8 false, 0⟩ } := by
    refine ⟨_, rfl, ?_, ?_, by decide, by decide⟩
    · rw [show fs.vnodeLl = [] from empty]
      exact .nil
    · rw [show fs.vnodeLl = [] from empty]
      nofun
  have right : FileSystem.RamfsRight
      { fs with driverCtx := some ⟨List.replicate 8 false, 0⟩ } := by
    refine ⟨_, rfl, ?_, ?_, fun i => ?_⟩
    · rw [show fs.vnodeLl = [] from empty]
      exact .nil
    · rw [show fs.vnodeLl = [] from empty]
      nofun
    · rw [show fs.vnodeLl = [] from empty]
      refine iff_of_false (fun used => ?_) (by simp)
      have there := List.mem_of_getElem? used
      simp at there
  have step : RamfsStep { fs with driverCtx := some ⟨List.replicate 8 false, 0⟩ }
      (.mkfile mem.root fresh none [slash] ramfsDirMode 0 0) made := by
    refine ⟨?_, res, mkfile⟩
    show ∀ vnode ∈ fs.vnodeLl, vnode.addr ≠ fresh
    rw [empty]
    nofun
  have free : ¬ (RamfsCall.mkfile mem.root fresh none [slash] ramfsDirMode 0 0).Grows
      { fs with driverCtx := some ⟨List.replicate 8 false, 0⟩ } := by
    rintro ⟨-, -, ctx, here, full⟩
    cases here
    exact full (by decide)
  have after := step.tracks tracks
  have after' := (step.right tracks right).mpr free
  cases res with
  | error st =>
    have returned : st = 0 := congrArg Prod.fst (Except.ok.inj rest)
    obtain ⟨cursor, failed, -⟩ | ⟨idx, -, -, ok, -⟩ | ⟨-, -, -, last, -, ok, -⟩ :=
      ramfsMkfile_cases rfl step.1 mkfile
    · cases failed
      cases returned
    · cases ok
    · cases ok
  | ok n =>
    cases rest
    exact ⟨after, after'⟩

/-- After `ramfs_init`, the runs of calls in which the block never grows are the runs that are right
    after every call. -/
theorem ramfsFiles_right_iff (mem : RamfsMem) (fresh : VirtualNodeRef) (fs start fs' : FileSystem)
    (calls : List RamfsCall) (empty : fs.vnodeLl = [])
    (init : ramfsInit mem fresh fs = .ok (0, start)) :
    (Run (fun s call t => RamfsStep s call t ∧ ¬ call.Grows s) start calls fs' → fs'.RamfsRight) ∧
      (Run (fun s call t => RamfsStep s call t ∧ ¬ call.Grows s) start calls fs' ↔
        Run (fun s call t => RamfsStep s call t ∧ RamfsCallRight s call t) start calls fs') := by
  obtain ⟨tracks, right⟩ := ramfsInit_right empty init
  obtain ⟨kept, same⟩ := @Run.good_iff _ _ RamfsStep FileSystem.CursorTracks FileSystem.RamfsRight
    (fun s call => ¬ call.Grows s) (fun _ _ _ step => step.tracks) (fun _ _ _ step => step.right)
    start fs' calls tracks right
  refine ⟨kept, same.trans ⟨fun run => ?_, fun run => run.mono ?_⟩⟩
  · refine (run.strengthen FileSystem.CursorTracks (fun _ _ _ step => step.1.tracks) tracks).mono ?_
    rintro s call t ⟨⟨step, right⟩, before, -⟩
    exact ⟨step, right, fun st failed => step.failed before failed⟩
  · exact fun s call t both => ⟨both.1, both.2.right⟩

instance (fs : FileSystem) (call : RamfsCall) : Decidable (call.Allowed fs) :=
  match call with
  | .mkfile _ fresh _ _ _ _ _ =>
    inferInstanceAs (Decidable (∀ vnode ∈ fs.vnodeLl, vnode.addr ≠ fresh))
  | .rmnode vnode => inferInstanceAs (Decidable (vnode ∈ fs.vnodeLl ∧ ¬ vnode.IsDir))

def ramfsReplay (fs : FileSystem) (call : RamfsCall) : Option FileSystem :=
  if call.Allowed fs then (call.run fs).toOption.map Prod.snd else none

theorem ramfsReplay_step {fs fs' : FileSystem} {call : RamfsCall}
    (done : ramfsReplay fs call = some fs') : RamfsStep fs call fs' := by
  unfold ramfsReplay at done
  split at done
  · rename_i allowed
    cases result : call.run fs with
    | error stop =>
      rw [result] at done
      cases done
    | ok made =>
      rw [result] at done
      cases done
      exact ⟨allowed, made.1, result⟩
  · cases done

/-- A ramfs before `ramfs_init`. -/
def newRamfs : FileSystem := ⟨1, [0x74, 0x6d, 0x70], [slash], .ramfs, none, []⟩

def newRamfsRoot : VirtualNode :=
  ⟨2, [slash], 1, 0, ramfsDirMode, 0, false, none, 0, 0, .driver .ramfs, 0⟩

/-- And behind it. -/
def initRamfs : FileSystem :=
  { newRamfs with driverCtx := some ⟨true :: List.replicate 7 false, 1⟩, vnodeLl := [newRamfsRoot] }

theorem ramfsInit_new : ramfsInit ⟨true, true, ⟨true, true⟩⟩ 2 newRamfs = .ok (0, initRamfs) := by
  rfl

def letterVnode (addr n : Nat) (letter : Byte) : VirtualNode :=
  ⟨addr, [letter], n, 0, 0x8000, 0, false, some 2, 0, 0, .driver .ramfs, 0⟩

def makeLetter (addr : Nat) (letter : Byte) : RamfsCall :=
  .mkfile ⟨true, true⟩ addr (some 2) [letter] 0x8000 0 0

def withLetter (vnode : VirtualNode) : FileSystem :=
  { initRamfs with
    driverCtx := some ⟨true :: true :: List.replicate 6 false, 2⟩
    vnodeLl := [newRamfsRoot, vnode] }

/-- Make a file, remove it and make another. -/
def makeAgain : List RamfsCall :=
  [makeLetter 3 0x61, .rmnode (letterVnode 3 2 0x61), makeLetter 4 0x62]

theorem ramfsFiles_right_again : (withLetter (letterVnode 4 2 0x62)).RamfsRight ∧
    Run (fun s call t => RamfsStep s call t ∧ RamfsCallRight s call t) initRamfs makeAgain
      (withLetter (letterVnode 4 2 0x62)) := by
  have free : ∀ addr letter, ¬ (makeLetter addr letter).Grows initRamfs := by
    rintro addr letter ⟨-, -, ctx, here, full⟩
    cases here
    exact full (by decide)
  have made : RamfsStep initRamfs (makeLetter 3 0x61) (withLetter (letterVnode 3 2 0x61)) :=
    ramfsReplay_step rfl
  have removed : RamfsStep (withLetter (letterVnode 3 2 0x61)) (.rmnode (letterVnode 3 2 0x61))
      initRamfs := ramfsReplay_step rfl
  have madeAgain : RamfsStep initRamfs (makeLetter 4 0x62) (withLetter (letterVnode 4 2 0x62)) :=
    ramfsReplay_step rfl
  have run : Run (fun s call t => RamfsStep s call t ∧ ¬ call.Grows s) initRamfs makeAgain
      (withLetter (letterVnode 4 2 0x62)) :=
    (((Run.refl initRamfs).snoc ⟨made, free 3 0x61⟩).snoc ⟨removed, not_false⟩).snoc
      ⟨madeAgain, free 4 0x62⟩
  obtain ⟨right, same⟩ := ramfsFiles_right_iff ⟨true, true, ⟨true, true⟩⟩ 2 newRamfs initRamfs
    (withLetter (letterVnode 4 2 0x62)) makeAgain rfl ramfsInit_new
  exact ⟨right run, same.mp run⟩

/-- Eight files besides the root: the last two have the same inode. -/
def eightLetters : List RamfsCall :=
  (List.range 8).map fun i => makeLetter (3 + i) (BitVec.ofNat 8 (0x61 + i))

theorem not_ramfsRight_eightLetters :
    ramfsInit ⟨true, true, ⟨true, true⟩⟩ 2 newRamfs = .ok (0, initRamfs) ∧
      ∃ fs', Run RamfsStep initRamfs eightLetters fs' ∧
        fs'.vnodeLl.map VirtualNode.n = [1, 2, 3, 4, 5, 6, 7, 8, 8] ∧ ¬ fs'.RamfsRight := by
  have inodes : (eightLetters.foldlM ramfsReplay initRamfs).map
      (fun fs => fs.vnodeLl.map VirtualNode.n) = some [1, 2, 3, 4, 5, 6, 7, 8, 8] := by
    decide
  obtain ⟨fs', replayed, inodes⟩ := Option.map_eq_some_iff.mp inodes
  have run := (Run.of_foldlM ramfsReplay replayed).mono fun _ _ _ => ramfsReplay_step
  refine ⟨ramfsInit_new, fs', run, inodes, ?_⟩
  rintro ⟨ctx, -, right⟩
  have distinct := right.distinct
  rw [inodes] at distinct
  exact absurd distinct (by decide)

end Dxgmx
