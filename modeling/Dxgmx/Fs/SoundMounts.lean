import Dxgmx.Fs.MountedFiles
import Dxgmx.Fs.PathSpelling
import Dxgmx.Fs.VnodeTree

open Library

namespace Dxgmx

/-- Each file system and each vnode has a block of its own. -/
structure Mounts.Apart (mounts : Mounts) : Prop where
  distinct : mounts.Distinct
  nodup : (mounts.vnodes.map VirtualNode.addr).Nodup
  allocated : ∀ vnode ∈ mounts.vnodes, vnode.addr < mounts.fresh

variable {mounts mounts' : Mounts}

theorem mem_vnodes {vnode : VirtualNode} :
    vnode ∈ mounts.vnodes ↔ ∃ fs ∈ mounts.filesystems, vnode ∈ fs.vnodeLl := List.mem_flatMap

theorem Mounts.Apart.eq (apart : mounts.Apart) {vnode other : VirtualNode}
    (member : vnode ∈ mounts.vnodes) (there : other ∈ mounts.vnodes)
    (same : vnode.addr = other.addr) : vnode = other :=
  List.inj_on_of_nodup_map apart.nodup member there same

theorem Mounts.Apart.vnode (apart : mounts.Apart) {addr : VirtualNodeRef} {vnode : VirtualNode} :
    mounts.vnode addr = some vnode ↔ vnode ∈ mounts.vnodes ∧ vnode.addr = addr :=
  find?_addr apart.nodup

theorem setVnode_vnodes (vnode : VirtualNode) :
    (mounts.setVnode vnode).vnodes =
      mounts.vnodes.map fun old => if old.addr = vnode.addr then vnode else old := by
  unfold Mounts.vnodes Mounts.setVnode
  rw [List.flatMap_map, List.map_flatMap]
  rfl

theorem mem_setVnode {vnode other : VirtualNode} (there : ∃ old ∈ mounts.vnodes, old.addr = vnode.addr) :
    other ∈ (mounts.setVnode vnode).vnodes ↔
      other = vnode ∨ other ∈ mounts.vnodes ∧ other.addr ≠ vnode.addr := by
  rw [setVnode_vnodes, List.mem_map]
  constructor
  · rintro ⟨old, member, rfl⟩
    by_cases same : old.addr = vnode.addr
    · rw [if_pos same]
      exact .inl rfl
    · rw [if_neg same]
      exact .inr ⟨member, same⟩
  · rintro (rfl | ⟨member, different⟩)
    · obtain ⟨old, member, same⟩ := there
      exact ⟨old, member, if_pos same⟩
    · exact ⟨other, member, if_neg different⟩

theorem mem_setVnode_self {vnode vnode' : VirtualNode} (inside : vnode ∈ mounts.vnodes)
    (same : vnode.addr = vnode'.addr) : vnode' ∈ (mounts.setVnode vnode').vnodes :=
  (mem_setVnode ⟨vnode, inside, same⟩).mpr (.inl rfl)

theorem Mounts.Distinct.setVnode (distinct : mounts.Distinct) (vnode : VirtualNode) :
    (mounts.setVnode vnode).Distinct := by
  constructor
  · show (List.map FileSystem.addr (List.map _ mounts.filesystems)).Nodup
    rw [List.map_map]
    exact distinct.nodup
  · intro fs member
    obtain ⟨old, there, rfl⟩ := List.mem_map.mp member
    exact distinct.allocated old there

theorem Mounts.Apart.setVnode (apart : mounts.Apart) (vnode : VirtualNode) :
    (mounts.setVnode vnode).Apart := by
  have addrs : (mounts.setVnode vnode).vnodes.map VirtualNode.addr =
      mounts.vnodes.map VirtualNode.addr := by
    rw [setVnode_vnodes, List.map_map]
    apply List.map_congr_left
    intro old member
    rw [Function.comp_apply]
    split
    · rename_i same
      exact same.symm
    · rfl
  constructor
  · exact apart.distinct.setVnode vnode
  · rw [addrs]
    exact apart.nodup
  · intro other member
    have there : other.addr ∈ mounts.vnodes.map VirtualNode.addr := by
      rw [← addrs]
      exact List.mem_map_of_mem member
    obtain ⟨old, inside, same⟩ := List.mem_map.mp there
    rw [← same]
    exact apart.allocated old inside

theorem mem_setFs {other fs' : FileSystem} (h : other ∈ (mounts.setFs fs').filesystems) :
    other = fs' ∨ other ∈ mounts.filesystems := by
  obtain ⟨old, member, rfl⟩ := List.mem_map.mp h
  split
  · exact .inl rfl
  · exact .inr member

theorem setFs_split (distinct : mounts.Distinct) {fs fs' : FileSystem}
    (member : fs ∈ mounts.filesystems) (same : fs'.addr = fs.addr) :
    ∃ before after, mounts.filesystems = before ++ fs :: after ∧
      (mounts.setFs fs').filesystems = before ++ fs' :: after := by
  obtain ⟨before, after, split⟩ := List.append_of_mem member
  refine ⟨before, after, split, ?_⟩
  have nodup := distinct.nodup
  rw [split, List.map_append, List.map_cons, List.nodup_middle, List.nodup_cons,
    ← List.map_append] at nodup
  have kept (list : List FileSystem) (inside : ∀ old ∈ list, old ∈ before ++ after) :
      list.map (fun old => if old.addr = fs'.addr then fs' else old) = list := by
    conv_rhs => rw [← List.map_id list]
    apply List.map_congr_left
    intro old here
    apply if_neg
    rw [same]
    exact fun equal => nodup.1 (List.mem_map.mpr ⟨old, inside old here, equal⟩)
  unfold Mounts.setFs
  rw [split, List.map_append, List.map_cons, if_pos same.symm,
    kept before fun old here => List.mem_append_left _ here,
    kept after fun old here => List.mem_append_right _ here]

theorem Mounts.Distinct.setFs (distinct : mounts.Distinct) {fs fs' : FileSystem}
    (member : fs ∈ mounts.filesystems) (same : fs'.addr = fs.addr) : (mounts.setFs fs').Distinct := by
  obtain ⟨before, after, split, set⟩ := setFs_split distinct member same
  have addrs : (mounts.setFs fs').filesystems.map FileSystem.addr =
      mounts.filesystems.map FileSystem.addr := by
    rw [set, split, List.map_append, List.map_append, List.map_cons, List.map_cons, same]
  constructor
  · rw [addrs]
    exact distinct.nodup
  · intro other inside
    have there : other.addr ∈ mounts.filesystems.map FileSystem.addr := by
      rw [← addrs]
      exact List.mem_map_of_mem inside
    obtain ⟨old, member, same⟩ := List.mem_map.mp there
    rw [← same]
    exact distinct.allocated old member

theorem vnodes_split {before after : List FileSystem} {fs : FileSystem}
    (split : mounts.filesystems = before ++ fs :: after) :
    mounts.vnodes = before.flatMap FileSystem.vnodeLl ++
      (fs.vnodeLl ++ after.flatMap FileSystem.vnodeLl) := by
  unfold Mounts.vnodes
  rw [split, List.flatMap_append, List.flatMap_cons]

theorem Mounts.Apart.mkfile (apart : mounts.Apart) {fs fs' : FileSystem}
    (member : fs ∈ mounts.filesystems) (same : fs.Same fs') {added : List VirtualNode}
    (grown : fs'.vnodeLl = fs.vnodeLl ++ added)
    (shape : added = [] ∨ ∃ vnode, added = [vnode] ∧ vnode.addr = mounts.fresh) :
    Mounts.Apart { mounts.setFs fs' with fresh := mounts.fresh + 1 } ∧
      ∀ vnode, vnode ∈ (mounts.setFs fs').vnodes ↔ vnode ∈ mounts.vnodes ∨ vnode ∈ added := by
  obtain ⟨before, after, split, set⟩ := setFs_split apart.distinct member same.addr
  have all : List.Perm (mounts.setFs fs').vnodes (mounts.vnodes ++ added) := by
    rw [vnodes_split split, vnodes_split set, grown]
    simp only [List.append_assoc]
    refine List.Perm.append_left _ (List.Perm.append_left _ ?_)
    exact List.perm_append_comm
  have spread (vnode : VirtualNode) :
      vnode ∈ (mounts.setFs fs').vnodes ↔ vnode ∈ mounts.vnodes ∨ vnode ∈ added := by
    rw [all.mem_iff, List.mem_append]
  refine ⟨⟨?_, ?_, ?_⟩, spread⟩
  · have set := apart.distinct.setFs member same.addr
    exact ⟨set.nodup, fun other inside => Nat.lt_succ_of_lt (set.allocated other inside)⟩
  · show ((mounts.setFs fs').vnodes.map VirtualNode.addr).Nodup
    rw [(all.map VirtualNode.addr).nodup_iff, List.map_append, List.nodup_append]
    refine ⟨apart.nodup, ?_, ?_⟩
    · rcases shape with rfl | ⟨vnode, rfl, -⟩
      · exact List.nodup_nil
      · exact List.nodup_singleton _
    · intro addr old other here
      obtain ⟨vnode, there, rfl⟩ := List.mem_map.mp old
      have below := apart.allocated vnode there
      rcases shape with rfl | ⟨fresh, rfl, placed⟩
      · cases here
      · rw [List.map_singleton, List.mem_singleton] at here
        rw [here, placed]
        exact Nat.ne_of_lt below
  · intro vnode inside
    rcases (spread vnode).mp inside with old | new
    · exact Nat.lt_succ_of_lt (apart.allocated vnode old)
    · rcases shape with rfl | ⟨fresh, rfl, placed⟩
      · cases new
      · rw [List.mem_singleton.mp new, placed]
        exact Nat.lt_succ_self _

theorem owner_some {addr : VirtualNodeRef} {fs : FileSystem} (found : mounts.owner addr = some fs) :
    fs ∈ mounts.filesystems ∧ ∃ vnode ∈ fs.vnodeLl, vnode.addr = addr := by
  unfold Mounts.owner at found
  have owned := List.find?_some found
  obtain ⟨held, there⟩ := Option.isSome_iff_exists.mp owned
  exact ⟨List.mem_of_find?_eq_some found, held, List.mem_of_find?_eq_some there,
    by simpa using List.find?_some there⟩

theorem rmnode_vnodes (apart : mounts.Apart) {vnode : VirtualNode}
    (h : mounts.rmnode vnode = .ok mounts') :
    mounts'.vnodes = mounts.vnodes.eraseP (fun other => other.addr = vnode.addr) ∧
      mounts'.Distinct ∧ mounts'.fresh = mounts.fresh ∧
      mounts'.removed = mounts.removed ++ [vnode] := by
  unfold Mounts.rmnode at h
  split at h
  · cases h
  · rename_i fs found
    obtain ⟨fs', removed, rest⟩ := Exec.bind_ok.mp h
    cases rest
    obtain ⟨same, erased⟩ := rmnode_ok removed
    obtain ⟨member, held, inside, named⟩ := owner_some found
    obtain ⟨before, after, split, set⟩ := setFs_split apart.distinct member same.addr
    have set' := apart.distinct.setFs member same.addr
    refine ⟨?_, ⟨set'.nodup, set'.allocated⟩, rfl, rfl⟩
    show (mounts.setFs fs').vnodes = _
    have nodup := apart.nodup
    rw [vnodes_split split, List.map_append, List.nodup_append] at nodup
    rw [vnodes_split split, vnodes_split set, erased, List.eraseP_append_right,
      List.eraseP_append_left (by simpa using named) _ inside]
    intro other earlier
    have apart := nodup.2.2 other.addr (List.mem_map_of_mem earlier) held.addr
      (List.mem_map_of_mem (List.mem_append_left _ inside))
    rw [named] at apart
    simpa using apart

theorem Mounts.Apart.rmnode (apart : mounts.Apart) {vnode : VirtualNode}
    (h : mounts.rmnode vnode = .ok mounts') :
    mounts'.Apart ∧ ∀ other, other ∈ mounts'.vnodes ↔
      other ∈ mounts.vnodes ∧ other.addr ≠ vnode.addr := by
  obtain ⟨erased, distinct, kept, -⟩ := rmnode_vnodes apart h
  have spread (other : VirtualNode) :
      other ∈ mounts'.vnodes ↔ other ∈ mounts.vnodes ∧ other.addr ≠ vnode.addr := by
    rw [erased, mem_eraseP_addr apart.nodup]
  refine ⟨⟨distinct, ?_, ?_⟩, spread⟩
  · rw [erased]
    exact apart.nodup.sublist (List.eraseP_sublist.map _)
  · intro other inside
    rw [kept]
    exact apart.allocated other ((spread other).mp inside).1

/-- A ramfs or devfs on every mountpoint, and one of them on `/`. -/
structure Mounts.Sound (mounts : Mounts) : Prop where
  apart : mounts.Apart
  rooted : ∃ fs ∈ mounts.filesystems, fs.mntpoint = [slash]
  each : ∀ fs ∈ mounts.filesystems, fs.Sound
variable {fs fs' : FileSystem}

theorem Mounts.Sound.owner (sound : mounts.Sound) {path : List Byte} (absolute : Absolute path) :
    ∃ fs ∈ mounts.filesystems, vfsTopmostFsForPath path mounts.filesystems = .ok fs ∧
      fs.mntpoint ≠ [] := by
  obtain ⟨root, member, atRoot⟩ := sound.rooted
  obtain ⟨rest, rfl⟩ := List.head?_eq_some_iff.mp absolute
  have starts : root.mntpoint <+: slash :: rest := by
    rw [atRoot]
    exact ⟨rest, rfl⟩
  obtain ⟨fs, found⟩ := vfsTopmostFsForPath_finds member starts
  have owner := vfsTopmostFsForPath_ok.mp found
  refine ⟨fs, owner.mem, found, fun none => ?_⟩
  have most := owner.le member starts
  rw [none, atRoot] at most
  exact absurd most (by decide)

theorem Mounts.Sound.setFs (sound : mounts.Sound) (member : fs ∈ mounts.filesystems)
    (after : fs'.Sound) (same : fs.Same fs') (apart : mounts'.Apart)
    (stored : mounts'.filesystems = (mounts.setFs fs').filesystems) : mounts'.Sound := by
  refine ⟨apart, ?_, fun other inside => ?_⟩
  · obtain ⟨root, there, atRoot⟩ := sound.rooted
    obtain ⟨before, after, split, set⟩ := setFs_split sound.apart.distinct member same.addr
    rw [split] at there
    rw [stored, set]
    rcases List.mem_append.mp there with earlier | there
    · exact ⟨root, List.mem_append_left _ earlier, atRoot⟩
    · rcases List.mem_cons.mp there with rfl | later
      · exact ⟨fs', List.mem_append_right _ List.mem_cons_self, same.mntpoint.trans atRoot⟩
      · exact ⟨root, List.mem_append_right _ (List.mem_cons_of_mem _ later), atRoot⟩
  · rw [stored] at inside
    rcases mem_setFs inside with rfl | old
    · exact after
    · exact sound.each other old

theorem Mounts.Sound.setVnode (sound : mounts.Sound) {vnode vnode' : VirtualNode}
    (inside : vnode ∈ mounts.vnodes) (same : vnode.Same vnode')
    (files : vnode'.pendingRm = true → ¬ vnode.IsDir) : (mounts.setVnode vnode').Sound := by
  refine ⟨sound.apart.setVnode vnode', ?_, fun other member => ?_⟩
  · obtain ⟨root, there, atRoot⟩ := sound.rooted
    exact ⟨_, List.mem_map_of_mem there, atRoot⟩
  · obtain ⟨fs, there, rfl⟩ := List.mem_map.mp member
    have only (old : VirtualNode) (own : old ∈ fs.vnodeLl) (equal : old.addr = vnode'.addr) :
        old = vnode :=
      sound.apart.eq (mem_vnodes.mpr ⟨fs, there, own⟩) inside (equal.trans same.addr)
    apply (sound.each fs there).map
    · intro old own
      split
      · rename_i equal
        rw [only old own equal]
        exact same
      · exact ⟨rfl, rfl, rfl, rfl⟩
    · intro old own pending
      split at pending
      · rename_i equal
        rw [only old own equal]
        exact files pending
      · exact (sound.each fs there).files old own pending

/-- Every file can be removed from the file systems that can make files. -/
theorem Mounts.Sound.rmnode (sound : mounts.Sound) {vnode : VirtualNode}
    (inside : vnode ∈ mounts.vnodes) (file : ¬ vnode.IsDir) :
    ∃ mounts', mounts.rmnode vnode = .ok mounts' ∧ mounts'.Sound := by
  obtain ⟨fs, member, own⟩ := mem_vnodes.mp inside
  have held : (fs.vnodeAt vnode.addr).isSome := by
    rw [(sound.each fs member).vnodeAt own]
    rfl
  have owned : (mounts.owner vnode.addr).isSome := by
    unfold Mounts.owner
    rw [List.find?_isSome]
    exact ⟨fs, member, held⟩
  obtain ⟨owner, found⟩ := Option.isSome_iff_exists.mp owned
  obtain ⟨there, held, own, same⟩ := owner_some found
  rw [sound.apart.eq (mem_vnodes.mpr ⟨owner, there, own⟩) inside same] at own
  have driven := sound.each owner there
  obtain ⟨ctx, initialized⟩ := Option.ne_none_iff_exists'.mp driven.initialized
  have removes : ∃ fs', owner.rmnode vnode = .ok fs' := by
    have removed : ∃ fs', ramfsRmnode vnode owner = .ok fs' := by
      unfold ramfsRmnode
      rw [initialized]
      dsimp only
      rw [if_neg file]
      exact ⟨_, rfl⟩
    unfold FileSystem.rmnode
    cases driver : owner.driver with
    | fatfs => exact absurd driver driven.makesFiles
    | ramfs => exact removed
    | devfs => exact removed
  obtain ⟨fs', removed⟩ := removes
  have done : mounts.rmnode vnode =
      .ok { mounts.setFs fs' with removed := mounts.removed ++ [vnode] } := by
    unfold Mounts.rmnode
    rw [found]
    dsimp only
    rw [removed]
    rfl
  refine ⟨_, done, ?_⟩
  have apart := (sound.apart.rmnode done).1
  obtain ⟨ctx', rfl⟩ := rmnode_erase removed
  exact sound.setFs there (driven.erase own file ctx' List.eraseP_sublist
    (mem_eraseP_addr driven.nodup vnode.addr)) ⟨rfl, rfl⟩ apart rfl

theorem Mounts.Sound.increase (sound : mounts.Sound) (addr : VirtualNodeRef) :
    (vnodeIncreaseRefcount addr mounts).Sound := by
  unfold vnodeIncreaseRefcount
  split
  · exact sound
  · rename_i vnode found
    obtain ⟨fs, member, own⟩ := mem_vnodes.mp (sound.apart.vnode.mp found).1
    exact sound.setVnode (mem_vnodes.mpr ⟨fs, member, own⟩) ⟨rfl, rfl, rfl, rfl⟩
      ((sound.each fs member).files vnode own)

end Dxgmx
