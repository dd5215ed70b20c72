import Dxgmx.Fs.VnodeReferences

open Library

namespace Dxgmx

/-- Vnodes that were cached since `low` was the next block, and that nobody used yet. -/
structure Cached (low fresh : Nat) (vnodes : List VirtualNode) : Prop where
  nodup : (vnodes.map VirtualNode.addr).Nodup
  placed : ∀ vnode ∈ vnodes, low ≤ vnode.addr ∧ vnode.addr < fresh
  unused : ∀ vnode ∈ vnodes, vnode.refCount = 0 ∧ vnode.pendingRm = false

theorem cached_cacheVnodes (fresh : Nat) (vnodes : List NewVnode) :
    Cached fresh (fresh + vnodes.length) (cacheVnodes fresh vnodes) := by
  constructor
  · have addrs : (cacheVnodes fresh vnodes).map VirtualNode.addr =
        (vnodes.zipIdx.map Prod.snd).map (fresh + ·) := by
      unfold cacheVnodes
      rw [List.map_map, List.map_map]
      rfl
    rw [addrs, List.zipIdx_map_snd]
    exact List.Nodup.map (fun _ _ same => Nat.add_left_cancel same) List.nodup_range'
  · intro vnode member
    obtain ⟨⟨new, i⟩, inside, rfl⟩ := List.mem_map.mp member
    have below := List.snd_lt_of_mem_zipIdx inside
    exact ⟨Nat.le_add_right _ _, Nat.add_lt_add_left (by simpa using below) _⟩
  · intro vnode member
    obtain ⟨⟨new, i⟩, inside, rfl⟩ := List.mem_map.mp member
    exact ⟨rfl, rfl⟩

variable {low fresh : Nat}

theorem cached_initFs {fs : FileSystem} (cached : Cached low fresh fs.vnodeLl) (after : low ≤ fresh)
    (init : FileSystem → InitAnswer) :
    Cached low (initFs init fresh fs).2.2 (initFs init fresh fs).2.1.vnodeLl := by
  have new := cached_cacheVnodes fresh (init fs).vnodes
  constructor
  · show ((fs.vnodeLl ++ _).map VirtualNode.addr).Nodup
    rw [List.map_append, List.nodup_append]
    refine ⟨cached.nodup, new.nodup, fun addr earlier other later => ?_⟩
    obtain ⟨old, member, rfl⟩ := List.mem_map.mp earlier
    obtain ⟨vnode, inside, rfl⟩ := List.mem_map.mp later
    exact Nat.ne_of_lt (Nat.lt_of_lt_of_le (cached.placed old member).2 (new.placed vnode inside).1)
  · intro vnode member
    rcases List.mem_append.mp member with old | here
    · have placed := cached.placed vnode old
      exact ⟨placed.1, Nat.lt_of_lt_of_le placed.2 (Nat.le_add_right _ _)⟩
    · have placed := new.placed vnode here
      exact ⟨Nat.le_trans after placed.1, placed.2⟩
  · intro vnode member
    rcases List.mem_append.mp member with old | here
    · exact cached.unused vnode old
    · exact new.unused vnode here

/-- Whatever the drivers probed, the file system that comes out has vnodes of its own. -/
theorem cached_vfsMountLoop (init : FileSystem → InitAnswer) (type : Option (List Byte))
    (drivers : List FileSystemDriver) {fs : FileSystem} (cached : Cached low fresh fs.vnodeLl)
    (after : low ≤ fresh) :
    Cached low (vfsMountLoop init type drivers fs fresh).2.2
      (vfsMountLoop init type drivers fs fresh).2.1.vnodeLl := by
  induction drivers generalizing fs fresh with
  | nil => exact cached
  | cons driver rest ih =>
    have here : Cached low fresh { fs with driver := driver }.vnodeLl := cached
    have probed := cached_initFs here after init
    cases type with
    | some safeType =>
      rw [vfsMountLoop]
      split
      · exact probed
      · exact ih here after
    | none =>
      rw [vfsMountLoop]
      dsimp only
      split
      · split
        · exact probed
        · exact ih probed (Nat.le_trans after (Nat.le_add_right _ _))
      · exact ih here after

/-- A mount adds a file system with unused vnodes, or leaves the table as it is. -/
theorem vfsMount_cases {mem : Bool} {drivers : List FileSystemDriver}
    {init : FileSystem → InitAnswer} {args : MountArgs} {mounts mounts' : Mounts} {st : Int}
    (called : vfsMount mem drivers init args mounts = (st, mounts')) :
    mounts'.removed = mounts.removed ∧ mounts.fresh ≤ mounts'.fresh ∧
      (mounts'.filesystems = mounts.filesystems ∨
        ∃ fs, mounts'.filesystems = mounts.filesystems ++ [fs] ∧ fs.addr = mounts.fresh ∧
          mounts.fresh < mounts'.fresh ∧ Cached (mounts.fresh + 1) mounts'.fresh fs.vnodeLl) := by
  unfold vfsMount at called
  split at called
  · cases called
    exact ⟨rfl, Nat.le_refl _, .inl rfl⟩
  · rename_i fs created
    split at called
    · cases called
      exact ⟨rfl, Nat.le_succ _, .inl rfl⟩
    · dsimp only at called
      have kept := vfsMountLoop_keeps init (args.type.bind Except.toOption) drivers fs
        (mounts.fresh + 1)
      have bare : fs.vnodeLl = [] := by
        unfold vfsNewFs at created
        split at created
        · cases created
        · split at created <;> cases created
          rfl
      have empty : Cached (mounts.fresh + 1) (mounts.fresh + 1) fs.vnodeLl := by
        rw [bare]
        exact ⟨List.nodup_nil, nofun, nofun⟩
      have cached := cached_vfsMountLoop init (args.type.bind Except.toOption) drivers empty
        (Nat.le_refl _)
      have placed := (vfsNewFs_ok created).1
      generalize vfsMountLoop init (args.type.bind Except.toOption) drivers fs
        (mounts.fresh + 1) = probed at called kept cached
      obtain ⟨st', fs', fresh'⟩ := probed
      dsimp only at called kept cached
      split at called
      · cases called
        exact ⟨rfl, Nat.le_of_succ_le kept.2.2.2, .inl rfl⟩
      · cases called
        exact ⟨rfl, Nat.le_of_succ_le kept.2.2.2,
          .inr ⟨fs', rfl, kept.1.trans placed, kept.2.2.2, cached⟩⟩

variable {mounts mounts' : Mounts} {count : VirtualNodeRef → Nat}

/-- A file system with vnodes of its own is mounted behind the others. -/
theorem Mounts.Apart.mount (apart : mounts.Apart) {fs : FileSystem}
    (added : mounts'.filesystems = mounts.filesystems ++ [fs]) (placed : fs.addr = mounts.fresh)
    (room : mounts.fresh < mounts'.fresh)
    (cached : Cached (mounts.fresh + 1) mounts'.fresh fs.vnodeLl) :
    mounts'.Apart ∧ mounts'.vnodes = mounts.vnodes ++ fs.vnodeLl := by
  have vnodes : mounts'.vnodes = mounts.vnodes ++ fs.vnodeLl := by
    unfold Mounts.vnodes
    rw [added, List.flatMap_append, List.flatMap_singleton]
  refine ⟨⟨⟨?_, ?_⟩, ?_, ?_⟩, vnodes⟩
  · rw [added, List.map_append, List.map_singleton, List.nodup_append]
    refine ⟨apart.distinct.nodup, List.nodup_singleton _, fun addr before other here => ?_⟩
    obtain ⟨old, member, rfl⟩ := List.mem_map.mp before
    rw [List.mem_singleton.mp here, placed]
    exact Nat.ne_of_lt (apart.distinct.allocated old member)
  · rw [added]
    intro other member
    rcases List.mem_append.mp member with before | here
    · exact Nat.lt_trans (apart.distinct.allocated other before) room
    · rw [List.mem_singleton.mp here, placed]
      exact room
  · rw [vnodes, List.map_append, List.nodup_append]
    refine ⟨apart.nodup, cached.nodup, fun addr before other here => ?_⟩
    obtain ⟨old, member, rfl⟩ := List.mem_map.mp before
    obtain ⟨new, inside, rfl⟩ := List.mem_map.mp here
    exact Nat.ne_of_lt (Nat.lt_of_lt_of_le (apart.allocated old member)
      (Nat.le_of_succ_le (cached.placed new inside).1))
  · rw [vnodes]
    intro vnode inside
    rcases List.mem_append.mp inside with old | new
    · exact Nat.lt_trans (apart.allocated vnode old) room
    · exact (cached.placed vnode new).2

theorem Mounts.Counts.mount (counts : mounts.Counts count) (due : mounts.NoneDue) {mem : Bool}
    {drivers : List FileSystemDriver} {init : FileSystem → InitAnswer} {args : MountArgs} {st : Int}
    (called : vfsMount mem drivers init args mounts = (st, mounts')) :
    mounts'.Counts count ∧ mounts'.NoneDue := by
  obtain ⟨removed, grown, same | ⟨fs, added, placed, room, cached⟩⟩ := vfsMount_cases called
  · have vnodes : mounts'.vnodes = mounts.vnodes := by
      unfold Mounts.vnodes
      rw [same]
    refine counts.grow due [] ⟨⟨?_, ?_⟩, ?_, ?_⟩ removed grown ?_ nofun
    · rw [same]
      exact counts.apart.distinct.nodup
    · rw [same]
      exact fun fs member => Nat.lt_of_lt_of_le (counts.apart.distinct.allocated fs member) grown
    · rw [vnodes]
      exact counts.apart.nodup
    · rw [vnodes]
      exact fun vnode inside => Nat.lt_of_lt_of_le (counts.apart.allocated vnode inside) grown
    · intro vnode
      rw [vnodes]
      exact (or_iff_left List.not_mem_nil).symm
  · obtain ⟨apart, vnodes⟩ := counts.apart.mount added placed room cached
    refine counts.grow due fs.vnodeLl apart removed grown ?_ fun vnode inside => ?_
    · intro vnode
      rw [vnodes, List.mem_append]
    · exact ⟨Nat.le_of_succ_le (cached.placed vnode inside).1, cached.unused vnode inside⟩

/-- What is left when the first file system with a name is unmounted. -/
theorem Mounts.Apart.unmount (apart : mounts.Apart) {fs : FileSystem}
    (member : fs ∈ mounts.filesystems) (left : mounts' =
      { mounts with filesystems := mounts.filesystems.eraseP fun other => other.addr = fs.addr }) :
    mounts'.Apart ∧ ∀ vnode, vnode ∈ mounts'.vnodes ↔ vnode ∈ mounts.vnodes ∧ vnode ∉ fs.vnodeLl := by
  obtain ⟨before, after, split⟩ := List.append_of_mem member
  have distinct := apart.distinct.nodup
  rw [split] at distinct
  rw [split, eraseP_addr distinct] at left
  have nodup := apart.nodup
  rw [vnodes_split split] at nodup
  have vnodes : mounts'.vnodes = before.flatMap FileSystem.vnodeLl ++
      after.flatMap FileSystem.vnodeLl := by
    rw [left, Mounts.vnodes, List.flatMap_append]
  have shorter : mounts'.vnodes.Sublist mounts.vnodes := by
    rw [vnodes, vnodes_split split]
    exact (List.Sublist.refl _).append (List.sublist_append_right _ _)
  have fewer : mounts'.filesystems.Sublist mounts.filesystems := by
    rw [left, split]
    exact (List.Sublist.refl _).append (List.sublist_cons_self _ _)
  have fresh : mounts'.fresh = mounts.fresh := by rw [left]
  refine ⟨⟨⟨?_, ?_⟩, ?_, ?_⟩, fun vnode => ?_⟩
  · exact apart.distinct.nodup.sublist (fewer.map _)
  · rw [fresh]
    exact fun other inside => apart.distinct.allocated other (fewer.subset inside)
  · exact apart.nodup.sublist (shorter.map _)
  · rw [fresh]
    exact fun vnode inside => apart.allocated vnode (shorter.subset inside)
  · have disjoint := List.Nodup.of_map _ nodup
    rw [List.nodup_append] at disjoint
    obtain ⟨-, rest, first⟩ := disjoint
    rw [List.nodup_append] at rest
    rw [vnodes, vnodes_split split, List.mem_append, List.mem_append, List.mem_append]
    constructor
    · rintro (earlier | later)
      · exact ⟨.inl earlier, fun own =>
          first vnode earlier vnode (List.mem_append_left _ own) rfl⟩
      · exact ⟨.inr (.inr later), fun own => rest.2.2 vnode own vnode later rfl⟩
    · rintro ⟨earlier | own | later, other⟩
      · exact .inl earlier
      · exact absurd own other
      · exact .inr later

theorem Mounts.Counts.unmount (counts : mounts.Counts count) (due : mounts.NoneDue)
    {fs : FileSystem} (member : fs ∈ mounts.filesystems)
    (unused : ∀ vnode ∈ fs.vnodeLl, vnode.refCount = 0) (left : mounts' =
      { mounts with filesystems := mounts.filesystems.eraseP fun other => other.addr = fs.addr }) :
    mounts'.Counts count ∧ mounts'.NoneDue := by
  obtain ⟨apart, spread⟩ := counts.apart.unmount member left
  have removed : mounts'.removed = mounts.removed := by rw [left]
  have fresh : mounts'.fresh = mounts.fresh := by rw [left]
  refine ⟨⟨apart, ?_, ?_, ?_, ?_⟩, ?_⟩
  · exact fun vnode inside => counts.counted vnode ((spread vnode).mp inside).1
  · intro addr held
    obtain ⟨vnode, inside, rfl⟩ := counts.live addr held
    refine ⟨vnode, (spread vnode).mpr ⟨inside, fun own => ?_⟩, rfl⟩
    rw [← counts.counted vnode inside, unused vnode own] at held
    exact Nat.lt_irrefl 0 held
  · rw [removed, fresh]
    intro gone inside
    obtain ⟨pending, none, below, away⟩ := counts.removed gone inside
    exact ⟨pending, none, below, fun other there => away other ((spread other).mp there).1⟩
  · rw [removed]
    exact counts.once
  · exact fun vnode inside => due vnode ((spread vnode).mp inside).1

/-- A call on files, or one on the mount table. -/
inductive MountedCall
  | file (call : FileCall)
  | mount (mem : Bool) (drivers : List FileSystemDriver) (init : FileSystem → InitAnswer)
    (args : MountArgs)
  | unmount (destroy : FileSystem → Exec Unit) (srcOrDest : Option (List Byte))

/-- No file is open in a file system that the call unmounts. -/
def Session.Idle (s : Session) : MountedCall → Prop
  | .unmount _ (some name) => ∀ fs, vfsFindFsBySrcOrDest name s.vfs.world.filesystems = some fs →
      ∀ vnode ∈ fs.vnodeLl, vnode.refCount = 0
  | _ => True

/-- The vnode of every descriptor is there. -/
def Session.Live (s : Session) : Prop :=
  ∀ fd pid sysfd, vfsFdtGetSysfd fd pid s.vfs.fdt = some sysfd →
    ∃ vnode, s.vfs.world.vnode sysfd.vnode = some vnode

variable {s s' : Session} {call : MountedCall}

theorem Session.Counted.live (counted : s.Counted) : s.Live := by
  intro fd pid sysfd found
  obtain ⟨vnode, there, -⟩ := counted.referenced.live fd pid sysfd found
  exact ⟨vnode, there⟩

def devName : List Byte := [slash, 0x64, 0x65, 0x76]

end Dxgmx
