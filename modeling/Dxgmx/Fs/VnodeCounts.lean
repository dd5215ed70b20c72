import Dxgmx.Fs.SoundMounts

open Library

namespace Dxgmx

/-- The vnodes with `count` references each, and what became of those that were removed. -/
structure Mounts.Counts (count : VirtualNodeRef → Nat) (mounts : Mounts) : Prop where
  apart : mounts.Apart
  counted : ∀ vnode ∈ mounts.vnodes, vnode.refCount = count vnode.addr
  live : ∀ addr, 0 < count addr → ∃ vnode ∈ mounts.vnodes, vnode.addr = addr
  removed : ∀ vnode ∈ mounts.removed, vnode.pendingRm = true ∧ vnode.refCount = 0 ∧
    vnode.addr < mounts.fresh ∧ ∀ other ∈ mounts.vnodes, other.addr ≠ vnode.addr
  once : (mounts.removed.map VirtualNode.addr).Nodup

/-- No vnode waits for a removal that is due. -/
def Mounts.NoneDue (mounts : Mounts) : Prop :=
  ∀ vnode ∈ mounts.vnodes, vnode.pendingRm = true → 0 < vnode.refCount

variable {mounts mounts' : Mounts} {count count' : VirtualNodeRef → Nat}
  {vnode vnode' : VirtualNode}

theorem Mounts.Counts.store (counts : mounts.Counts count) (member : vnode ∈ mounts.vnodes)
    (same : vnode'.addr = vnode.addr) (refs : vnode'.refCount = count' vnode.addr)
    (others : ∀ addr, addr ≠ vnode.addr → count' addr = count addr) :
    (mounts.setVnode vnode').Counts count' := by
  have there : ∃ old ∈ mounts.vnodes, old.addr = vnode'.addr := ⟨vnode, member, same.symm⟩
  constructor
  · exact counts.apart.setVnode vnode'
  · intro other inside
    rcases (mem_setVnode there).mp inside with rfl | ⟨inside, different⟩
    · rw [same]
      exact refs
    · rw [others _ (by rw [← same]; exact different)]
      exact counts.counted other inside
  · intro addr held
    by_cases here : addr = vnode.addr
    · exact ⟨vnode', (mem_setVnode there).mpr (.inl rfl), by rw [same, here]⟩
    · rw [others addr here] at held
      obtain ⟨other, inside, rfl⟩ := counts.live addr held
      exact ⟨other, (mem_setVnode there).mpr (.inr ⟨inside, by rw [same]; exact here⟩), rfl⟩
  · intro gone member'
    obtain ⟨pending, none, below, away⟩ := counts.removed gone member'
    refine ⟨pending, none, below, fun other inside => ?_⟩
    rcases (mem_setVnode there).mp inside with rfl | ⟨inside, -⟩
    · rw [same]
      exact away vnode member
    · exact away other inside
  · exact counts.once

theorem Mounts.NoneDue.store (due : mounts.NoneDue) (member : vnode ∈ mounts.vnodes)
    (same : vnode'.addr = vnode.addr) (held : vnode'.pendingRm = true → 0 < vnode'.refCount) :
    (mounts.setVnode vnode').NoneDue := by
  intro other inside pending
  rcases (mem_setVnode ⟨vnode, member, same.symm⟩).mp inside with rfl | ⟨inside, -⟩
  · exact held pending
  · exact due other inside pending

/-- A vnode is removed that is marked and that nothing refers to. -/
theorem Mounts.Counts.rmnode (counts : mounts.Counts count) (member : vnode ∈ mounts.vnodes)
    (pending : vnode.pendingRm = true) (none : vnode.refCount = 0)
    (h : mounts.rmnode vnode = .ok mounts') : mounts'.Counts count := by
  obtain ⟨apart, spread⟩ := counts.apart.rmnode h
  obtain ⟨-, -, fresh, removed⟩ := rmnode_vnodes counts.apart h
  constructor
  · exact apart
  · intro other inside
    exact counts.counted other ((spread other).mp inside).1
  · intro addr held
    obtain ⟨other, inside, rfl⟩ := counts.live addr held
    refine ⟨other, (spread other).mpr ⟨inside, fun same => ?_⟩, rfl⟩
    rw [same, ← counts.counted vnode member, none] at held
    exact Nat.lt_irrefl 0 held
  · intro gone inside
    rw [removed, List.mem_append, List.mem_singleton] at inside
    rw [fresh]
    rcases inside with inside | rfl
    · obtain ⟨pending, none, below, away⟩ := counts.removed gone inside
      exact ⟨pending, none, below, fun other left => away other ((spread other).mp left).1⟩
    · exact ⟨pending, none, counts.apart.allocated _ member,
        fun other left => ((spread other).mp left).2⟩
  · rw [removed, List.map_append, List.map_singleton, List.nodup_append]
    refine ⟨counts.once, List.nodup_singleton _, fun addr earlier other last => ?_⟩
    obtain ⟨gone, inside, rfl⟩ := List.mem_map.mp earlier
    rw [List.mem_singleton.mp last]
    exact ((counts.removed gone inside).2.2.2 vnode member).symm

theorem Mounts.Counts.rmnode_noneDue (counts : mounts.Counts count)
    (due : ∀ other ∈ mounts.vnodes, other.addr ≠ vnode.addr →
      other.pendingRm = true → 0 < other.refCount)
    (h : mounts.rmnode vnode = .ok mounts') : mounts'.NoneDue := by
  intro other inside
  obtain ⟨inside, different⟩ := ((counts.apart.rmnode h).2 other).mp inside
  exact due other inside different

theorem Mounts.Counts.fresh_unused (counts : mounts.Counts count) {addr : VirtualNodeRef}
    (fresh : mounts.fresh ≤ addr) : count addr = 0 := by
  by_contra held
  obtain ⟨vnode, inside, rfl⟩ := counts.live _ (Nat.pos_of_ne_zero held)
  exact absurd (counts.apart.allocated vnode inside) (Nat.not_lt.mpr fresh)

theorem Mounts.Counts.grow (counts : mounts.Counts count) (due : mounts.NoneDue)
    (added : List VirtualNode) (apart : mounts'.Apart) (removed : mounts'.removed = mounts.removed)
    (grown : mounts.fresh ≤ mounts'.fresh)
    (spread : ∀ vnode, vnode ∈ mounts'.vnodes ↔ vnode ∈ mounts.vnodes ∨ vnode ∈ added)
    (new : ∀ vnode ∈ added,
      mounts.fresh ≤ vnode.addr ∧ vnode.refCount = 0 ∧ vnode.pendingRm = false) :
    mounts'.Counts count ∧ mounts'.NoneDue := by
  refine ⟨⟨apart, ?_, ?_, ?_, ?_⟩, ?_⟩
  · intro vnode inside
    rcases (spread vnode).mp inside with old | here
    · exact counts.counted vnode old
    · obtain ⟨fresh, unused, -⟩ := new vnode here
      rw [unused, counts.fresh_unused fresh]
  · intro addr held
    obtain ⟨vnode, inside, here⟩ := counts.live addr held
    exact ⟨vnode, (spread vnode).mpr (.inl inside), here⟩
  · rw [removed]
    intro gone inside
    obtain ⟨pending, none, below, away⟩ := counts.removed gone inside
    refine ⟨pending, none, Nat.lt_of_lt_of_le below grown, fun other there => ?_⟩
    rcases (spread other).mp there with old | here
    · exact away other old
    · exact Nat.ne_of_gt (Nat.lt_of_lt_of_le below (new other here).1)
  · rw [removed]
    exact counts.once
  · intro vnode inside pending
    rcases (spread vnode).mp inside with old | here
    · exact due vnode old pending
    · rw [(new vnode here).2.2] at pending
      cases pending

theorem Mounts.Counts.mkfile (counts : mounts.Counts count) (due : mounts.NoneDue)
    {mem : MkfileMem} {path : List Byte} {mode uid gid : BitVec 32} {fs fs' : FileSystem}
    {res : Except Int Nat} (member : fs ∈ mounts.filesystems)
    (h : fsMkfile mem mounts.fresh path mode uid gid fs = .ok (res, fs')) :
    Mounts.Counts count { mounts.setFs fs' with fresh := mounts.fresh + 1 } ∧
      Mounts.NoneDue { mounts.setFs fs' with fresh := mounts.fresh + 1 } := by
  have unused (vnode : VirtualNode) (inside : vnode ∈ fs.vnodeLl) : vnode.addr ≠ mounts.fresh :=
    Nat.ne_of_lt (counts.apart.allocated vnode (mem_vnodes.mpr ⟨fs, member, inside⟩))
  obtain ⟨same, added, grown, shape⟩ := fsMkfile_ok unused h
  have placed : added = [] ∨ ∃ vnode, added = [vnode] ∧ vnode.addr = mounts.fresh := by
    rcases shape with none | ⟨name, n, dir, one⟩
    · exact .inl none
    · exact .inr ⟨_, one, rfl⟩
  obtain ⟨apart, spread⟩ := counts.apart.mkfile member same grown placed
  apply counts.grow due added apart rfl (Nat.le_succ _) spread
  intro vnode inside
  rcases shape with rfl | ⟨name, n, dir, rfl⟩
  · cases inside
  · rw [List.mem_singleton.mp inside]
    exact ⟨Nat.le_refl _, rfl, rfl⟩

theorem Mounts.Counts.increase (counts : mounts.Counts count) (due : mounts.NoneDue)
    (member : vnode ∈ mounts.vnodes) (refs : count' vnode.addr = count vnode.addr + 1)
    (others : ∀ addr, addr ≠ vnode.addr → count' addr = count addr) :
    (vnodeIncreaseRefcount vnode.addr mounts).Counts count' ∧
      (vnodeIncreaseRefcount vnode.addr mounts).NoneDue ∧
      (vnodeIncreaseRefcount vnode.addr mounts).removed = mounts.removed := by
  unfold vnodeIncreaseRefcount
  rw [counts.apart.vnode.mpr ⟨member, rfl⟩]
  refine ⟨counts.store member rfl ?_ others, due.store member rfl fun _ => Nat.succ_pos _, rfl⟩
  rw [refs, ← counts.counted vnode member]

/-- What a call gave to `rmnode`. -/
def Gave (mounts mounts' : Mounts) (vnode : VirtualNode) : Prop :=
  mounts'.removed = mounts.removed ++ [vnode] ∧ vnode.pendingRm = true ∧ vnode.refCount = 0

/-- One reference less to a vnode, which is removed if that was due. -/
theorem Mounts.Counts.decrease (counts : mounts.Counts count) (due : mounts.NoneDue)
    {addr : VirtualNodeRef} (held : 0 < count addr) (refs : count' addr = count addr - 1)
    (others : ∀ other, other ≠ addr → count' other = count other)
    (h : vnodeDecreaseRefcount addr mounts = .ok mounts') :
    mounts'.Counts count' ∧ mounts'.NoneDue ∧
      (mounts'.removed = mounts.removed ∨ ∃ vnode, Gave mounts mounts' vnode ∧
        mounts.vnode addr = some { vnode with refCount := 1 }) := by
  obtain ⟨vnode, member, rfl⟩ := counts.live addr held
  have found := counts.apart.vnode.mpr ⟨member, rfl⟩
  have many := counts.counted vnode member
  unfold vnodeDecreaseRefcount at h
  rw [found] at h
  dsimp only at h
  rw [if_neg (by omega)] at h
  have stored : (mounts.setVnode { vnode with refCount := vnode.refCount - 1 }).Counts count' :=
    counts.store member rfl (by rw [refs, many]) others
  have there : ∃ old ∈ mounts.vnodes,
      old.addr = ({ vnode with refCount := vnode.refCount - 1 } : VirtualNode).addr :=
    ⟨vnode, member, rfl⟩
  split at h
  · rename_i drop
    refine ⟨stored.rmnode ((mem_setVnode there).mpr (.inl rfl)) drop.2 drop.1 h,
      stored.rmnode_noneDue (fun other inside different => ?_) h,
      .inr ⟨_, ⟨(rmnode_vnodes stored.apart h).2.2.2, drop.2, drop.1⟩, ?_⟩⟩
    · rcases (mem_setVnode there).mp inside with rfl | ⟨inside, -⟩
      · exact absurd rfl different
      · exact due other inside
    · have last : vnode.refCount = 1 := by
        have zero : vnode.refCount - 1 = 0 := drop.1
        omega
      rw [found, ← last]
  · rename_i keep
    cases h
    refine ⟨stored, due.store member rfl fun pending => ?_, .inl rfl⟩
    exact Nat.pos_of_ne_zero fun zero => keep ⟨zero, pending⟩

end Dxgmx
