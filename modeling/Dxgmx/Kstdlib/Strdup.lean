import Dxgmx.Kstdlib.StdioBound
import Dxgmx.Mem.GallocatorCompleteness
import Dxgmx.Mem.Krealloc

open Library

namespace Dxgmx

open AllocationCtx Allocation

def Kmalloc.strdup (str : List Byte) (s : Kmalloc) : Exec (Option Nat × Kmalloc) := do
  let text ← cstring str
  let (ret, s) ← s.kmalloc text.length
  match ret with
  | none => pure (none, s)
  | some ret => do
    let mem ← strcpy s.mem ret str
    pure (some ret, { s with mem })

/-- There is a free run for the allocation, wherever in its pool it ends. -/
def GAllocatorHeapMeta.HasRun (m : GAllocatorHeapMeta) (mem : Nat → Byte)
    (size alignment : Nat) : Prop :=
  ∃ p e k, m.pool (chunksizeFor size) = some p ∧ alignment = 2 ^ e ∧
    Fits p mem e (chunksNeeded size) k

/-- What the chunks that are reserved for the payload hold. -/
def Allocation.capacity (a : Allocation) : Nat := a.chunks * chunksizeFor a.size

/-- The blocks with the metadata before them and the metadata of the heaps are as they were. -/
def KmallocState.Undisturbed (s : KmallocState) (mem' : Nat → Byte) : Prop :=
  (∀ z ∈ s.live, ∀ y, z.allocation.addr - allocationMetaSize ≤ y →
    y < z.allocation.addr + z.allocation.size → mem' y = s.kernel.mem y) ∧
  ∀ h ∈ s.kernel.heaps, ∀ y, h.vaddr.toNat ≤ y → y < h.vaddr.toNat + 52 →
    mem' y = s.kernel.mem y

/-- A new block at `addr` with `room` for the string, which it holds. -/
def KmallocState.Holds (s : KmallocState) (room : Allocation → Nat) (text : List Byte)
    (k : Kmalloc) (addr : Nat) : Prop :=
  (∃ x : LiveBlock, x.allocation.addr = addr ∧ text.length < room x.allocation ∧ k.Holds x ∧
    ∀ z ∈ s.live, z.heap = x.heap → Apart x.allocation z.allocation) ∧
  ∀ i (inside : i < (text ++ [0]).length), k.mem (addr + i) = (text ++ [0])[i]

/-- What `strdup` is to come to while the metadata of the active heap is `m`. `room` says what of a
    block can be used. -/
def KmallocState.StrdupRight (s : KmallocState) (m : GAllocatorHeapMeta)
    (room : Allocation → Nat) (text : List Byte) (k : Kmalloc) (result : Option Nat) : Prop :=
  s.Undisturbed k.mem ∧ match result with
  | none => ¬m.HasRun s.kernel.mem (text.length + 1) s.kernel.defaultAlignment
  | some addr => s.Holds room text k addr

section

variable {s : KmallocState} {id : Nat} {h : Heap} {text rest : List Byte} {a : Allocation}
  {p : AllocationCtx} {k : Nat} {mem' : Nat → Byte}

theorem cstring_append (nonzero : 0 ∉ text) : cstring (text ++ 0 :: rest) = .ok text := by
  unfold cstring
  rw [if_pos (List.mem_append_right _ List.mem_cons_self), List.takeWhile_append_of_pos]
  · simp
  · intro byte member
    simp only [decide_eq_true_eq]
    rintro rfl
    exact nonzero member

/-- A string that is written over the chunks of a new block, with the terminator behind them at
    most, disturbs nothing. -/
theorem KmallocInv.undisturbed (inv : KmallocInv s) (here : s.kernel.heaps[id]? = some h)
    (lives : Lives h.preparedMeta a p k)
    (fresh : ∀ b ∈ liveIn s.live id, Apart a b)
    (frame : ∀ y, y < p.bitmapstart ∨ p.bitmapstart + p.bitmapsize ≤ y → y < a.low ∨ a.high < y →
      mem' y = s.kernel.mem y) : s.Undisturbed mem' := by
  have kept := inv.kept id h here
  have bounds := pool_bounds kept.layout lives.pool
  have range := lives.range
  have high := lives.high_le
  have chunksize := lives.chunksize
  constructor
  · intro z member y low below
    rcases inv.heap_of member with ⟨g, there, own⟩
    have keptThere := inv.kept _ g there
    obtain ⟨q, l, livesThere⟩ := keptThere.lives _ own
    have qBounds := pool_bounds keptThere.layout livesThere.pool
    have qRange := livesThere.range
    have qHigh := livesThere.high_le
    unfold allocationMetaSize at low
    by_cases same : z.heap = id
    · subst same
      cases here.symm.trans there
      have apart := fresh _ own
      unfold Apart at apart
      exact frame y (by omega) (by omega)
    · have away := inv.heaps_apart there here same
      unfold Heap.Apart Heap.finish at away
      exact frame y (by omega) (by omega)
  · intro g member y low below
    rcases List.mem_iff_getElem?.mp member with ⟨j, there⟩
    by_cases same : j = id
    · subst same
      cases here.symm.trans there
      exact frame y (by omega) (by omega)
    · have away := inv.heaps_apart there here same
      obtain ⟨q, pool⟩ := pool_chunksizeFor g.preparedMeta 0
      have qBounds := pool_bounds (inv.kept j g there).layout pool
      unfold Heap.Apart Heap.finish at away
      exact frame y (by omega) (by omega)

/-- The null pointer comes exactly from the request for the text alone. -/
theorem KmallocInv.strdup_cases (inv : KmallocInv s) (number : s.kernel.activeHeap = some id)
    (here : s.kernel.heaps[id]? = some h) (nonzero : 0 ∉ text) (short : text.length < 2 ^ 32) :
    ((text = [] ∨ ¬h.preparedMeta.HasPlace s.kernel.mem text.length s.kernel.defaultAlignment) ∧
        ∃ c, s.kernel.strdup (text ++ 0 :: rest) = .ok (none, c) ∧ c.mem = s.kernel.mem) ∨
      (text ≠ [] ∧
        h.preparedMeta.HasPlace s.kernel.mem text.length s.kernel.defaultAlignment ∧
        ∃ addr c, s.kernel.strdup (text ++ 0 :: rest) = .ok (some addr, c) ∧
          s.Undisturbed c.mem ∧
          KmallocInv ⟨c, ⟨id, ⟨addr, text.length, s.kernel.defaultAlignment⟩⟩ :: s.live⟩ ∧
          (∀ b ∈ liveIn s.live id, Apart ⟨addr, text.length, s.kernel.defaultAlignment⟩ b) ∧
          ∀ i (inside : i < (text ++ [0]).length), c.mem (addr + i) = (text ++ [0])[i]) := by
  unfold Kmalloc.strdup
  rw [cstring_append nonzero, Exec.ok_bind]
  by_cases empty : text = []
  · subst empty
    exact .inl ⟨.inl rfl, _, rfl, rfl⟩
  have some_ : 0 < text.length := List.length_pos_of_ne_nil empty
  have kept := inv.kept id h here
  have active : s.kernel.active = some h := by
    unfold Kmalloc.active
    rw [number]
    exact here
  obtain ⟨e, low, value⟩ := inv.alignment
  unfold Kmalloc.kmalloc
  rw [value]
  rcases Kmalloc.kmallocAligned_cases kept active some_ low with
    ⟨refused, call⟩ | ⟨addr, p, k, mem, call, allocates⟩
  · have none := gallocatorAllocAligned_refuses kept.layout kept.heapMeta some_ low refused
    rw [call]
    exact .inl ⟨.inr none, _, rfl, rfl⟩
  · right
    have place : h.preparedMeta.HasPlace s.kernel.mem text.length (2 ^ e) := allocates.hasPlace rfl
    have fresh := fun b member => kept.fresh (b := b) allocates member
    have range := allocates.lives.range
    dsimp only at range
    have lent : KmallocInv ⟨s.kernel.counted text.length mem,
        ⟨id, ⟨addr, text.length, 2 ^ e⟩⟩ :: s.live⟩ :=
      inv.allocate here (by simp [number]) allocates short ⟨e, low, rfl⟩
    have size : (text ++ [0]).length = text.length + 1 := by simp
    have outside : ∀ y, y < addr ∨ addr + text.length < y →
        storeBytes mem addr (text ++ [0]) y = mem y := by
      intro y out
      rcases out with before | after
      · exact storeBytes_before mem addr _ y before
      · exact storeBytes_after mem addr _ y (by omega)
    refine ⟨empty, place, addr, { s.kernel.counted text.length mem with
      mem := storeBytes mem addr (text ++ [0]) }, ?_, ?_, ?_, fresh, fun i inside => ?_⟩
    · rw [call, Exec.ok_bind]
      unfold strcpy
      dsimp only
      rw [cstring_append nonzero, Exec.ok_bind]
      rfl
    · refine inv.undisturbed here allocates.lives fresh fun y outBitmap outRange => ?_
      exact (outside y (by omega)).trans (allocates.changesOnly y outBitmap (by omega))
    · exact lent.fillTo List.mem_cons_self fun y out => outside y (by dsimp only at out; omega)
    · exact storeBytes_inside mem addr _ i inside

/-- The metadata before a block tells which block it is. -/
theorem Kmalloc.Holds.allocation_eq {c : Kmalloc} {x y : LiveBlock} (first : c.Holds x)
    (second : c.Holds y) (same : x.allocation.addr = y.allocation.addr) :
    x.allocation = y.allocation := by
  obtain ⟨-, -, -, -, -, described, -⟩ := first
  obtain ⟨-, -, -, -, -, described', -⟩ := second
  rw [same] at described
  have metas := described.symm.trans described'
  unfold Allocation.metadata at metas
  injection metas with _ size _ alignment
  exact Allocation.ext same size alignment

theorem lt_capacity (addr size alignment : Nat) :
    size < (Allocation.mk addr size alignment).capacity ↔ size % chunksizeFor size ≠ 0 := by
  unfold Allocation.capacity Allocation.chunks chunksizeFor ceilDiv
  dsimp only
  split_ifs <;> omega

theorem strdup_block {c : Kmalloc} {addr : Nat} {m : GAllocatorHeapMeta}
    {room : Allocation → Nat} {alignment : Nat}
    (undisturbed : s.Undisturbed c.mem)
    (after : KmallocInv ⟨c, ⟨id, ⟨addr, text.length, alignment⟩⟩ :: s.live⟩)
    (fresh : ∀ b ∈ liveIn s.live id, Apart ⟨addr, text.length, alignment⟩ b)
    (content : ∀ i (inside : i < (text ++ [0]).length), c.mem (addr + i) = (text ++ [0])[i]) :
    s.StrdupRight m room text c (some addr) ↔
      text.length < room ⟨addr, text.length, alignment⟩ := by
  have holds := after.holds List.mem_cons_self
  constructor
  · rintro ⟨-, ⟨x, place, enough, live, -⟩, -⟩
    rw [live.allocation_eq holds place] at enough
    exact enough
  · intro enough
    refine ⟨undisturbed, ⟨_, rfl, enough, holds, fun z member same => fresh _ ?_⟩, content⟩
    rcases z with ⟨heap, b⟩
    cases same
    exact mem_liveIn.mpr member

end

/-- No place is given: nothing is asked for, or the pool has none. -/
def GAllocatorHeapMeta.Refuses (m : GAllocatorHeapMeta) (mem : Nat → Byte)
    (size alignment : Nat) : Prop :=
  size = 0 ∨ ¬m.HasPlace mem size alignment

theorem strdup_right_iff {s : KmallocState} (reached : KmallocReached s) {h : Heap}
    (active : s.kernel.active = some h) {text : List Byte} (nonzero : 0 ∉ text)
    (short : text.length < 2 ^ 32) (rest : List Byte) :
    ∃ result c, s.kernel.strdup (text ++ 0 :: rest) = .ok (result, c) ∧
      (s.StrdupRight h.preparedMeta Allocation.size text c result ↔
        h.preparedMeta.Refuses s.kernel.mem text.length s.kernel.defaultAlignment ∧
          ¬h.preparedMeta.HasRun s.kernel.mem (text.length + 1) s.kernel.defaultAlignment) ∧
      (s.StrdupRight h.preparedMeta Allocation.capacity text c result ↔
        (h.preparedMeta.Refuses s.kernel.mem text.length s.kernel.defaultAlignment ∧
          ¬h.preparedMeta.HasRun s.kernel.mem (text.length + 1) s.kernel.defaultAlignment) ∨
        (¬h.preparedMeta.Refuses s.kernel.mem text.length s.kernel.defaultAlignment ∧
          text.length % chunksizeFor text.length ≠ 0)) := by
  have inv := reached.inv
  obtain ⟨id, number, here⟩ := Option.bind_eq_some_iff.mp active
  unfold GAllocatorHeapMeta.Refuses
  rw [List.length_eq_zero_iff]
  rcases @KmallocInv.strdup_cases _ _ _ _ rest inv number here nonzero short with
    ⟨refused, c, call, same⟩ | ⟨some_, place, addr, c, call, undisturbed, after, fresh, content⟩
  · have undisturbed : s.Undisturbed c.mem := by
      rw [same]
      exact ⟨fun _ _ _ _ _ => rfl, fun _ _ _ _ _ => rfl⟩
    refine ⟨none, c, call, ⟨fun right => ⟨refused, right.2⟩, fun right => ⟨undisturbed, right.2⟩⟩,
      fun right => .inl ⟨refused, right.2⟩, ?_⟩
    rintro (right | right)
    · exact ⟨undisturbed, right.2⟩
    · exact absurd refused right.1
  · have given : ¬(text = [] ∨ ¬h.preparedMeta.HasPlace s.kernel.mem text.length
        s.kernel.defaultAlignment) := by
      rintro (empty | none)
      · exact some_ empty
      · exact none place
    refine ⟨some addr, c, call, ?_, ?_⟩
    · rw [strdup_block undisturbed after fresh content]
      exact iff_of_false (Nat.lt_irrefl _) fun right => given right.1
    · rw [strdup_block undisturbed after fresh content, lt_capacity]
      constructor
      · exact fun left => .inr ⟨given, left⟩
      · rintro (right | right)
        · exact absurd right.1 given
        · exact right.2

theorem strdup_right_iff_page : ∃ s result c, KmallocReached s ∧
    s.kernel.strdup [97, 0] = .ok (result, c) ∧
      (s.StrdupRight onePage.preparedMeta Allocation.size [97] c result ↔
        onePage.preparedMeta.Refuses s.kernel.mem 1 s.kernel.defaultAlignment ∧
          ¬onePage.preparedMeta.HasRun s.kernel.mem 2 s.kernel.defaultAlignment) := by
  rcases onePageBlock_reached with ⟨k, reached, heaps, number⟩
  have active : k.active = some onePage := by
    unfold Kmalloc.active
    rw [number, heaps]
    rfl
  obtain ⟨result, c, call, right, -⟩ :=
    @strdup_right_iff _ reached _ active [97] (by decide) (by decide) []
  exact ⟨_, result, c, reached, call, right⟩

/-- The text fills the chunk that is reserved for it. -/
def chunkOfText : List Byte := List.replicate 32 97

def onePageStrdup : Exec (Int × Option Nat × Option Nat) := do
  let (id, k) ← (kmallocInit 16 fun _ => 0).2.kmallocRegisterHeap onePage
  let (addr, k) ← (k.kmallocUseHeap 0).2.kmalloc 40
  let (copy, _) ← k.strdup (chunkOfText ++ [0])
  pure (id, addr, copy)

theorem strdup_overruns : ∃ s addr c, KmallocReached s ∧ s.live ≠ [] ∧ 0 ∉ chunkOfText ∧
    s.kernel.strdup (chunkOfText ++ [0]) = .ok (some addr, c) ∧
      ∀ m, ¬s.StrdupRight m Allocation.size chunkOfText c (some addr) ∧
        ¬s.StrdupRight m Allocation.capacity chunkOfText c (some addr) := by
  have replay : onePageStrdup = .ok (0, some 3222277120, some 3222277216) := by decide +kernel
  obtain ⟨⟨id, k⟩, registers, replay⟩ := Exec.bind_ok.mp replay
  obtain ⟨⟨addr, k'⟩, takes, replay⟩ := Exec.bind_ok.mp replay
  obtain ⟨⟨copy, c⟩, copies, replay⟩ := Exec.bind_ok.mp replay
  cases replay
  have ready := onePage_ready registers
  obtain ⟨mem, rfl⟩ := Kmalloc.kmallocRegisterHeap_ok (by decide) registers
  have asks := ready.inv.kmalloc_asks takes
  have step := @KmallocStep.kmalloc ⟨_, []⟩ 40 _ _ (by decide) takes
  have taken := ready.step step
  cases asks with
  | block active here some_ power allocates =>
    refine ⟨_, _, c, taken, List.cons_ne_nil _ _, by decide, copies, fun m => ?_⟩
    rcases @KmallocInv.strdup_cases _ 0 onePage chunkOfText [] taken.inv rfl rfl (by decide)
      (by decide) with ⟨-, t, call, -⟩ | ⟨-, -, place, t, call, same, after, fresh, content⟩
    · cases copies.symm.trans call
    · cases copies.symm.trans call
      constructor
      · rw [strdup_block same after fresh content]
        exact Nat.lt_irrefl _
      · rw [strdup_block same after fresh content, lt_capacity]
        decide

end Dxgmx
