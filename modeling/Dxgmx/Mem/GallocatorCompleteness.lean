import Dxgmx.Mem.GallocatorRuns

open Library

namespace Dxgmx

open AllocationCtx

section Counting

variable {p : AllocationCtx} (mem : Nat → Byte) {n : Nat}

/-- A count that ends at chunk `k` has found enough, or there is no free chunk to count. -/
def Ends (p : AllocationCtx) (mem : Nat → Byte) (n k found : Nat) : Prop :=
  found = n ∨ found < n ∧ (p.poolchunks ≤ k ∨ bitAt mem p.bitmapstart k = true)

theorem contiguousInByte_ends (sized : p.Sized) (left : Nat) {k : Nat} (foundbits : Nat)
    (short : foundbits < n) (room : 8 - k % 8 ≤ left) (covered : k / 8 < p.bitmapsize) :
    match contiguousInByte n (mem (p.bitmapstart + k / 8)) left (p.chunk k) foundbits with
    | .error found => ∃ m, found = foundbits + m ∧ Ends p mem n (k + m) found
    | .ok (alloc, found) => ∃ m k', found = foundbits + m ∧ found < n ∧
        { alloc with byte := alloc.byte + 1 } = p.chunk k' ∧ k' / 8 = k / 8 + 1 ∧
          (k' = k + m ∨ p.poolchunks ≤ k + m ∧ p.poolchunks ≤ k') := by
  induction left generalizing k foundbits with
  | zero => omega
  | succ left ih =>
    unfold contiguousInByte
    by_cases inside : k < p.poolchunks
    · rw [if_pos ((chunk_insidePool sized (by omega)).mpr inside)]
      by_cases set : (mem (p.bitmapstart + k / 8)).getLsbD (p.chunk k).bit = true
      · rw [if_pos set]
        exact ⟨0, rfl, .inr ⟨short, .inr set⟩⟩
      · rw [if_neg set]
        by_cases enough : foundbits + 1 = n
        · rw [if_pos enough]
          exact ⟨1, rfl, .inl enough⟩
        · rw [if_neg enough, chunk_bit]
          by_cases high : k % 8 = 7
          · rw [if_pos high]
            exact ⟨1, k + 1, rfl, by omega, chunk_wrap high, by omega, .inl rfl⟩
          · have same : (k + 1) / 8 = k / 8 := by omega
            have rest := ih (k := k + 1) (foundbits + 1) (by omega) (by omega) (by omega)
            rw [if_neg high, chunk_next high]
            rw [same] at rest
            split
            · rename_i found reached
              rw [reached] at rest
              rcases rest with ⟨m, total, ends⟩
              refine ⟨1 + m, by omega, ?_⟩
              rw [← Nat.add_assoc]
              exact ends
            · rename_i alloc found reached
              rw [reached] at rest
              rcases rest with ⟨m, k', total, fewer, next, following, place⟩
              exact ⟨1 + m, k', by omega, fewer, next, following, by omega⟩
    · rw [if_neg (inside ∘ (chunk_insidePool sized (by omega)).mp)]
      refine ⟨0, k + 8, rfl, short, ?_, by omega, .inr (by omega)⟩
      unfold chunk
      dsimp only
      congr 1 <;> omega

theorem contiguousLoop_ends (sized : p.Sized) (left : Nat) {k : Nat} (foundbits : Nat)
    (short : foundbits < n) (rest : k / 8 + left = p.bitmapsize) :
    ∃ m, contiguousLoop mem n left (p.chunk k) foundbits = foundbits + m ∧
      Ends p mem n (k + m) (foundbits + m) := by
  induction left generalizing k foundbits with
  | zero =>
    have covered := sized.covered
    exact ⟨0, rfl, .inr ⟨short, .inl (by omega)⟩⟩
  | succ left ih =>
    have byte := contiguousInByte_ends (n := n) mem sized 8 (k := k) foundbits short
      (by omega) (by omega)
    unfold contiguousLoop
    change ∃ m, (match contiguousInByte n (mem (p.bitmapstart + k / 8)) 8 (p.chunk k) foundbits with
      | .error foundbits => foundbits
      | .ok (alloc, foundbits) =>
        contiguousLoop mem n left { alloc with byte := alloc.byte + 1 } foundbits) = foundbits + m ∧
          Ends p mem n (k + m) (foundbits + m)
    split
    · rename_i found reached
      rw [reached] at byte
      rcases byte with ⟨m, rfl, ends⟩
      exact ⟨m, rfl, ends⟩
    · rename_i alloc found reached
      rw [reached] at byte
      rcases byte with ⟨m, k', rfl, fewer, next, following, place⟩
      obtain ⟨m', total, ends⟩ := ih (k := k') (foundbits + m) fewer (by omega)
      refine ⟨m + m', by rw [next, total, Nat.add_assoc], ?_⟩
      rcases place with rfl | ⟨beyond, -⟩
      · rw [← Nat.add_assoc, ← Nat.add_assoc]
        exact ends
      · rcases ends with enough | ⟨few, -⟩
        · exact .inl (by omega)
        · exact .inr ⟨by omega, .inl (by omega)⟩

/-- Where fewer chunks are found than are needed, the one behind them is none or not free. -/
theorem gallocatorHasNContiguousBits_ends (sized : p.Sized) {k m : Nat}
    (inside : k < p.poolchunks) (some_ : 0 < n)
    (count : gallocatorHasNContiguousBits mem (p.chunk k) n = .ok m) : Ends p mem n (k + m) m := by
  have covered := sized.covered
  have left : k / 8 + (p.bitmapsize - k / 8) = p.bitmapsize := by omega
  rcases contiguousLoop_ends (n := n) mem sized _ 0 some_ left with ⟨found, total, ends⟩
  rw [Nat.zero_add] at total ends
  unfold gallocatorHasNContiguousBits at count
  rw [assert_bind_ok, assert_bind_ok] at count
  change _ ∧ _ ∧ (assert (0 < contiguousLoop mem n (p.bitmapsize - k / 8) (p.chunk k) 0) >>= fun _ =>
    pure (contiguousLoop mem n (p.bitmapsize - k / 8) (p.chunk k) 0)) = _ at count
  rw [total, assert_bind_ok, Exec.pure_ok] at count
  rw [← count.2.2.2]
  exact ends

end Counting

section Starts

variable {p : AllocationCtx} (mem : Nat → Byte) {e : Nat}

/-- Chunk `k + 1` is aligned and free, and the chunk before it is free. -/
structure StartAt (p : AllocationCtx) (mem : Nat → Byte) (e k : Nat) : Prop where
  inside : k + 1 < p.poolchunks
  clear : bitAt mem p.bitmapstart (k + 1) = false
  before : bitAt mem p.bitmapstart k = false
  aligned : AlignedAt p e (k + 1)

/-- The search from chunk `k` on does not come by a start. -/
def FirstStart (p : AllocationCtx) (mem : Nat → Byte) (e k : Nat)
    (result : Bool × AllocationCtx) : Prop :=
  ∀ j, k ≤ j + 1 → StartAt p mem e j → ∃ k' ≤ j, result = (true, p.chunk (k' + 1))

theorem AlignedAt.apart (placed : p.Placed) {k j : Nat} (here : AlignedAt p e k)
    (there : AlignedAt p e j) (later : k < j) : k + ceilDiv (2 ^ e) p.chunksize ≤ j := by
  have positive := placed.positive
  rcases Nat.exists_eq_add_of_lt later with ⟨d, rfl⟩
  have gap : 2 ^ e ∣ (d + 1) * p.chunksize := by
    unfold AlignedAt at here there
    rw [show k + d + 1 = k + (d + 1) by omega, Nat.add_mul, ← Nat.add_assoc] at there
    exact (Nat.dvd_add_right here).mp there
  have reach := Nat.le_of_dvd (Nat.mul_pos (show 0 < d + 1 by omega) positive) gap
  have count : ceilDiv (2 ^ e) p.chunksize < d + 1 + 1 := by
    unfold ceilDiv
    rw [Nat.div_lt_iff_lt_mul positive, Nat.add_mul]
    omega
  omega

theorem gallocatorFindStartLoop_first (placed : p.Placed) (fuel : Nat) {k : Nat}
    (enough : 8 * p.bitmapsize < fuel + k) (some_ : 0 < fuel)
    (aligned : k < p.poolchunks → AlignedAt p e k) :
    ∃ result, gallocatorFindStartLoop mem (2 ^ e) fuel (p.chunk k) = .ok result ∧
      FirstStart p mem e k result := by
  induction fuel generalizing k with
  | zero => omega
  | succ fuel ih =>
    have covered := placed.covered
    unfold gallocatorFindStartLoop
    by_cases within : (p.chunk k).byte < (p.chunk k).bitmapsize ∧ (p.chunk k).InsidePool
    · rw [if_pos within]
      have low : k / 8 < p.bitmapsize := within.1
      have inside := (chunk_insidePool placed.toSized (by omega)).mp within.2
      have step := placed.step_pos e
      obtain ⟨result, done, first⟩ := ih (k := k + ceilDiv (2 ^ e) p.chunksize) (by omega)
        (by omega) fun _ => (aligned inside).step placed
      have next : gallocatorFindStartLoop mem (2 ^ e) fuel
          ((p.chunk k).advance (ceilDiv (2 ^ e) (p.chunk k).chunksize)) = .ok result := by
        rw [chunk_advance]
        exact done
      have later : (∀ j, k = j + 1 → ¬StartAt p mem e j) → FirstStart p mem e k result := by
        intro none j after start
        rcases Nat.lt_or_eq_of_le after with behind | here
        · exact first j ((aligned inside).apart placed start.aligned behind) start
        · exact absurd start (none j here)
      cases k with
      | zero =>
        rw [chunk_previous_zero]
        exact ⟨result, next, later fun j same => by omega⟩
      | succ k =>
        rw [chunk_previous]
        dsimp only
        by_cases free : (p.chunk (k + 1)).checkBit mem = false ∧ (p.chunk k).checkBit mem = false
        · rw [if_pos free]
          exact ⟨_, rfl, fun j after start => ⟨k, by omega, rfl⟩⟩
        · rw [if_neg free]
          refine ⟨result, next, later fun j same start => free ?_⟩
          cases same
          exact ⟨start.clear, start.before⟩
    · rw [if_neg within]
      refine ⟨_, rfl, fun j after start => absurd ?_ within⟩
      have inside := start.inside
      exact ⟨show k / 8 < p.bitmapsize by omega,
        (chunk_insidePool placed.toSized (by omega)).mpr (by omega)⟩

theorem gallocatorFindStartAligned_first (placed : p.Placed) {k : Nat} (low : e < 32)
    (within : k ≤ p.poolchunks) :
    ∃ result, gallocatorFindStartAligned mem (2 ^ e) (p.chunk k) = .ok result ∧
      FirstStart p mem e k result := by
  obtain ⟨k', later, aligned, least, same⟩ := gallocatorFindStartAligned_loop mem placed low within
  obtain ⟨result, done, first⟩ := gallocatorFindStartLoop_first mem placed (8 * p.bitmapsize + 1)
    (by omega) (Nat.succ_pos _) aligned
  refine ⟨result, same.trans done, fun j after start => ?_⟩
  exact first j (least _ start.aligned after start.inside) start

end Starts

section Searches

variable {p : AllocationCtx} (mem : Nat → Byte) {e : Nat}

instance fitsDecidable (p : AllocationCtx) (mem : Nat → Byte) (e needed k : Nat) :
    Decidable (Fits p mem e needed k) :=
  inferInstanceAs (Decidable (bitAt mem p.bitmapstart k = false ∧
    ((needed = 0 ∨ k + 1 + needed ≤ p.poolchunks) ∧
      ∀ i < needed, bitAt mem p.bitmapstart (k + 1 + i) = false) ∧
    2 ^ e ∣ p.poolstart + (k + 1) * p.chunksize))

theorem Fits.bound {needed k : Nat} (fits : Fits p mem e needed k)
    (some_ : 0 < needed) : k + 1 + needed ≤ p.poolchunks :=
  fits.2.1.1.resolve_left (by omega)

theorem Fits.start {needed k : Nat} (fits : Fits p mem e needed k) (some_ : 0 < needed) :
    StartAt p mem e k := by
  have bound := fits.2.1.1
  have clear := fits.2.1.2 0 some_
  exact ⟨by omega, clear, fits.1, fits.2.2⟩

theorem gallocatorSearch_first (placed : p.Placed) (low : e < 32) {needed : Nat}
    (some_ : 0 < needed) (fuel : Nat) {k : Nat} (within : k ≤ p.poolchunks)
    (enough : p.poolchunks < fuel + k) :
    ∃ result, gallocatorSearch mem (2 ^ e) needed fuel (p.chunk k) = .ok result ∧
      ∀ j, k ≤ j + 1 → Fits p mem e needed j → ∃ k' ≤ j, result = some (p.chunk (k' + 1)) := by
  induction fuel generalizing k with
  | zero => omega
  | succ fuel ih =>
    rcases gallocatorFindStartAligned_spec mem placed low within with ⟨⟨found, alloc⟩, start, valid⟩
    rcases gallocatorFindStartAligned_first mem placed low within with ⟨result, again, first⟩
    cases start.symm.trans again
    unfold gallocatorSearch
    rw [start]
    change ∃ result, (if found = false then _ else _) = _ ∧ _
    by_cases none : found = false
    · rw [if_pos none]
      refine ⟨_, rfl, fun j after fits => ?_⟩
      rcases first j after (fits.start mem some_) with ⟨k', -, same⟩
      cases same
      cases none
    · rw [if_neg none]
      obtain ⟨k', later, same, inside, before, clear, aligned⟩ := valid (by simpa using none)
      dsimp only at same
      subst same
      have least : ∀ j, k ≤ j + 1 → Fits p mem e needed j → k' ≤ j := by
        intro j after fits
        rcases first j after (fits.start mem some_) with ⟨l, bound, same⟩
        have place := chunk_inj (Prod.mk.inj same).2
        omega
      by_cases one : needed = 1
      · rw [if_pos one]
        exact ⟨_, rfl, fun j after fits => ⟨k', least j after fits, rfl⟩⟩
      · rw [if_neg one]
        obtain ⟨m, count, run, positive⟩ :=
          gallocatorHasNContiguousBits_spec mem needed placed.toSized inside clear
        have ends := gallocatorHasNContiguousBits_ends mem placed.toSized inside some_ count
        rw [count]
        change ∃ result, (if m = needed then _ else _) = _ ∧ _
        by_cases all : m = needed
        · rw [if_pos all]
          exact ⟨_, rfl, fun j after fits => ⟨k', least j after fits, rfl⟩⟩
        · rw [if_neg all, chunk_advance]
          have bound := run.1
          obtain ⟨result, done, rest⟩ := @ih (k' + 1 + m) (by omega) (by omega)
          refine ⟨result, done, fun j after fits => rest j ?_ fits⟩
          -- a run from in between would have to go over the chunk that ends the count
          have here := least j after fits
          by_contra between
          rcases ends.resolve_left all with ⟨few, stops⟩
          have room := fits.2.1.1
          rcases stops with beyond | set
          · omega
          · have free := fits.2.1.2 (k' + 1 + m - (j + 1)) (by omega)
            rw [show j + 1 + (k' + 1 + m - (j + 1)) = k' + 1 + m by omega, set] at free
            cases free

end Searches

/-- The chunks that an allocation of `size` bytes marks, the one of its metadata apart. -/
def chunksNeeded (size : Nat) : Nat := ceilDiv size (chunksizeFor size)

theorem chunksNeeded_pos {size : Nat} (some_ : 0 < size) : 0 < chunksNeeded size := by
  have bounds := chunksizeFor_bounds size
  apply Nat.div_pos <;> omega

section

variable {heap : Heap} {m : GAllocatorHeapMeta} {mem : Nat → Byte}

/-- A call answers null exactly when each run that fits goes up to the end of the pool. -/
theorem gallocatorAllocAligned_none (layout : HeapLayout heap m)
    (loaded : GAllocatorHeapMeta.load mem heap.vaddr.toNat = m) {size e : Nat}
    (some_ : 0 < size) (low : e < 32) {p : AllocationCtx}
    (here : m.pool (chunksizeFor size) = some p) {result : Option Nat} {mem' : Nat → Byte}
    (call : gallocatorAllocAligned size (2 ^ e) heap mem = .ok (result, mem')) :
    result = none ↔
      ∀ k, Fits p mem e (chunksNeeded size) k → k + 1 + chunksNeeded size = p.poolchunks := by
  have placed := layout.placed _ _ here
  have chunksize := pool_chunksize here
  have same : chunksNeeded size = ceilDiv size p.chunksize := by
    rw [chunksize]
    rfl
  have needed := chunksNeeded_pos some_
  obtain ⟨found, searched, fits⟩ := gallocatorSearch_spec mem placed low
    (chunksNeeded size) (p.poolchunks + 1) (k := 0) (Nat.zero_le _) (by omega)
  obtain ⟨found', again, first⟩ := gallocatorSearch_first mem placed low needed
    (p.poolchunks + 1) (k := 0) (Nat.zero_le _) (by omega)
  cases searched.symm.trans again
  rw [pool_chunk here] at searched
  unfold gallocatorAllocAligned at call
  dsimp only at call
  rw [loaded, if_neg (not_not.mpr layout.signature)] at call
  unfold gallocatorDoAllocAligned at call
  rw [here] at call
  dsimp only at call
  rw [← same, searched] at call
  cases found with
  | none =>
    cases call
    refine iff_of_true rfl fun k there => ?_
    rcases first k (Nat.zero_le _) there with ⟨k', -, none⟩
    cases none
  | some alloc =>
    rcases fits alloc rfl with ⟨k, rfl, there⟩
    rcases Nat.lt_or_eq_of_le (there.bound mem needed) with inside | last
    · obtain ⟨marked, put, -⟩ :=
        gallocatorBitmapPutBits_spec true placed.toSized mem needed inside
      change (gallocatorBitmapPutBits true (p.chunk (k + 1)) _ mem >>= _) = _ at call
      rw [put] at call
      cases call
      exact iff_of_false nofun fun all => Nat.ne_of_lt inside (all k there)
    · have turned := gallocatorBitmapPutBits_end true placed.toSized mem (by omega) last
      change (gallocatorBitmapPutBits true (p.chunk (k + 1)) _ mem >>= _) = _ at call
      rw [turned] at call
      cases call
      refine iff_of_true rfl fun j other => ?_
      rcases first j (Nat.zero_le _) other with ⟨k', before, same⟩
      have place := chunk_inj (Option.some.inj same)
      have room := other.bound mem needed
      omega

/-- There is a run for the allocation that ends before the last chunk of its pool. -/
def GAllocatorHeapMeta.HasPlace (m : GAllocatorHeapMeta) (mem : Nat → Byte)
    (size alignment : Nat) : Prop :=
  ∃ p e k, m.pool (chunksizeFor size) = some p ∧ alignment = 2 ^ e ∧
    Fits p mem e (chunksNeeded size) k ∧ k + 1 + chunksNeeded size < p.poolchunks

theorem gallocatorAllocAligned_refuses (layout : HeapLayout heap m)
    (loaded : GAllocatorHeapMeta.load mem heap.vaddr.toNat = m) {size e : Nat}
    (some_ : 0 < size) (low : e < 32) {mem' : Nat → Byte}
    (call : gallocatorAllocAligned size (2 ^ e) heap mem = .ok (none, mem')) :
    ¬m.HasPlace mem size (2 ^ e) := by
  rintro ⟨p, d, k, here, power, fits, inside⟩
  cases Nat.pow_right_injective (Nat.le_refl 2) power
  have null := gallocatorAllocAligned_none layout loaded some_ low here call
  exact Nat.ne_of_lt inside (null.mp rfl k fits)

theorem Allocates.hasPlace {a : Allocation} {p : AllocationCtx} {k e : Nat} {mem' : Nat → Byte}
    (allocates : Allocates m a p k mem mem') (power : a.alignment = 2 ^ e) :
    m.HasPlace mem a.size a.alignment := by
  have lives := allocates.lives
  have inside := lives.inside
  refine ⟨p, e, k, lives.pool, power, ⟨allocates.free k (Nat.le_refl k) (by omega), ?_, ?_⟩, inside⟩
  · refine ⟨.inr (Nat.le_of_lt inside), fun i bound => allocates.free _ (by omega) ?_⟩
    exact Nat.add_lt_add_left bound _
  · show 2 ^ e ∣ p.poolstart + (k + 1) * p.chunksize
    rw [← lives.addr, ← power]
    exact lives.aligned

end

/-- No run fits, or one does that ends before the last chunk of the pool. -/
def NoneOrBeforeLast (p : AllocationCtx) (mem : Nat → Byte) (e needed : Nat) : Prop :=
  (¬∃ k, Fits p mem e needed k) ∨ ∃ k, Fits p mem e needed k ∧ k + 1 + needed < p.poolchunks

theorem gallocator_finds_iff {heap : Heap} {mem mem' : Nat → Byte}
    (some_ : 0 < heap.pagespan.toNat)
    (zeroed : ∀ x, heap.vaddr.toNat ≤ x → x < heap.vaddr.toNat + heap.pagespan.toNat * pageSize →
      mem x = 0)
    (prepared : gallocatorInitHeap heap mem = .ok (0, mem')) {calls : List HeapCall} {s : HeapState}
    (run : Run (HeapStep heap) ⟨mem', []⟩ calls s) {size e : Nat} (positive : 0 < size)
    (small : size < 2 ^ 32) (low : e < 32) :
    ∃ p result mem'',
      (GAllocatorHeapMeta.load s.mem heap.vaddr.toNat).pool (chunksizeFor size) = some p ∧
      gallocatorAllocAligned size (2 ^ e) heap s.mem = .ok (result, mem'') ∧
      ((result = none → ¬∃ k, Fits p s.mem e (chunksNeeded size) k) ↔
        NoneOrBeforeLast p s.mem e (chunksNeeded size)) := by
  rcases heapRun_inv some_ zeroed prepared run with ⟨m, inv⟩
  rcases pool_chunksizeFor m size with ⟨p, here⟩
  rcases gallocatorAllocAligned_spec inv positive small low with ⟨result, mem'', call, -⟩
  have null := gallocatorAllocAligned_none inv.layout inv.heapMeta positive low here call
  have needed := chunksNeeded_pos positive
  refine ⟨p, result, mem'', inv.heapMeta ▸ here, call, fun property => ?_, fun condition none => ?_⟩
  · by_cases none : result = none
    · exact .inl (property none)
    · rcases not_forall.mp (none ∘ null.mpr) with ⟨k, escapes⟩
      rcases Classical.not_imp.mp escapes with ⟨fits, other⟩
      exact .inr ⟨k, fits, Nat.lt_of_le_of_ne (fits.bound s.mem needed) other⟩
  · rcases condition with nowhere | ⟨k, fits, inside⟩
    · exact nowhere
    · exact absurd (null.mp none k fits) (Nat.ne_of_lt inside)

theorem gallocator_finds_iff_page :
    ∃ mem' s, gallocatorInitHeap onePage (fun _ => 0) = .ok (0, mem') ∧
      Run (HeapStep onePage) ⟨mem', []⟩ [.alloc 100 (2 ^ 8)] s ∧
      ∃ p result mem'',
        (GAllocatorHeapMeta.load s.mem onePage.vaddr.toNat).pool (chunksizeFor 40) = some p ∧
        gallocatorAllocAligned 40 (2 ^ 3) onePage s.mem = .ok (result, mem'') ∧
        ((result = none → ¬∃ k, Fits p s.mem 3 (chunksNeeded 40) k) ↔
          NoneOrBeforeLast p s.mem 3 (chunksNeeded 40)) := by
  obtain ⟨m, mem', prepared, inv⟩ := @gallocatorInitHeap_spec onePage (fun _ => 0) (by decide)
    (by decide) fun _ _ _ => rfl
  obtain ⟨result, mem1, call, -⟩ :=
    gallocatorAllocAligned_spec inv (show 0 < 100 by decide) (by decide) (show 8 < 32 by decide)
  have run := Run.single (HeapStep.alloc (s := ⟨mem', []⟩) (by decide) (by decide) (by decide) call)
  exact ⟨mem', _, prepared, run,
    gallocator_finds_iff (by decide) (fun _ _ _ => rfl) prepared run (by decide) (by decide) (by decide)⟩

/-- Fourteen chunks are free, and the thirteen behind the first are asked for. -/
def onePageFull : Exec (Int × Bool × Option Nat) := do
  let (st, mem) ← gallocatorInitHeap onePage fun _ => 0
  match (GAllocatorHeapMeta.load mem onePage.vaddr.toNat).pool 128 with
  | none => .error .panic
  | some p =>
    let (result, _) ← gallocatorAllocAligned 1664 1 onePage mem
    pure (st, decide (Fits p mem 0 13 0), result)

theorem gallocator_misses_last :
    ∃ mem' p mem'', gallocatorInitHeap onePage (fun _ => 0) = .ok (0, mem') ∧
      (GAllocatorHeapMeta.load mem' onePage.vaddr.toNat).pool (chunksizeFor 1664) = some p ∧
      gallocatorAllocAligned 1664 (2 ^ 0) onePage mem' = .ok (none, mem'') ∧
      Fits p mem' 0 (chunksNeeded 1664) 0 := by
  have replay : onePageFull = .ok (0, true, none) := by
    decide +kernel
  rcases Exec.bind_ok.mp replay with ⟨⟨st, mem'⟩, prepared, replay⟩
  dsimp only at replay
  cases here : (GAllocatorHeapMeta.load mem' onePage.vaddr.toNat).pool 128 with
  | none =>
    rw [here] at replay
    cases replay
  | some p =>
    rw [here] at replay
    rcases Exec.bind_ok.mp replay with ⟨⟨result, mem''⟩, call, replay⟩
    have answers := Prod.mk.inj (Except.ok.inj replay)
    rcases Prod.mk.inj answers.2 with ⟨fits, none⟩
    cases answers.1
    cases none
    exact ⟨mem', p, mem'', prepared, here, call, of_decide_eq_true fits⟩

end Dxgmx
