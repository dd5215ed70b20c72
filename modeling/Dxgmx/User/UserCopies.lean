import Dxgmx.User.User32

namespace Dxgmx

/-- The bytes of the source range, at the destination. -/
def copied (mem : Ptr → Byte) (dest src : Ptr) (count : Nat) : Ptr → Byte := fun addr =>
  if (addr - dest).toNat < count then mem (src + (addr - dest)) else mem addr

/-- The length of a string of at most `n` bytes. -/
def strnlen (mem : Ptr → Byte) (str : Ptr) : (n : Nat) → Nat
  | 0 => 0
  | n + 1 => if mem str = 0 then 0 else strnlen mem (str + 1) n + 1

/-- The bytes up to and with the terminator, or `n` bytes without one. -/
def stringBytes (mem : Ptr → Byte) (str : Ptr) (n : Nat) : Nat := min (strnlen mem str n + 1) n

/-- The string in a buffer of `n` bytes. -/
def stringAt (mem : Ptr → Byte) (str : Ptr) : (n : Nat) → List Byte
  | 0 => []
  | n + 1 => if mem str = 0 then [] else mem str :: stringAt mem (str + 1) n

/-- Each of the `count` addresses from `start` on is a good one. -/
def AllFrom (good : Ptr → Bool) (start : Ptr) (count : Nat) : Prop :=
  ∀ i < count, good (start + BitVec.ofNat 32 i) = true

/-- A string that is longer than `n` bytes loses the last of them to a terminator. -/
def copiedString (mem : Ptr → Byte) (dest src : Ptr) : (n : Nat) → Ptr → Byte
  | 0 => mem
  | n + 1 =>
    if strnlen mem src (n + 1) < n + 1 then copied mem dest src (stringBytes mem src (n + 1))
    else Function.update (copied mem dest src (n + 1)) (dest + BitVec.ofNat 32 n) 0

/-- Copying upwards never stores over a byte it has yet to load. -/
def CopiesUpwards (dest src : Ptr) (count : Nat) : Prop :=
  ∀ i < count, 0 < i → src + BitVec.ofNat 32 i ≠ dest

/-- The bytes that a copy of `left` bytes stores before it ends or faults. -/
def copiedBytes (space : PageRights) : (left : Nat) → (dest src : Ptr) → Nat
  | 0, _, _ => 0
  | left + 1, dest, src =>
    if space.mayReadLong src && space.mayWrite dest then
      copiedBytes space left (dest + 1) (src + 1) + 1
    else 0

/-- The memory after `count` bytes are copied one after another. -/
def copiedUpwards : (count : Nat) → (mem : Ptr → Byte) → (dest src : Ptr) → Ptr → Byte
  | 0, mem, _, _ => mem
  | count + 1, mem, dest, src =>
    copiedUpwards count (Function.update mem dest (mem src)) (dest + 1) (src + 1)

section Offsets

theorem next_offset (addr : Ptr) (i : Nat) :
    addr + 1 + BitVec.ofNat 32 i = addr + BitVec.ofNat 32 (i + 1) := by
  bv_omega

theorem zero_offset (addr : Ptr) : addr + BitVec.ofNat 32 0 = addr := BitVec.add_zero addr

theorem allFrom_zero (good : Ptr → Bool) (start : Ptr) : AllFrom good start 0 :=
  fun _ inside => absurd inside (by omega)

theorem allFrom_succ (good : Ptr → Bool) (start : Ptr) (count : Nat) :
    AllFrom good start (count + 1) ↔ good start = true ∧ AllFrom good (start + 1) count := by
  simp only [AllFrom, next_offset]
  constructor
  · intro all
    have first := all 0 (by omega)
    exact ⟨by simpa using first, fun i inside => all (i + 1) (by omega)⟩
  · rintro ⟨first, rest⟩ i inside
    cases i with
    | zero => simpa using first
    | succ i => exact rest i (by omega)

theorem CopiesUpwards.next {dest src : Ptr} {count : Nat}
    (upwards : CopiesUpwards dest src (count + 1)) :
    CopiesUpwards (dest + 1) (src + 1) count := by
  intro i inside positive same
  apply upwards i (by omega) positive
  bv_omega

theorem strnlen_le (mem : Ptr → Byte) (str : Ptr) (n : Nat) : strnlen mem str n ≤ n := by
  induction n generalizing str with
  | zero => exact Nat.le_refl 0
  | succ n ih =>
    rw [strnlen]
    split
    · omega
    · exact Nat.succ_le_succ (ih (str + 1))

theorem stringBytes_zero (mem : Ptr → Byte) (str : Ptr) : stringBytes mem str 0 = 0 := by
  simp [stringBytes]

theorem stringBytes_succ (mem : Ptr → Byte) (str : Ptr) (n : Nat) :
    stringBytes mem str (n + 1) = if mem str = 0 then 1 else stringBytes mem (str + 1) n + 1 := by
  simp only [stringBytes, strnlen]
  split
  · omega
  · omega

theorem strnlen_update {mem : Ptr → Byte} {str dest : Ptr} {n : Nat} (byte : Byte)
    (elsewhere : ∀ i < stringBytes mem str n, str + BitVec.ofNat 32 i ≠ dest) :
    strnlen (Function.update mem dest byte) str n = strnlen mem str n := by
  induction n generalizing str with
  | zero => rfl
  | succ n ih =>
    rw [stringBytes_succ] at elsewhere
    have first : str ≠ dest := by
      have zeroth := elsewhere 0 (by split <;> omega)
      simpa using zeroth
    rw [strnlen, strnlen, Function.update_of_ne first]
    by_cases terminator : mem str = 0
    · rw [if_pos terminator, if_pos terminator]
    · rw [if_neg terminator] at elsewhere
      rw [if_neg terminator, if_neg terminator, ih]
      intro i inside
      rw [next_offset]
      exact elsewhere (i + 1) (by omega)

theorem strnlen_next {mem : Ptr → Byte} {dest src : Ptr} {n : Nat} (byte : Byte)
    (upwards : CopiesUpwards dest src (stringBytes mem (src + 1) n + 1)) :
    strnlen (Function.update mem dest byte) (src + 1) n = strnlen mem (src + 1) n := by
  apply strnlen_update
  intro i inside
  rw [next_offset]
  exact upwards (i + 1) (by omega) (by omega)

theorem strnlen_long {mem : Ptr → Byte} {n : Nat} {str : Ptr}
    (long : ∀ i < n, mem (str + BitVec.ofNat 32 i) ≠ 0) :
    strnlen mem str n = n := by
  induction n generalizing str with
  | zero => rfl
  | succ n ih =>
    have first := long 0 (by omega)
    rw [zero_offset] at first
    rw [strnlen, if_neg first, ih]
    intro i inside
    rw [next_offset]
    exact long (i + 1) (by omega)

theorem stringAt_congr {mem mem' : Ptr → Byte} {n : Nat} {str str' : Ptr} (same : ∀ i < n,
    mem' (str' + BitVec.ofNat 32 i) = mem (str + BitVec.ofNat 32 i)) :
    stringAt mem' str' n = stringAt mem str n := by
  induction n generalizing str str' with
  | zero => rfl
  | succ n ih =>
    have first := same 0 (by omega)
    rw [zero_offset, zero_offset] at first
    have rest := @ih (str + 1) (str' + 1) fun i inside => by
      rw [next_offset, next_offset]
      exact same (i + 1) (by omega)
    rw [stringAt, stringAt, first, rest]

/-- A terminator at the end of the buffer is not part of the string. -/
theorem stringAt_terminated {mem : Ptr → Byte} {n : Nat} {str : Ptr} (ends : mem (str + BitVec.ofNat 32 n) = 0) :
    stringAt mem str (n + 1) = stringAt mem str n := by
  induction n generalizing str with
  | zero =>
    rw [zero_offset] at ends
    exact if_pos ends
  | succ n ih =>
    rw [← next_offset] at ends
    rw [stringAt, ih ends]
    rfl

theorem copied_zero (mem : Ptr → Byte) (dest src : Ptr) : copied mem dest src 0 = mem := by
  funext addr
  simp [copied]

theorem copied_one (mem : Ptr → Byte) (dest src : Ptr) :
    copied mem dest src 1 = Function.update mem dest (mem src) := by
  funext addr
  by_cases first : addr = dest
  · subst first
    simp [copied]
  · have outside : ¬(addr - dest).toNat < 1 := by bv_omega
    rw [copied, if_neg outside, Function.update_of_ne first]

/-- Where the first byte is stored over no later one, the rest is copied as if nothing was. -/
theorem copied_next {mem : Ptr → Byte} {dest src : Ptr} {count : Nat} (fits : count + 1 < 2 ^ 32)
    (upwards : CopiesUpwards dest src (count + 1)) :
    copied (Function.update mem dest (mem src)) (dest + 1) (src + 1) count =
      copied mem dest src (count + 1) := by
  funext addr
  by_cases first : addr = dest
  · subst first
    have before : ¬(addr - (addr + 1)).toNat < count := by bv_omega
    have inside : (addr - addr).toNat < count + 1 := by simp
    simp only [copied]
    rw [if_neg before, if_pos inside]
    simp
  · have shift : (addr - (dest + 1)).toNat + 1 = (addr - dest).toNat := by bv_omega
    have same : src + 1 + (addr - (dest + 1)) = src + (addr - dest) := by bv_omega
    simp only [copied]
    rw [same, Function.update_of_ne first]
    by_cases inside : (addr - dest).toNat < count + 1
    · rw [if_pos inside, if_pos (by omega)]
      apply Function.update_of_ne
      have other := upwards (addr - dest).toNat inside (by omega)
      rw [BitVec.ofNat_toNat, BitVec.setWidth_eq] at other
      exact other
    · rw [if_neg inside, if_neg (by omega)]

end Offsets

section Copies

variable {space : PageRights} {n ecx : BitVec 32} {left : Nat}

theorem userCopyLoop_status {dest src : Ptr} {mem : Ptr → Byte}
    (counts : ecx.toNat + left = n.toNat) (reads : AllFrom space.mayReadLong src left)
    (writes : AllFrom space.mayWrite dest left) : (userCopyLoop space n ecx dest src mem).1 = 0 := by
  induction left generalizing ecx dest src mem with
  | zero => rw [userCopyLoop, if_pos (by bv_omega)]
  | succ left ih =>
    obtain ⟨readsFirst, readsRest⟩ := (allFrom_succ _ _ _).mp reads
    obtain ⟨writesFirst, writesRest⟩ := (allFrom_succ _ _ _).mp writes
    rw [userCopyLoop, if_neg (by bv_omega), if_neg (by simp [readsFirst]),
      if_neg (by simp [writesFirst])]
    exact ih (by bv_omega) readsRest writesRest

theorem userStrnlenLoop_faults {str : Ptr} {mem : Ptr → Byte}
    (counts : ecx.toNat + left = n.toNat)
    (blocked : ¬AllFrom space.mayReadLong str (stringBytes mem str left)) :
    userStrnlenLoop space n ecx str mem = efault := by
  induction left generalizing ecx str with
  | zero =>
    rw [stringBytes_zero] at blocked
    exact absurd (allFrom_zero _ _) blocked
  | succ left ih =>
    rw [userStrnlenLoop, if_neg (by bv_omega)]
    by_cases reads : space.mayReadLong str = false
    · rw [if_pos reads]
    rw [if_neg reads, longAt_low]
    rw [Bool.not_eq_false] at reads
    rw [stringBytes_succ] at blocked
    by_cases terminator : mem str = 0
    · rw [if_pos terminator, allFrom_succ] at blocked
      exact absurd ⟨reads, allFrom_zero _ _⟩ blocked
    · rw [if_neg terminator, allFrom_succ] at blocked
      rw [if_neg terminator]
      apply ih (by bv_omega)
      exact fun rest => blocked ⟨reads, rest⟩

theorem userStrnlenLoop_counts {str : Ptr} {mem : Ptr → Byte}
    (counts : ecx.toNat + left = n.toNat)
    (reads : AllFrom space.mayReadLong str (stringBytes mem str left)) :
    userStrnlenLoop space n ecx str mem = ecx + BitVec.ofNat 32 (strnlen mem str left) := by
  induction left generalizing ecx str with
  | zero =>
    rw [userStrnlenLoop, if_pos (by bv_omega), strnlen]
    simp
  | succ left ih =>
    rw [stringBytes_succ] at reads
    rw [userStrnlenLoop, if_neg (by bv_omega), strnlen, longAt_low]
    by_cases terminator : mem str = 0
    · rw [if_pos terminator, allFrom_succ] at reads
      rw [if_neg (by simp [reads.1]), if_pos terminator, if_pos terminator]
      simp
    · rw [if_neg terminator, allFrom_succ] at reads
      rw [if_neg (by simp [reads.1]), if_neg terminator, if_neg terminator,
        ih (by bv_omega) reads.2]
      bv_omega

/-- The counter of `user_copy_str_from`, before the byte it counts. -/
theorem slt_next {maxn ecx : BitVec 32} (counts : ecx.toNat + (left + 1) = maxn.toNat)
    (signed : maxn.toNat < 2 ^ 31) : (ecx + 1).slt maxn = true ↔ left ≠ 0 := by
  have next : (ecx + 1).toNat = ecx.toNat + 1 := by bv_omega
  rw [BitVec.slt_iff_toInt_lt, BitVec.toInt_eq_toNat_of_lt (by omega),
    BitVec.toInt_eq_toNat_of_lt (by omega)]
  omega

theorem userCopyStrFromLoop_faults {src dest : Ptr} {mem : Ptr → Byte}
    (counts : ecx.toNat + (left + 1) = n.toNat) (signed : n.toNat < 2 ^ 31)
    (upwards : CopiesUpwards dest src (stringBytes mem src (left + 1)))
    (blocked : ¬(AllFrom space.mayReadLong src (stringBytes mem src (left + 1)) ∧
      AllFrom space.mayWrite dest (stringBytes mem src (left + 1)))) :
    (userCopyStrFromLoop space n ecx src dest mem).1 = efault := by
  induction left generalizing ecx dest src mem with
  | zero =>
    have one : stringBytes mem src (0 + 1) = 0 + 1 := by
      rw [stringBytes_succ, stringBytes_zero, ite_self]
    rw [one, allFrom_succ, allFrom_succ] at blocked
    rw [userCopyStrFromLoop]
    by_cases reads : space.mayReadLong src = false
    · rw [if_pos reads]
    by_cases writes : space.mayWrite dest = false
    · simp [reads, writes]
    rw [Bool.not_eq_false] at reads writes
    exact absurd ⟨⟨reads, allFrom_zero _ _⟩, writes, allFrom_zero _ _⟩ blocked
  | succ left ih =>
    rw [stringBytes_succ] at blocked upwards
    rw [userCopyStrFromLoop]
    by_cases reads : space.mayReadLong src = false
    · rw [if_pos reads]
    by_cases writes : space.mayWrite dest = false
    · simp [reads, writes]
    simp only [longAt_low]
    rw [if_neg reads, if_neg writes]
    rw [Bool.not_eq_false] at reads writes
    by_cases terminator : mem src = 0
    · rw [if_pos terminator, allFrom_succ, allFrom_succ] at blocked
      exact absurd ⟨⟨reads, allFrom_zero _ _⟩, writes, allFrom_zero _ _⟩ blocked
    · rw [if_neg terminator] at blocked upwards
      rw [if_neg terminator, if_pos ((slt_next counts signed).mpr (by omega))]
      have same : stringBytes (Function.update mem dest (mem src)) (src + 1) (left + 1) =
          stringBytes mem (src + 1) (left + 1) := by
        rw [stringBytes, strnlen_next _ upwards, ← stringBytes]
      rw [allFrom_succ, allFrom_succ] at blocked
      apply ih (by bv_omega)
      · rw [same]
        exact upwards.next
      · rw [same]
        rintro ⟨readsRest, writesRest⟩
        exact blocked ⟨⟨reads, readsRest⟩, writes, writesRest⟩

theorem copiedString_next {mem : Ptr → Byte} {dest src : Ptr} {n : Nat} (fits : n + 2 < 2 ^ 32)
    (more : mem src ≠ 0)
    (upwards : CopiesUpwards dest src (stringBytes mem (src + 1) (n + 1) + 1)) :
    copiedString (Function.update mem dest (mem src)) (dest + 1) (src + 1) (n + 1) =
      copiedString mem dest src (n + 2) := by
  have same := strnlen_next (mem src) upwards
  have bound := strnlen_le mem (src + 1) (n + 1)
  have step : strnlen mem src (n + 1 + 1) = strnlen mem (src + 1) (n + 1) + 1 := by
    rw [strnlen, if_neg more]
  simp only [copiedString, stringBytes, same, step]
  by_cases ends : strnlen mem (src + 1) (n + 1) < n + 1
  · have first : min (strnlen mem (src + 1) (n + 1) + 1) (n + 1) + 1 =
        min (strnlen mem (src + 1) (n + 1) + 1 + 1) (n + 1 + 1) := by omega
    rw [if_pos ends, if_pos (by omega), ← first]
    apply copied_next
    · omega
    · exact upwards
  · have whole : stringBytes mem (src + 1) (n + 1) = n + 1 := by
      rw [stringBytes]
      omega
    rw [whole] at upwards
    rw [if_neg ends, if_neg (by omega), copied_next (by omega) upwards, next_offset]

theorem userCopyStrFromLoop_copies {src dest : Ptr} {mem : Ptr → Byte}
    (counts : ecx.toNat + (left + 1) = n.toNat) (signed : n.toNat < 2 ^ 31)
    (upwards : CopiesUpwards dest src (stringBytes mem src (left + 1)))
    (reads : AllFrom space.mayReadLong src (stringBytes mem src (left + 1)))
    (writes : AllFrom space.mayWrite dest (stringBytes mem src (left + 1))) :
    userCopyStrFromLoop space n ecx src dest mem = (0, copiedString mem dest src (left + 1)) := by
  induction left generalizing ecx dest src mem with
  | zero =>
    have one : stringBytes mem src (0 + 1) = 0 + 1 := by
      rw [stringBytes_succ, stringBytes_zero, ite_self]
    rw [one, allFrom_succ] at reads writes
    rw [userCopyStrFromLoop]
    simp only [longAt_low, reads.1, writes.1]
    have last : ¬(ecx + 1).slt n = true := by
      rw [slt_next counts signed]
      simp
    rw [if_neg (by simp), if_neg (by simp), if_neg last, copiedString, strnlen, strnlen]
    by_cases terminator : mem src = 0
    · simp [terminator, one, copied_one]
    · rw [if_neg terminator, if_neg terminator, if_neg (by omega), copied_one]
      simp
  | succ left ih =>
    rw [stringBytes_succ] at reads writes upwards
    rw [userCopyStrFromLoop]
    simp only [longAt_low]
    by_cases terminator : mem src = 0
    · rw [if_pos terminator, allFrom_succ] at reads writes
      simp only [reads.1, writes.1]
      simp [copiedString, stringBytes, strnlen, terminator, copied_one]
    · rw [if_neg terminator] at upwards
      rw [if_neg terminator, allFrom_succ] at reads writes
      have same : stringBytes (Function.update mem dest (mem src)) (src + 1) (left + 1) =
          stringBytes mem (src + 1) (left + 1) := by
        rw [stringBytes, strnlen_next _ upwards, ← stringBytes]
      rw [if_neg (by simp [reads.1]), if_neg (by simp [writes.1]), if_neg terminator,
        if_pos ((slt_next counts signed).mpr (by omega)),
        ih (by bv_omega) (by rw [same]; exact upwards.next) (by rw [same]; exact reads.2)
          (by rw [same]; exact writes.2),
        copiedString_next (by omega) terminator upwards]

end Copies

section Counts

variable {space : PageRights} {n ecx : BitVec 32} {left : Nat}

theorem copiedBytes_le (space : PageRights) (left : Nat) (dest src : Ptr) :
    copiedBytes space left dest src ≤ left := by
  induction left generalizing dest src with
  | zero => exact Nat.le_refl 0
  | succ left ih =>
    rw [copiedBytes]
    split
    · exact Nat.succ_le_succ (ih (dest + 1) (src + 1))
    · omega

theorem copiedBytes_all (space : PageRights) (left : Nat) (dest src : Ptr) :
    copiedBytes space left dest src = left ↔
      AllFrom space.mayReadLong src left ∧ AllFrom space.mayWrite dest left := by
  induction left generalizing dest src with
  | zero => exact ⟨fun _ => ⟨allFrom_zero _ _, allFrom_zero _ _⟩, fun _ => rfl⟩
  | succ left ih =>
    rw [copiedBytes, allFrom_succ, allFrom_succ]
    by_cases first : (space.mayReadLong src && space.mayWrite dest) = true
    · rw [if_pos first, Nat.add_right_cancel_iff, ih]
      simp only [Bool.and_eq_true] at first
      simp only [first.1, first.2, true_and]
    · rw [if_neg first]
      simp only [Bool.and_eq_true] at first
      exact ⟨fun none => absurd none (by omega), fun all => absurd ⟨all.1.1, all.2.1⟩ first⟩

theorem copiedBytes_none (space : PageRights) {left : Nat} (dest src : Ptr) (some : 0 < left) :
    copiedBytes space left dest src = 0 ↔
      ¬(space.mayReadLong src = true ∧ space.mayWrite dest = true) := by
  obtain ⟨rest, rfl⟩ : ∃ rest, left = rest + 1 := ⟨left - 1, by omega⟩
  rw [copiedBytes, ← Bool.and_eq_true]
  split
  · rename_i first
    exact ⟨fun none => absurd none (by omega), fun not => absurd first not⟩
  · rename_i first
    exact ⟨fun _ => first, fun _ => rfl⟩

/-- The copy ends well exactly if it stores all of its bytes. -/
theorem userCopyLoop_stores {dest src : Ptr} {mem : Ptr → Byte}
    (counts : ecx.toNat + left = n.toNat) :
    userCopyLoop space n ecx dest src mem =
      (if copiedBytes space left dest src = left then 0 else efault,
        copiedUpwards (copiedBytes space left dest src) mem dest src) := by
  induction left generalizing ecx dest src mem with
  | zero =>
    rw [userCopyLoop, if_pos (by bv_omega)]
    rfl
  | succ left ih =>
    rw [userCopyLoop, if_neg (by bv_omega), copiedBytes]
    by_cases reads : space.mayReadLong src = true
    · by_cases writes : space.mayWrite dest = true
      · rw [if_neg (by simp [reads]), if_neg (by simp [writes]), longAt_low, ih (by bv_omega)]
        simp only [reads, writes, Bool.and_self, if_true, Nat.add_right_cancel_iff]
        rfl
      · rw [Bool.not_eq_true] at writes
        simp [reads, writes, copiedUpwards]
    · rw [Bool.not_eq_true] at reads
      simp [reads, copiedUpwards]

theorem copiedUpwards_outside {count : Nat} {mem : Ptr → Byte} {dest src addr : Ptr}
    (outside : ∀ i < count, addr ≠ dest + BitVec.ofNat 32 i) :
    copiedUpwards count mem dest src addr = mem addr := by
  induction count generalizing mem dest src with
  | zero => rfl
  | succ count ih =>
    have first := outside 0 (by omega)
    rw [zero_offset] at first
    rw [copiedUpwards, ih, Function.update_of_ne first]
    intro i inside
    rw [next_offset]
    exact outside (i + 1) (by omega)

end Counts

section Routines

variable (space : PageRights) (mem : Ptr → Byte)

end Routines

section Examples

end Examples

end Dxgmx
