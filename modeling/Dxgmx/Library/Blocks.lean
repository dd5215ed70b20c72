import Dxgmx.Library.Exec
import Mathlib.Data.List.Nodup
import Mathlib.Logic.Function.Basic

namespace Library

/-- The live allocations of a heap, by address. -/
abbrev Blocks (β : Type) := Nat → Option β

variable {β : Type} {blocks : Blocks β} {addr : Nat} {block : β}

/-- An allocation is given back. What is not live cannot be. -/
def Blocks.free (addr : Nat) (blocks : Blocks β) : Exec (Blocks β) :=
  match blocks addr with
  | none => .error .fault
  | some _ => .ok (Function.update blocks addr none)

def Blocks.store (addr : Nat) (block : β) (blocks : Blocks β) : Exec (Blocks β) :=
  match blocks addr with
  | none => .error .fault
  | some _ => .ok (Function.update blocks addr (some block))

/-- An allocation. What is live is not handed out again. -/
def Blocks.alloc (addr : Nat) (block : β) (blocks : Blocks β) : Exec (Blocks β) :=
  match blocks addr with
  | some _ => .error .fault
  | none => .ok (Function.update blocks addr (some block))

def Blocks.load (addr : Nat) (blocks : Blocks β) : Exec β :=
  match blocks addr with
  | none => .error .fault
  | some block => .ok block

/-- What is left without some of the blocks. -/
def Blocks.without (addrs : List Nat) (blocks : Blocks β) : Blocks β :=
  fun addr => if addr ∈ addrs then none else blocks addr

/-- The list holds the addresses of the live blocks. -/
structure Blocks.Listed (blocks : Blocks β) (list : List Nat) : Prop where
  nodup : list.Nodup
  live : ∀ addr, addr ∈ list ↔ ∃ block, blocks addr = some block

/-- No two live blocks take the same place. -/
def Blocks.Unique (taken : β → β → Prop) (blocks : Blocks β) : Prop :=
  ∀ addr other x y, blocks addr = some x → blocks other = some y → taken x y → addr = other

theorem Blocks.free_live (live : blocks addr = some block) :
    blocks.free addr = .ok (blocks.without [addr]) := by
  unfold Blocks.free
  rw [live]
  show Except.ok _ = Except.ok _
  congr 1
  funext other
  unfold Blocks.without
  by_cases same : other = addr
  · rw [same, Function.update_self, if_pos (List.mem_singleton_self addr)]
  · rw [Function.update_of_ne same, if_neg fun member => same (List.mem_singleton.mp member)]

theorem Blocks.free_dead (dead : blocks addr = none) : blocks.free addr = .error .fault := by
  unfold Blocks.free
  rw [dead]

theorem Blocks.store_live (live : blocks addr = some block) (stored : β) :
    blocks.store addr stored = .ok (Function.update blocks addr (some stored)) := by
  unfold Blocks.store
  rw [live]

theorem Blocks.alloc_ok {fresh : Blocks β} :
    blocks.alloc addr block = .ok fresh ↔
      blocks addr = none ∧ fresh = Function.update blocks addr (some block) := by
  unfold Blocks.alloc
  cases blocks addr with
  | none => simp [eq_comm]
  | some old => simp

theorem Blocks.load_ok : blocks.load addr = .ok block ↔ blocks addr = some block := by
  unfold Blocks.load
  cases blocks addr <;> simp

theorem Blocks.store_ok {stored : Blocks β} : blocks.store addr block = .ok stored ↔
    (∃ old, blocks addr = some old) ∧ stored = Function.update blocks addr (some block) := by
  unfold Blocks.store
  cases blocks addr <;> simp [eq_comm]

theorem Blocks.free_ok {left : Blocks β} : blocks.free addr = .ok left ↔
    (∃ old, blocks addr = some old) ∧ left = Function.update blocks addr none := by
  unfold Blocks.free
  cases blocks addr <;> simp [eq_comm]

theorem Blocks.load_live (live : blocks addr = some block) : blocks.load addr = .ok block := by
  unfold Blocks.load
  rw [live]

theorem Blocks.free_eq (live : blocks addr = some block) :
    blocks.free addr = .ok (Function.update blocks addr none) := by
  unfold Blocks.free
  rw [live]

theorem Blocks.without_mem {addrs : List Nat} (member : addr ∈ addrs) :
    blocks.without addrs addr = none := if_pos member

theorem Blocks.without_other {addrs : List Nat} (other : addr ∉ addrs) :
    blocks.without addrs addr = blocks addr := if_neg other

theorem Blocks.without_congr {other : Blocks β} (same : other addr = blocks addr)
    (addrs : List Nat) : other.without addrs addr = blocks.without addrs addr := by
  unfold Blocks.without
  rw [same]

theorem Blocks.without_nil : blocks.without [] = blocks :=
  funext fun _ => if_neg List.not_mem_nil

theorem Blocks.without_append (first second : List Nat) :
    (blocks.without first).without second = blocks.without (first ++ second) := by
  funext addr
  unfold Blocks.without
  by_cases later : addr ∈ second
  · rw [if_pos later, if_pos (List.mem_append_right _ later)]
  · rw [if_neg later]
    by_cases earlier : addr ∈ first
    · rw [if_pos earlier, if_pos (List.mem_append_left _ earlier)]
    · rw [if_neg earlier, if_neg fun member => (List.mem_append.mp member).elim earlier later]

/-- A block that is freed need not be stored to before. -/
theorem Blocks.without_update {addrs : List Nat} (member : addr ∈ addrs) (stored : Option β) :
    Blocks.without addrs (Function.update blocks addr stored) = blocks.without addrs := by
  funext other
  unfold Blocks.without
  by_cases freed : other ∈ addrs
  · rw [if_pos freed, if_pos freed]
  · rw [if_neg freed, if_neg freed, Function.update_of_ne fun same => freed (by rw [same]; exact member)]

/-- The blocks are those of `base` and, in the order they were allocated, the `owned` ones. -/
structure Blocks.Extends (base : Blocks β) (owned : List Nat) (blocks : Blocks β) : Prop where
  nodup : owned.Nodup
  live : ∀ addr ∈ owned, ∃ block, blocks addr = some block
  unused : ∀ addr ∈ owned, base addr = none
  rest : ∀ addr ∉ owned, blocks addr = base addr

section Extends

variable {base : Blocks β} {owned : List Nat}

theorem Blocks.Extends.refl (base : Blocks β) : base.Extends [] base :=
  ⟨.nil, nofun, nofun, fun _ _ => rfl⟩

theorem Blocks.Extends.eq (extends_ : base.Extends [] blocks) : blocks = base :=
  funext fun addr => extends_.rest addr List.not_mem_nil

theorem Blocks.Extends.ne (extends_ : base.Extends (addr :: owned) blocks) : blocks ≠ base := by
  rintro rfl
  obtain ⟨block, live⟩ := extends_.live addr List.mem_cons_self
  rw [extends_.unused addr List.mem_cons_self] at live
  cases live

theorem Blocks.Extends.alloc (extends_ : base.Extends owned blocks) (unused : base addr = none)
    (other : addr ∉ owned) (block : β) :
    blocks addr = none ∧ base.Extends (owned ++ [addr]) (Function.update blocks addr (some block)) := by
  refine ⟨(extends_.rest addr other).trans unused, ?_, ?_, ?_, ?_⟩
  · rw [← List.concat_eq_append]
    exact extends_.nodup.concat other
  · intro here member
    by_cases same : here = addr
    · rw [same, Function.update_self]
      exact ⟨block, rfl⟩
    · rw [Function.update_of_ne same]
      apply extends_.live
      simpa [same] using member
  · intro here member
    rcases List.mem_append.mp member with old | new
    · exact extends_.unused here old
    · rw [List.mem_singleton.mp new]
      exact unused
  · intro here absent
    rw [List.mem_append, List.mem_singleton, not_or] at absent
    rw [Function.update_of_ne absent.2]
    exact extends_.rest here absent.1

theorem Blocks.Extends.free (extends_ : base.Extends (addr :: owned) blocks) :
    ∃ left, blocks.free addr = .ok left ∧ base.Extends owned left := by
  obtain ⟨block, live⟩ := extends_.live addr List.mem_cons_self
  obtain ⟨absent, nodup⟩ := List.nodup_cons.mp extends_.nodup
  refine ⟨_, Blocks.free_eq live, nodup, ?_, ?_, ?_⟩
  · intro here member
    have other : here ≠ addr := fun same => absent (same ▸ member)
    rw [Function.update_of_ne other]
    exact extends_.live here (List.mem_cons_of_mem addr member)
  · exact fun here member => extends_.unused here (List.mem_cons_of_mem addr member)
  · intro here outside
    by_cases same : here = addr
    · rw [same, Function.update_self]
      exact (extends_.unused addr List.mem_cons_self).symm
    · rw [Function.update_of_ne same]
      apply extends_.rest
      simp [same, outside]

end Extends

section Listed

variable {list : List Nat} {taken : β → β → Prop} {old : β}

theorem Blocks.Listed.add (listed : blocks.Listed list) (unused : blocks addr = none) (block : β) :
    Blocks.Listed (Function.update blocks addr (some block)) (list ++ [addr]) where
  nodup := by
    rw [← List.concat_eq_append]
    apply listed.nodup.concat
    intro member
    obtain ⟨x, here⟩ := (listed.live addr).mp member
    rw [unused] at here
    cases here
  live := by
    intro other
    rw [List.mem_append, List.mem_singleton, listed.live other]
    by_cases same : other = addr
    · simp [same]
    · rw [Function.update_of_ne same]
      simp [same]

theorem Blocks.Listed.store (listed : blocks.Listed list) (here : blocks addr = some old)
    (block : β) : Blocks.Listed (Function.update blocks addr (some block)) list where
  nodup := listed.nodup
  live := by
    intro other
    rw [listed.live other]
    by_cases same : other = addr
    · simp [same, here]
    · rw [Function.update_of_ne same]

theorem Blocks.Listed.erase (listed : blocks.Listed list) (addr : Nat) :
    Blocks.Listed (Function.update blocks addr none) (list.erase addr) where
  nodup := listed.nodup.erase addr
  live := by
    intro other
    rw [listed.nodup.mem_erase_iff, listed.live other]
    by_cases same : other = addr
    · simp [same]
    · rw [Function.update_of_ne same]
      simp [same]

theorem Blocks.Unique.add (unique : blocks.Unique taken) {block : β}
    (free : ∀ other x, blocks other = some x → ¬taken x block ∧ ¬taken block x) :
    Blocks.Unique taken (Function.update blocks addr (some block)) := by
  intro a b x y first second same
  by_cases left : a = addr
  · by_cases right : b = addr
    · rw [left, right]
    · rw [Function.update_of_ne right] at second
      rw [left, Function.update_self] at first
      cases first
      exact absurd same (free b y second).2
  · rw [Function.update_of_ne left] at first
    by_cases right : b = addr
    · rw [right, Function.update_self] at second
      cases second
      exact absurd same (free a x first).1
    · rw [Function.update_of_ne right] at second
      exact unique a b x y first second same

theorem Blocks.Unique.store (unique : blocks.Unique taken) (here : blocks addr = some old)
    {block : β} (left : ∀ x, taken block x → taken old x) (right : ∀ x, taken x block → taken x old) :
    Blocks.Unique taken (Function.update blocks addr (some block)) := by
  intro a b x y first second same
  by_cases one : a = addr
  · subst one
    rw [Function.update_self] at first
    cases first
    by_cases two : b = a
    · exact two.symm
    · rw [Function.update_of_ne two] at second
      exact unique a b old y here second (left y same)
  · rw [Function.update_of_ne one] at first
    by_cases two : b = addr
    · subst two
      rw [Function.update_self] at second
      cases second
      exact unique a b x old first here (right x same)
    · rw [Function.update_of_ne two] at second
      exact unique a b x y first second same

theorem Blocks.Unique.erase (unique : blocks.Unique taken) (addr : Nat) :
    Blocks.Unique taken (Function.update blocks addr none) := by
  intro a b x y first second same
  have live : ∀ c z, Function.update blocks addr none c = some z → blocks c = some z := by
    intro c z found
    by_cases gone : c = addr
    · simp [gone] at found
    · rwa [Function.update_of_ne gone] at found
  exact unique a b x y (live a x first) (live b y second) same

end Listed

end Library
