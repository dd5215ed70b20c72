import Dxgmx.Utils.Hashtable
import Dxgmx.Library.Exec
import Dxgmx.Library.GrownArray

open Library

namespace Dxgmx

/-- `chew` answers the words that stand at `digest` for a key, or a negative errno. -/
structure HashingFunction where
  name : List (BitVec 8)
  digestSize : Nat
  chew : BitVec 64 → Except Int (Nat → BitVec 32)
  speedPriority : Nat
  refcount : Nat

/-- The words that `hashtable_key_to_slot_idx` reads. -/
def HashingFunction.digest (func : HashingFunction) (key : BitVec 64) :
    Except Int (List (BitVec 32)) :=
  (func.chew key).map fun words => (List.range (func.digestSize / 4)).map words

def sizeofHashingFunction : Nat := 24

/-- `g_hash_funcs`, what it points to and `g_hash_func_count`. -/
structure Hashing where
  hashFuncs : Nat
  funcs : GrownArray HashingFunction

namespace Hashing

variable {hashing : Hashing}

def addr (hashing : Hashing) (i : Nat) : Nat := hashing.hashFuncs + i * sizeofHashingFunction

/-- The element that a pointer is to. -/
def indexOf (func : Nat) (hashing : Hashing) : Option Nat :=
  (List.range hashing.funcs.count).find? fun i => hashing.addr i = func

/-- A pointer that is to none of the elements may not be read. -/
def load (func : Nat) (hashing : Hashing) : Exec HashingFunction :=
  match hashing.indexOf func with
  | none => .error .fault
  | some i => .ok (hashing.funcs.slot i)

def setRefcount (i refcount : Nat) (hashing : Hashing) : Hashing :=
  { hashing with funcs.slot :=
      Function.update hashing.funcs.slot i { hashing.funcs.slot i with refcount := refcount } }

/-- `tmp` is what `krealloc` answers. -/
def hashingRegisterHashfunc (tmp : Nat) (hashfunc : HashingFunction) (hashing : Hashing) :
    Int × Hashing :=
  if tmp = 0 then (-12, hashing) else (0, ⟨tmp, hashing.funcs.push hashfunc⟩)

/-- `krealloc` answers NULL for an array of no elements. -/
def hashingShrinkHashfuncs (tmp : Nat) (hashing : Hashing) : Int × Hashing :=
  if hashing.funcs.count - 1 = 0 ∨ tmp = 0 then (-12, hashing)
  else (0, ⟨tmp, hashing.funcs.slot, hashing.funcs.count - 1⟩)

def findName (name : List (BitVec 8)) (hashing : Hashing) : Option Nat :=
  (List.range hashing.funcs.count).find? fun i => (hashing.funcs.slot i).name = name

/-- What `hashing_shrink_hashfuncs` answers is not looked at. -/
def hashingUnregisterHashfunc (tmp : Nat) (name : List (BitVec 8)) (hashing : Hashing) :
    Exec (Int × Hashing) :=
  match hashing.findName name with
  | none => .error .fault
  | some i =>
    if (hashing.funcs.slot i).refcount ≠ 0 then .ok (-16, hashing)
    else
      .ok (0, (hashingShrinkHashfuncs tmp { hashing with funcs := hashing.funcs.closeGap i }).2)

/-- The loop of `hashing_best_func_by_speed`: the best so far against the next `n` elements. -/
def bestLoop (slot : Nat → HashingFunction) (best i : Nat) : Nat → Nat
  | 0 => best
  | n + 1 =>
    bestLoop slot (if (slot best).speedPriority < (slot i).speedPriority then i else best) (i + 1) n

/-- 0 is NULL. -/
def hashingBestFuncBySpeed (hashing : Hashing) : Nat :=
  if hashing.hashFuncs = 0 then 0
  else hashing.addr (bestLoop hashing.funcs.slot 0 1 (hashing.funcs.count - 1))

def hashingIncreaseRefcount (func : Nat) (hashing : Hashing) : Exec Hashing :=
  match hashing.indexOf func with
  | none => .error .fault
  | some i => .ok (hashing.setRefcount i ((hashing.funcs.slot i).refcount + 1))

def hashingDecreaseRefcount (func : Nat) (hashing : Hashing) : Exec (Int × Hashing) :=
  match hashing.indexOf func with
  | none => .error .fault
  | some i =>
    let refcount := (hashing.funcs.slot i).refcount
    if refcount = 0 then .ok (-2, hashing) else .ok (0, hashing.setRefcount i (refcount - 1))

theorem addr_inj {i j : Nat} (same : hashing.addr i = hashing.addr j) : i = j := by
  unfold addr sizeofHashingFunction at same
  omega

theorem indexOf_some {func i : Nat} :
    hashing.indexOf func = some i ↔ i < hashing.funcs.count ∧ hashing.addr i = func := by
  unfold indexOf
  constructor
  · intro found
    have inside := List.mem_range.mp (List.mem_of_find?_eq_some found)
    exact ⟨inside, by simpa using List.find?_some found⟩
  · rintro ⟨inside, rfl⟩
    cases found : (List.range hashing.funcs.count).find? fun j => hashing.addr j = hashing.addr i with
    | none =>
      have missed := List.find?_eq_none.mp found i (List.mem_range.mpr inside)
      simp at missed
    | some j =>
      have same := List.find?_some found
      rw [addr_inj (of_decide_eq_true same)]

theorem load_addr {i : Nat} (inside : i < hashing.funcs.count) :
    hashing.load (hashing.addr i) = .ok (hashing.funcs.slot i) := by
  unfold load
  rw [indexOf_some.mpr ⟨inside, rfl⟩]

theorem load_ok {func : Nat} {loaded : HashingFunction} (done : hashing.load func = .ok loaded) :
    ∃ i < hashing.funcs.count, hashing.addr i = func ∧ hashing.funcs.slot i = loaded := by
  unfold load at done
  cases found : hashing.indexOf func with
  | none =>
    rw [found] at done
    cases done
  | some i =>
    rw [found] at done
    obtain ⟨inside, same⟩ := indexOf_some.mp found
    exact ⟨i, inside, same, Except.ok.inj done⟩

/-- None of the functions has the name. -/
def Unnamed (name : List (BitVec 8)) (hashing : Hashing) : Prop :=
  ∀ i < hashing.funcs.count, (hashing.funcs.slot i).name ≠ name

theorem findName_none {name : List (BitVec 8)} :
    hashing.findName name = none ↔ hashing.Unnamed name := by
  unfold findName Unnamed
  rw [List.find?_eq_none]
  simp

theorem findName_some {name : List (BitVec 8)} {i : Nat} (found : hashing.findName name = some i) :
    i < hashing.funcs.count ∧ (hashing.funcs.slot i).name = name :=
  ⟨List.mem_range.mp (List.mem_of_find?_eq_some found), by simpa using List.find?_some found⟩

theorem bestLoop_range (slot : Nat → HashingFunction) (n best i : Nat) :
    bestLoop slot best i n = best ∨ i ≤ bestLoop slot best i n ∧ bestLoop slot best i n < i + n := by
  induction n generalizing best i with
  | zero => exact .inl rfl
  | succ n ih =>
    unfold bestLoop
    rcases ih (if (slot best).speedPriority < (slot i).speedPriority then i else best) (i + 1) with
      same | ⟨low, high⟩
    · rw [same]
      split
      · exact .inr ⟨Nat.le_refl i, by omega⟩
      · exact .inl rfl
    · exact .inr ⟨by omega, by omega⟩

theorem hashingBestFuncBySpeed_addr (filled : hashing.hashFuncs ≠ 0 → 0 < hashing.funcs.count)
    (some_ : hashing.hashingBestFuncBySpeed ≠ 0) :
    ∃ i < hashing.funcs.count, hashing.hashingBestFuncBySpeed = hashing.addr i := by
  unfold hashingBestFuncBySpeed at some_ ⊢
  by_cases null : hashing.hashFuncs = 0
  · rw [if_pos null] at some_
    exact absurd rfl some_
  · have positive := filled null
    rw [if_neg null]
    refine ⟨_, ?_, rfl⟩
    rcases bestLoop_range hashing.funcs.slot (hashing.funcs.count - 1) 0 1 with same | ⟨-, high⟩
    · rw [same]
      exact positive
    · omega

@[simp] theorem setRefcount_addr (i refcount j : Nat) :
    (hashing.setRefcount i refcount).addr j = hashing.addr j := rfl

@[simp] theorem setRefcount_count (i refcount : Nat) :
    (hashing.setRefcount i refcount).funcs.count = hashing.funcs.count := rfl

theorem setRefcount_refcount (i refcount j : Nat) :
    ((hashing.setRefcount i refcount).funcs.slot j).refcount =
      if j = i then refcount else (hashing.funcs.slot j).refcount := by
  unfold setRefcount
  dsimp only
  by_cases same : j = i
  · rw [same, Function.update_self, if_pos rfl]
  · rw [Function.update_of_ne same, if_neg same]

end Hashing

/-- The same function, with any count of references. -/
structure HashingFunction.Same (func other : HashingFunction) : Prop where
  name : func.name = other.name
  digestSize : func.digestSize = other.digestSize
  chew : func.chew = other.chew

theorem HashingFunction.Same.digest {func other : HashingFunction} (same : func.Same other) :
    func.digest = other.digest := by
  funext key
  unfold HashingFunction.digest
  rw [same.chew, same.digestSize]

theorem Hashing.setRefcount_same (hashing : Hashing) (i refcount j : Nat) :
    ((hashing.setRefcount i refcount).funcs.slot j).Same (hashing.funcs.slot j) := by
  unfold setRefcount
  dsimp only
  by_cases same : j = i
  · rw [same, Function.update_self]
    exact ⟨rfl, rfl, rfl⟩
  · rw [Function.update_of_ne same]
    exact ⟨rfl, rfl, rfl⟩

/-- A table at an address of its owner's, with the pointer it keeps. `made` is a ghost: the function
    it was made with. `contents` is the table for that one's digests. -/
structure KeptTable (ν : Type) where
  addr : Nat
  hashfunc : Nat
  contents : HashTable ν
  made : HashingFunction

structure HashTables (ν : Type) where
  hashing : Hashing
  tables : List (KeptTable ν)

namespace HashTables

variable {ν : Type}

def start : HashTables ν := ⟨⟨0, fun _ => ⟨[], 0, fun _ => .error 0, 0, 0⟩, 0⟩, []⟩

def table (addr : Nat) (state : HashTables ν) : Option (KeptTable ν) :=
  state.tables.find? fun table => table.addr = addr

def others (addr : Nat) (state : HashTables ν) : List (KeptTable ν) :=
  state.tables.filter fun table => table.addr ≠ addr

/-- `mem` says whether `kcalloc` finds memory. Before that the table is cleared. -/
def hashtableInit (mem : Bool) (addr : Nat) (state : HashTables ν) : Exec (Int × HashTables ν) :=
  let func := state.hashing.hashingBestFuncBySpeed
  if func = 0 then .ok (-19, ⟨state.hashing, state.others addr⟩)
  else if mem = false then .ok (-12, ⟨state.hashing, state.others addr⟩)
  else do
    let made ← state.hashing.load func
    let hashing ← state.hashing.hashingIncreaseRefcount func
    pure (0, ⟨hashing, ⟨addr, func, HashTable.init made.digest, made⟩ :: state.others addr⟩)

/-- The digests that a call works with are those of the function its pointer is to. -/
def chewing (table : KeptTable ν) (hashing : Hashing) : Exec (HashTable ν) := do
  let func ← hashing.load table.hashfunc
  assert (func.digestSize % 4 = 0)
  pure { table.contents with chew := func.digest }

def hashtableInsert (memTable memSlot : Bool) (addr : Nat) (key : BitVec 64) (value : ν)
    (state : HashTables ν) : Exec (Except Int Unit × HashTables ν) :=
  match state.table addr with
  | none => .error .fault
  | some table =>
    match table.contents.maybeEnlarge memTable with
    | .error st => .ok (.error st, state)
    | .ok _ => do
      let ht ← chewing table state.hashing
      let (result, ht) := ht.insert memTable memSlot key value
      let contents := { ht with chew := table.contents.chew }
      pure (result, ⟨state.hashing, { table with contents := contents } :: state.others addr⟩)

def hashtableFind (addr : Nat) (key : BitVec 64) (state : HashTables ν) : Exec (Except Int ν) :=
  match state.table addr with
  | none => .error .fault
  | some table => do
    let ht ← chewing table state.hashing
    pure (ht.find key)

def hashtableDestroy (addr : Nat) (state : HashTables ν) : Exec (HashTables ν) :=
  match state.table addr with
  | none => .error .fault
  | some table => do
    let (_, hashing) ← state.hashing.hashingDecreaseRefcount table.hashfunc
    pure ⟨hashing, state.others addr⟩

end HashTables

end Dxgmx
