import Dxgmx.Crypto.Hashing
import Dxgmx.Library.Runs

open Library

namespace Dxgmx

namespace HashTables

variable {ν : Type}

/-- A call, with what `krealloc` and `kcalloc` answer it. -/
inductive HashCall (ν : Type)
  | register (tmp : Nat) (hashfunc : HashingFunction)
  | unregister (tmp : Nat) (name : List (BitVec 8))
  | init (mem : Bool) (addr : Nat)
  | insert (memTable memSlot : Bool) (addr : Nat) (key : BitVec 64) (value : ν)
  | find (addr : Nat) (key : BitVec 64)
  | destroy (addr : Nat)

def errnoOf {α : Type} : Except Int α → Int
  | .error st => st
  | .ok _ => 0

/-- A call that comes back, with its status. -/
inductive HashStep : HashTables ν → HashCall ν → Int → HashTables ν → Prop
  | register {state : HashTables ν} {tmp : Nat} {hashfunc : HashingFunction} {st : Int}
      {hashing : Hashing} (call : state.hashing.hashingRegisterHashfunc tmp hashfunc = (st, hashing)) :
      HashStep state (.register tmp hashfunc) st ⟨hashing, state.tables⟩
  | unregister {state : HashTables ν} {tmp : Nat} {name : List (BitVec 8)} {st : Int}
      {hashing : Hashing}
      (call : state.hashing.hashingUnregisterHashfunc tmp name = .ok (st, hashing)) :
      HashStep state (.unregister tmp name) st ⟨hashing, state.tables⟩
  | init {state state' : HashTables ν} {mem : Bool} {addr : Nat} {st : Int}
      (call : state.hashtableInit mem addr = .ok (st, state')) :
      HashStep state (.init mem addr) st state'
  | insert {state state' : HashTables ν} {memTable memSlot : Bool} {addr : Nat}
      {key : BitVec 64} {value : ν} {result : Except Int Unit}
      (call : state.hashtableInsert memTable memSlot addr key value = .ok (result, state')) :
      HashStep state (.insert memTable memSlot addr key value) (errnoOf result) state'
  | find {state : HashTables ν} {addr : Nat} {key : BitVec 64} {result : Except Int ν}
      (call : state.hashtableFind addr key = .ok result) :
      HashStep state (.find addr key) (errnoOf result) state
  | destroy {state state' : HashTables ν} {addr : Nat}
      (call : state.hashtableDestroy addr = .ok state') : HashStep state (.destroy addr) 0 state'

/-- Functions come and go only while there are no tables, each under a name of its own, and one that
    goes is neither unknown nor the last one. -/
def Careful (state : HashTables ν) : HashCall ν → Prop
  | .register tmp hashfunc =>
    tmp = 0 ∨ state.tables = [] ∧ state.hashing.Unnamed hashfunc.name
  | .unregister tmp name =>
    (∃ table ∈ state.tables, table.made.name = name) ∨
      state.tables = [] ∧ ¬state.hashing.Unnamed name ∧ 2 ≤ state.hashing.funcs.count ∧ tmp ≠ 0
  | _ => True

def CarefulStep (state : HashTables ν) (call : HashCall ν) (state' : HashTables ν) : Prop :=
  state.Careful call ∧ ∃ st, HashStep state call st state'

/-- Each table's pointer is to the function it was made with, which counts it. -/
structure Sound (state : HashTables ν) : Prop where
  filled : state.hashing.hashFuncs ≠ 0 → 0 < state.hashing.funcs.count
  names : ∀ i < state.hashing.funcs.count, ∀ j < state.hashing.funcs.count,
    (state.hashing.funcs.slot i).name = (state.hashing.funcs.slot j).name → i = j
  kept : ∀ table ∈ state.tables, ∃ i < state.hashing.funcs.count,
    state.hashing.addr i = table.hashfunc ∧ (state.hashing.funcs.slot i).Same table.made
  digests : ∀ table ∈ state.tables, table.contents.chew = table.made.digest
  counted : ∀ i < state.hashing.funcs.count,
    state.tables.countP (fun table => table.hashfunc = state.hashing.addr i) ≤
      (state.hashing.funcs.slot i).refcount

variable {state state' : HashTables ν} {hashing : Hashing} {addr : Nat} {table : KeptTable ν}

theorem table_some (found : state.table addr = some table) :
    table ∈ state.tables ∧ table.addr = addr :=
  ⟨List.mem_of_find?_eq_some found, by simpa using List.find?_some found⟩

theorem mem_others {other : KeptTable ν} :
    other ∈ state.others addr ↔ other ∈ state.tables ∧ other.addr ≠ addr := by
  simp [others]

theorem countP_others (found : state.table addr = some table) (p : KeptTable ν → Bool) :
    (state.others addr).countP p + (if p table then 1 else 0) ≤ state.tables.countP p := by
  rcases table_some found with ⟨member, same⟩
  rcases List.append_of_mem member with ⟨before, after, split⟩
  unfold others
  rw [split]
  have first := (List.filter_sublist (p := fun t : KeptTable ν => decide (t.addr ≠ addr))
    (l := before)).countP_le (p := p)
  have second := (List.filter_sublist (p := fun t : KeptTable ν => decide (t.addr ≠ addr))
    (l := after)).countP_le (p := p)
  rw [List.filter_append, List.filter_cons_of_neg (by simp [same]), List.countP_append,
    List.countP_append, List.countP_cons]
  omega

theorem countP_others_le (addr : Nat) (p : KeptTable ν → Bool) :
    (state.others addr).countP p ≤ state.tables.countP p :=
  List.filter_sublist.countP_le

theorem Sound.without (none : state.tables = []) (filled : hashing.hashFuncs ≠ 0 → 0 < hashing.funcs.count)
    (names : ∀ i < hashing.funcs.count, ∀ j < hashing.funcs.count,
      (hashing.funcs.slot i).name = (hashing.funcs.slot j).name → i = j) :
    Sound ⟨hashing, state.tables⟩ := by
  rw [none]
  exact ⟨filled, names, nofun, nofun, fun _ _ => Nat.zero_le _⟩

namespace Sound

variable (sound : state.Sound)

include sound

/-- A function that a table was made with cannot be unregistered. -/
theorem busy (member : table ∈ state.tables) (tmp : Nat) :
    state.hashing.hashingUnregisterHashfunc tmp table.made.name = .ok (-16, state.hashing) := by
  rcases sound.kept table member with ⟨i, inside, pointer, same⟩
  have referenced : 0 < (state.hashing.funcs.slot i).refcount := by
    apply Nat.lt_of_lt_of_le _ (sound.counted i inside)
    apply List.countP_pos_iff.mpr
    exact ⟨table, member, decide_eq_true pointer.symm⟩
  unfold Hashing.hashingUnregisterHashfunc
  cases found : state.hashing.findName table.made.name with
  | none => exact absurd same.name (Hashing.findName_none.mp found i inside)
  | some j =>
    rcases Hashing.findName_some found with ⟨within, named⟩
    have hit := sound.names j within i inside (named.trans same.name.symm)
    subst hit
    exact if_pos (Nat.ne_of_gt referenced)

theorem register {tmp : Nat} {hashfunc : HashingFunction} {st : Int}
    (careful : state.Careful (.register tmp hashfunc))
    (call : state.hashing.hashingRegisterHashfunc tmp hashfunc = (st, hashing)) :
    Sound ⟨hashing, state.tables⟩ := by
  unfold Hashing.hashingRegisterHashfunc at call
  by_cases full : tmp = 0
  · rw [if_pos full] at call
    cases call
    exact sound
  · rw [if_neg full] at call
    cases call
    rcases careful.resolve_left full with ⟨none, unnamed⟩
    apply Sound.without none
    · exact fun _ => Nat.succ_pos _
    · intro i inside j within same
      simp only [GrownArray.push] at inside within same
      by_cases first : i = state.hashing.funcs.count
      · by_cases second : j = state.hashing.funcs.count
        · rw [first, second]
        · rw [first, Function.update_self, Function.update_of_ne second] at same
          exact absurd same.symm (unnamed j (by omega))
      · rw [Function.update_of_ne first] at same
        by_cases second : j = state.hashing.funcs.count
        · rw [second, Function.update_self] at same
          exact absurd same (unnamed i (by omega))
        · rw [Function.update_of_ne second] at same
          exact sound.names i (by omega) j (by omega) same

theorem unregister_cases {tmp : Nat} {name : List (BitVec 8)} {st : Int}
    (careful : state.Careful (.unregister tmp name))
    (call : state.hashing.hashingUnregisterHashfunc tmp name = .ok (st, hashing)) :
    (st = -16 ∧ hashing = state.hashing) ∨
    (st = 0 ∧ state.tables = [] ∧ ∃ i < state.hashing.funcs.count,
      (state.hashing.funcs.slot i).name = name ∧ hashing.funcs.count = state.hashing.funcs.count - 1 ∧
        0 < hashing.funcs.count ∧ ∀ j < hashing.funcs.count,
          hashing.funcs.slot j = state.hashing.funcs.slot (if i ≤ j then j + 1 else j)) := by
  rcases careful with ⟨table, member, rfl⟩ | ⟨none, named, many, room⟩
  · rw [sound.busy member] at call
    cases call
    exact .inl ⟨rfl, rfl⟩
  · unfold Hashing.hashingUnregisterHashfunc at call
    cases found : state.hashing.findName name with
    | none => exact absurd (Hashing.findName_none.mp found) named
    | some i =>
      rcases Hashing.findName_some found with ⟨inside, same⟩
      simp only [found] at call
      split at call
      · cases call
        exact .inl ⟨rfl, rfl⟩
      · have left : ¬(state.hashing.funcs.count - 1 = 0 ∨ tmp = 0) := by omega
        unfold Hashing.hashingShrinkHashfuncs GrownArray.closeGap at call
        dsimp only at call
        rw [if_neg left] at call
        cases call
        refine .inr ⟨rfl, none, i, inside, same, rfl, by dsimp only; omega, fun j within => ?_⟩
        have moved := state.hashing.funcs.closeGap_slot i j
        dsimp only at within
        by_cases behind : i ≤ j
        · rw [if_pos (by omega)] at moved
          rw [if_pos behind]
          exact moved
        · rw [if_neg (by omega)] at moved
          rw [if_neg behind]
          exact moved

theorem unregister {tmp : Nat} {name : List (BitVec 8)} {st : Int}
    (careful : state.Careful (.unregister tmp name))
    (call : state.hashing.hashingUnregisterHashfunc tmp name = .ok (st, hashing)) :
    Sound ⟨hashing, state.tables⟩ := by
  rcases sound.unregister_cases careful call with
    ⟨-, rfl⟩ | ⟨-, none, i, inside, -, count, positive, slots⟩
  · exact sound
  · apply Sound.without none (fun _ => positive)
    intro a first b second same
    rw [slots a first, slots b second] at same
    have place := sound.names _ (by split <;> omega) _ (by split <;> omega) same
    split at place <;> split at place <;> omega

/-- Another count of references, which the tables that are left respect. -/
theorem recount {i refcount : Nat} {tables : List (KeptTable ν)}
    (known : ∀ table ∈ tables, ∃ j < state.hashing.funcs.count,
      state.hashing.addr j = table.hashfunc ∧ (state.hashing.funcs.slot j).Same table.made)
    (digests : ∀ table ∈ tables, table.contents.chew = table.made.digest)
    (here : tables.countP (fun table => table.hashfunc = state.hashing.addr i) ≤ refcount)
    (fewer : ∀ j, j ≠ i → tables.countP (fun table => table.hashfunc = state.hashing.addr j) ≤
      state.tables.countP fun table => table.hashfunc = state.hashing.addr j) :
    Sound ⟨state.hashing.setRefcount i refcount, tables⟩ where
  filled := sound.filled
  names := by
    intro a first b second same
    rw [(state.hashing.setRefcount_same i refcount a).name,
      (state.hashing.setRefcount_same i refcount b).name] at same
    exact sound.names a first b second same
  kept := by
    intro table member
    rcases known table member with ⟨j, inside, pointer, same⟩
    have changed := state.hashing.setRefcount_same i refcount j
    exact ⟨j, inside, pointer, ⟨changed.name.trans same.name,
      changed.digestSize.trans same.digestSize, changed.chew.trans same.chew⟩⟩
  digests := digests
  counted := by
    intro j inside
    dsimp only at inside ⊢
    rw [Hashing.setRefcount_refcount]
    by_cases same : j = i
    · rw [if_pos same, same]
      exact here
    · rw [if_neg same]
      exact Nat.le_trans (fewer j same) (sound.counted j inside)

theorem others (addr : Nat) : Sound ⟨state.hashing, state.others addr⟩ where
  filled := sound.filled
  names := sound.names
  kept := fun table member => sound.kept table (mem_others.mp member).1
  digests := fun table member => sound.digests table (mem_others.mp member).1
  counted := fun i inside => Nat.le_trans (countP_others_le addr _) (sound.counted i inside)

theorem init {mem : Bool} {st : Int} (call : state.hashtableInit mem addr = .ok (st, state')) :
    state'.Sound := by
  unfold hashtableInit at call
  dsimp only at call
  by_cases null : state.hashing.hashingBestFuncBySpeed = 0
  · rw [if_pos null] at call
    cases call
    exact sound.others addr
  · rw [if_neg null] at call
    by_cases full : mem = false
    · rw [if_pos full] at call
      cases call
      exact sound.others addr
    · rcases Hashing.hashingBestFuncBySpeed_addr sound.filled null with ⟨i, inside, best⟩
      have place := Hashing.indexOf_some.mpr ⟨inside, best.symm⟩
      rw [if_neg full, best, Hashing.load_addr inside] at call
      unfold Hashing.hashingIncreaseRefcount at call
      rw [← best, place] at call
      cases call
      apply sound.recount
      · intro table member
        rcases List.mem_cons.mp member with rfl | member
        · exact ⟨i, inside, best.symm, rfl, rfl, rfl⟩
        · exact sound.kept table (mem_others.mp member).1
      · intro table member
        rcases List.mem_cons.mp member with rfl | member
        · rfl
        · exact sound.digests table (mem_others.mp member).1
      · have before := Nat.le_trans (countP_others_le addr _) (sound.counted i inside)
        rw [List.countP_cons]
        split <;> omega
      · intro j other
        rw [List.countP_cons, if_neg, Nat.add_zero]
        · exact countP_others_le addr _
        · rw [decide_eq_true_iff, best]
          exact fun same => other (Hashing.addr_inj same).symm

theorem insert {memTable memSlot : Bool} {key : BitVec 64} {value : ν} {result : Except Int Unit}
    (call : state.hashtableInsert memTable memSlot addr key value = .ok (result, state')) :
    state'.Sound := by
  unfold hashtableInsert at call
  cases found : state.table addr with
  | none =>
    rw [found] at call
    cases call
  | some table =>
    rcases table_some found with ⟨member, -⟩
    simp only [found] at call
    split at call
    · cases call
      exact sound
    · rcases Exec.bind_ok.mp call with ⟨ht, -, call⟩
      cases call
      refine ⟨sound.filled, sound.names, ?_, ?_, fun i inside => ?_⟩
      · intro other member'
        rcases List.mem_cons.mp member' with rfl | member'
        · exact sound.kept table member
        · exact sound.kept other (mem_others.mp member').1
      · intro other member'
        rcases List.mem_cons.mp member' with rfl | member'
        · exact sound.digests table member
        · exact sound.digests other (mem_others.mp member').1
      · have fewer := countP_others found fun other => other.hashfunc = state.hashing.addr i
        rw [List.countP_cons]
        exact Nat.le_trans fewer (sound.counted i inside)

theorem destroy (call : state.hashtableDestroy addr = .ok state') : state'.Sound := by
  unfold hashtableDestroy at call
  cases found : state.table addr with
  | none =>
    rw [found] at call
    cases call
  | some table =>
    rcases table_some found with ⟨member, -⟩
    rcases sound.kept table member with ⟨i, inside, pointer, -⟩
    have place := Hashing.indexOf_some.mpr ⟨inside, pointer⟩
    have fewer := countP_others found fun other => other.hashfunc = state.hashing.addr i
    have counted := sound.counted i inside
    rw [if_pos (decide_eq_true pointer.symm)] at fewer
    simp only [found, Hashing.hashingDecreaseRefcount, place] at call
    rw [if_neg (by omega)] at call
    cases call
    apply sound.recount
    · exact fun other member => sound.kept other (mem_others.mp member).1
    · exact fun other member => sound.digests other (mem_others.mp member).1
    · omega
    · exact fun j _ => countP_others_le addr _

theorem step {call : HashCall ν} {st : Int} (careful : state.Careful call)
    (step : HashStep state call st state') : state'.Sound := by
  cases step with
  | register call => exact sound.register careful call
  | unregister call => exact sound.unregister careful call
  | init call => exact sound.init call
  | insert call => exact sound.insert call
  | find call => exact sound
  | destroy call => exact sound.destroy call

end Sound

theorem sound_start : (start : HashTables ν).Sound where
  filled := fun some_ => absurd rfl some_
  names := nofun
  kept := nofun
  digests := nofun
  counted := nofun

theorem HashStep.recounts {call : HashCall ν} {st : Int} (step : HashStep state call st state')
    (register : ∀ tmp hashfunc, call ≠ .register tmp hashfunc)
    (unregister : ∀ tmp name, call ≠ .unregister tmp name) :
    state'.hashing = state.hashing ∨
      ∃ i refcount, state'.hashing = state.hashing.setRefcount i refcount := by
  cases step with
  | register call => exact absurd rfl (register _ _)
  | unregister call => exact absurd rfl (unregister _ _)
  | init call =>
    unfold hashtableInit at call
    dsimp only at call
    split at call
    · cases call
      exact .inl rfl
    · split at call
      · cases call
        exact .inl rfl
      · rcases Exec.bind_ok.mp call with ⟨made, -, call⟩
        rcases Exec.bind_ok.mp call with ⟨hashing, increased, call⟩
        cases call
        unfold Hashing.hashingIncreaseRefcount at increased
        split at increased <;> cases increased
        exact .inr ⟨_, _, rfl⟩
  | insert call =>
    unfold hashtableInsert at call
    split at call
    · cases call
    · split at call
      · cases call
        exact .inl rfl
      · rcases Exec.bind_ok.mp call with ⟨ht, -, call⟩
        cases call
        exact .inl rfl
  | find call => exact .inl rfl
  | destroy call =>
    unfold hashtableDestroy at call
    split at call
    · cases call
    · rcases Exec.bind_ok.mp call with ⟨⟨st, hashing⟩, decreased, call⟩
      cases call
      unfold Hashing.hashingDecreaseRefcount at decreased
      split at decreased
      · cases decreased
      · dsimp only at decreased
        split at decreased <;> cases decreased
        · exact .inl rfl
        · exact .inr ⟨_, _, rfl⟩

theorem unnamed_setRefcount {name : List (BitVec 8)} (i refcount : Nat)
    (unnamed : hashing.Unnamed name) : (hashing.setRefcount i refcount).Unnamed name := by
  intro j inside
  rw [(hashing.setRefcount_same i refcount j).name]
  exact unnamed j inside

/-- A name that no function has is not taken but by a function that is registered under it. -/
theorem HashStep.unnamed {call : HashCall ν} {st : Int} {name : List (BitVec 8)}
    (sound : state.Sound) (careful : state.Careful call) (step : HashStep state call st state')
    (others : ∀ tmp hashfunc, call = .register tmp hashfunc → hashfunc.name ≠ name)
    (unnamed : state.hashing.Unnamed name) : state'.hashing.Unnamed name := by
  by_cases changes : (∀ tmp hashfunc, call ≠ .register tmp hashfunc) ∧
      ∀ tmp name, call ≠ .unregister tmp name
  · rcases step.recounts changes.1 changes.2 with same | ⟨i, refcount, same⟩
    · rw [same]
      exact unnamed
    · rw [same]
      exact unnamed_setRefcount i refcount unnamed
  · cases step with
    | @register tmp hashfunc st hashing call =>
      unfold Hashing.hashingRegisterHashfunc at call
      split at call <;> cases call
      · exact unnamed
      · intro i inside
        simp only [GrownArray.push] at inside ⊢
        by_cases new : i = state.hashing.funcs.count
        · rw [new, Function.update_self]
          exact others tmp hashfunc rfl
        · rw [Function.update_of_ne new]
          exact unnamed i (by omega)
    | unregister call =>
      rcases sound.unregister_cases careful call with
        ⟨-, rfl⟩ | ⟨-, -, i, inside, -, count, -, slots⟩
      · exact unnamed
      · intro j within
        dsimp only at within ⊢
        rw [slots j within]
        exact unnamed _ (by split <;> omega)
    | init call => exact absurd ⟨nofun, nofun⟩ changes
    | insert call => exact absurd ⟨nofun, nofun⟩ changes
    | find call => exact absurd ⟨nofun, nofun⟩ changes
    | destroy call => exact absurd ⟨nofun, nofun⟩ changes

theorem CarefulStep.sound {call : HashCall ν} (step : CarefulStep state call state')
    (sound : state.Sound) : state'.Sound := by
  rcases step with ⟨careful, st, step⟩
  exact sound.step careful step

/-- A name that is gone stays gone over a run that registers no function under it. -/
theorem unnamed_run {calls : List (HashCall ν)} {name : List (BitVec 8)} (sound : state.Sound)
    (unnamed : state.hashing.Unnamed name) (run : Run CarefulStep state calls state')
    (others : ∀ tmp hashfunc, .register tmp hashfunc ∈ calls → hashfunc.name ≠ name) :
    state'.Sound ∧ state'.hashing.Unnamed name := by
  induction run with
  | refl => exact ⟨sound, unnamed⟩
  | snoc run last ih =>
    obtain ⟨kept, absent⟩ :=
      ih fun tmp hashfunc member => others tmp hashfunc (List.mem_append_left _ member)
    rcases last with ⟨careful, st, step⟩
    refine ⟨kept.step careful step, step.unnamed kept careful (fun tmp hashfunc same => ?_) absent⟩
    apply others tmp hashfunc
    simp [same]

/-- A find works with the digests of the function that the table was made with. -/
theorem Sound.find (sound : state.Sound) (found : state.table addr = some table) (key : BitVec 64) :
    state.hashtableFind addr key =
      (assert (table.made.digestSize % 4 = 0) >>= fun _ => pure (table.contents.find key)) := by
  rcases table_some found with ⟨member, -⟩
  rcases sound.kept table member with ⟨i, inside, pointer, same⟩
  unfold hashtableFind chewing
  simp only [found]
  rw [← pointer, Hashing.load_addr inside, Exec.ok_bind, same.digestSize, same.digest,
    ← sound.digests table member]
  by_cases whole : table.made.digestSize % 4 = 0
  · rw [assert, if_pos whole]
    rfl
  · rw [assert, if_neg whole]
    rfl

/-- What comes and goes among the functions is not seen by the tables. -/
theorem Sound.find_same {call : HashCall ν} {st : Int} (sound : state.Sound)
    (careful : state.Careful call) (step : HashStep state call st state')
    (functions : (∃ tmp hashfunc, call = .register tmp hashfunc) ∨
      ∃ tmp name, call = .unregister tmp name) (addr : Nat) (key : BitVec 64) :
    state'.hashtableFind addr key = state.hashtableFind addr key := by
  have without : state.tables = [] → ∀ hashing : Hashing,
      hashtableFind addr key ⟨hashing, state.tables⟩ = state.hashtableFind addr key := by
    intro none hashing
    unfold hashtableFind table
    simp only [none, List.find?_nil]
  cases step with
  | register call =>
    unfold Hashing.hashingRegisterHashfunc at call
    split at call
    · cases call
      rfl
    · rename_i room
      exact without (careful.resolve_left room).1 _
  | unregister call =>
    rcases sound.unregister_cases careful call with ⟨-, rfl⟩ | ⟨-, none, -⟩
    · rfl
    · exact without none _
  | init call => simp at functions
  | insert call => simp at functions
  | find call => rfl
  | destroy call => simp at functions

theorem Sound.unregistered {tmp : Nat} {name : List (BitVec 8)} (sound : state.Sound)
    (careful : state.Careful (.unregister tmp name))
    (call : state.hashing.hashingUnregisterHashfunc tmp name = .ok (0, hashing)) :
    hashing.Unnamed name := by
  rcases sound.unregister_cases careful call with
    ⟨zero, -⟩ | ⟨-, -, i, inside, named, count, -, slots⟩
  · cases zero
  · intro j within same
    rw [slots j within, ← named] at same
    have place := sound.names _ (by split <;> omega) i inside same
    split at place <;> omega

theorem hash_tables_keep {calls : List (HashCall ν)} (run : Run CarefulStep start calls state) :
    (∀ table ∈ state.tables, ∃ func, state.hashing.load table.hashfunc = .ok func ∧
      func.Same table.made) ∧
    (∀ addr key table, state.table addr = some table → state.hashtableFind addr key =
      (assert (table.made.digestSize % 4 = 0) >>= fun _ => pure (table.contents.find key))) ∧
    (∀ call st state', state.Careful call → HashStep state call st state' →
      ((∃ tmp hashfunc, call = .register tmp hashfunc) ∨ ∃ tmp name, call = .unregister tmp name) →
        ∀ addr key, state'.hashtableFind addr key = state.hashtableFind addr key) ∧
    (∀ table ∈ state.tables, ∀ tmp,
      state.hashing.hashingUnregisterHashfunc tmp table.made.name = .ok (-16, state.hashing)) ∧
    ∀ tmp name gone, state.Careful (.unregister tmp name) →
      HashStep state (.unregister tmp name) 0 gone → ∀ later last, Run CarefulStep gone later last →
        (∀ tmp hashfunc, .register tmp hashfunc ∈ later → hashfunc.name ≠ name) →
          ∀ func, last.hashing.load last.hashing.hashingBestFuncBySpeed = .ok func →
            func.name ≠ name := by
  have sound := run.invariant Sound (fun _ _ _ step => step.sound) sound_start
  refine ⟨fun table member => ?_, fun addr key table found => sound.find found key,
    fun call st state' careful step functions => sound.find_same careful step functions,
    fun table member => sound.busy member, fun tmp name gone careful step later last run others => ?_⟩
  · rcases sound.kept table member with ⟨i, inside, pointer, same⟩
    rw [← pointer]
    exact ⟨_, Hashing.load_addr inside, same⟩
  · cases step with
    | unregister call =>
      obtain ⟨-, unnamed⟩ := unnamed_run (sound.unregister careful call)
        (sound.unregistered careful call) run others
      intro func loaded
      rcases Hashing.load_ok loaded with ⟨i, inside, -, rfl⟩
      exact unnamed i inside

/-- A function of the name "a" or "b". -/
def lowWord (letter : BitVec 8) : HashingFunction :=
  ⟨[letter], 4, fun key => .ok fun _ => key.setWidth 32, 100 - letter.toNat, 0⟩

theorem hash_tables_keep_low :
    ∃ state : HashTables (BitVec 64), Run CarefulStep start
        [.register 4096 (lowWord 0x61), .register 8192 (lowWord 0x62), .init true 64,
          .insert true true 64 7 9, .unregister 0 [0x61]] state ∧
      (∀ table ∈ state.tables, ∀ tmp, state.hashing.hashingUnregisterHashfunc tmp table.made.name =
        .ok (-16, state.hashing)) ∧
      state.hashtableFind 64 7 = .ok (.ok 9) := by
  have unnamed : Hashing.Unnamed [0x62]
      ⟨4096, (@start (BitVec 64)).hashing.funcs.push (lowWord 0x61)⟩ := by
    intro i inside
    have zero : i = 0 := by simpa [GrownArray.push, start] using inside
    subst zero
    decide
  have first : CarefulStep (@start (BitVec 64)) (.register 4096 (lowWord 0x61)) _ :=
    ⟨.inr ⟨rfl, nofun⟩, _, .register rfl⟩
  have second : @CarefulStep (BitVec 64)
      ⟨⟨4096, (@start (BitVec 64)).hashing.funcs.push (lowWord 0x61)⟩, []⟩
      (.register 8192 (lowWord 0x62)) _ :=
    ⟨.inr ⟨rfl, unnamed⟩, _, .register rfl⟩
  have third := @Run.snoc _ _ _ _ _ _ _ (HashCall.init true 64) ((Run.single first).snoc second)
    ⟨trivial, _, .init rfl⟩
  have fourth := @Run.snoc _ _ _ _ _ _ _ (HashCall.insert true true 64 7 9) third
    ⟨trivial, _, .insert rfl⟩
  have run := @Run.snoc _ _ _ _ _ _ _ (HashCall.unregister 0 [0x61]) fourth
    ⟨.inl ⟨_, List.mem_cons_self, rfl⟩, _, .unregister rfl⟩
  rcases hash_tables_keep run with ⟨-, -, -, busy, -⟩
  exact ⟨_, run, busy, rfl⟩

/-- A registration moves the array away from a table; a name that no function has; the last function
    that goes. -/
theorem hash_tables_dangle :
    (∃ state moved : HashTables (BitVec 64), Run (fun s call t => ∃ st, HashStep s call st t) start
        [.register 4096 (lowWord 0x61), .init true 64, .insert true true 64 7 9] state ∧
      state.hashtableFind 64 7 = .ok (.ok 9) ∧
      HashStep state (.register 8192 (lowWord 0x62)) 0 moved ∧
      moved.hashtableFind 64 7 = .error .fault) ∧
    ∃ state gone : HashTables (BitVec 64),
      HashStep start (.register 4096 (lowWord 0x61)) 0 state ∧
      state.hashing.hashingUnregisterHashfunc 8192 [0x62] = .error .fault ∧
      HashStep state (.unregister 8192 [0x61]) 0 gone ∧
      gone.hashing.load gone.hashing.hashingBestFuncBySpeed = .ok (lowWord 0x61) := by
  constructor
  · have first : ∃ st, HashStep (@start (BitVec 64)) (.register 4096 (lowWord 0x61)) st _ :=
      ⟨_, .register rfl⟩
    have second : ∃ st, @HashStep (BitVec 64)
        ⟨⟨4096, (@start (BitVec 64)).hashing.funcs.push (lowWord 0x61)⟩, []⟩
        (.init true 64) st _ := ⟨_, .init rfl⟩
    have run := @Run.snoc _ _ (fun s call t => ∃ st, HashStep s call st t) _ _ _ _
      (HashCall.insert true true 64 7 9) ((Run.single first).snoc second) ⟨_, .insert rfl⟩
    exact ⟨_, _, run, rfl, .register rfl, rfl⟩
  · exact ⟨_, _, .register rfl, rfl, .unregister rfl, rfl⟩

end HashTables

end Dxgmx
