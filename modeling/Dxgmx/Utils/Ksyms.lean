import Dxgmx.Kstdlib.StdioText
import Dxgmx.Library.BinarySearch

open Library

namespace Dxgmx

/-- `str` are the bytes that can be read from the name on, of which the first `strlen` are the name. It
    is the name of a symbol, which has no terminator in it. -/
structure KernelSymbol where
  addr : BitVec 32
  str : List Byte
  strlen : BitVec 32
  inside : strlen.toNat ≤ str.length
  clean : 0 ∉ str.take strlen.toNat

/-- The table takes 12 bytes a symbol of a 32-bit memory. -/
structure KsymsTable where
  entries : List KernelSymbol
  fits : 12 * entries.length ≤ 2 ^ 32

/-- An `i32` that is computed must not overflow. -/
def i32 (value : Int) : Exec Int :=
  if -2 ^ 31 ≤ value ∧ value < 2 ^ 31 then .ok value else .error .fault

def KsymsTable.at_ (table : KsymsTable) (m : Int) : Exec KernelSymbol :=
  match if m < 0 then none else table.entries[m.toNat]? with
  | none => .error .fault
  | some ksym => .ok ksym

/-- The loop of the search. `ksym` is the index of the last probe. -/
def ksymsSearch (table : KsymsTable) (addr : BitVec 32) :
    (fuel : Nat) → (l r : Int) → (ksym : Option Nat) → Exec (Option Nat)
  | 0, _, _, _ => .error .fuel
  | fuel + 1, l, r, ksym =>
    if r < l then .ok ksym
    else do
      let sum ← i32 (l + r)
      let m := sum.tdiv 2
      let probe ← table.at_ m
      if probe.addr < addr then
        let l ← i32 (m + 1)
        ksymsSearch table addr fuel l r (some m.toNat)
      else if addr < probe.addr then
        let r ← i32 (m - 1)
        ksymsSearch table addr fuel l r (some m.toNat)
      else .ok (some m.toNat)

/-- The return value, what is stored at `offset` where it is not null, and what is left at `name`. -/
structure KsymsResult where
  wr : BitVec 32
  offset : Option (BitVec 32)
  name : Option (Nat → Byte)

/-- Before the table is loaded, and for a null `name`, nothing is stored. -/
def ksymsGetSymbolName (available : Bool) (table : KsymsTable) (addr : BitVec 32)
    (name : Option (Nat → Byte)) (n : BitVec 32) : Exec KsymsResult :=
  match name with
  | none => .ok ⟨0, none, none⟩
  | some name =>
    if ¬ available then .ok ⟨0, none, some name⟩
    else do
      let r := (BitVec.ofNat 32 table.entries.length - 1).toInt
      match ← ksymsSearch table addr (table.entries.length + 1) 0 r none with
      | none => .error .fault
      | some k => do
        let last ← table.at_ k
        let ksym ← if addr < last.addr ∧ 0 < k then table.at_ (k - 1) else .ok last
        let wr := if ksym.strlen < n then ksym.strlen else n
        let name ← strncpy name ksym.str wr.toNat
        pure ⟨wr, some (addr - ksym.addr), some name⟩

section Search

variable {table : KsymsTable} {addr : BitVec 32}

/-- The address of a symbol, by its index. -/
def KsymsTable.key (table : KsymsTable) (k : Nat) : Nat :=
  match table.entries[k]? with
  | none => 0
  | some ksym => ksym.addr.toNat

theorem KsymsTable.at_eq {k : Nat} (inside : k < table.entries.length) :
    table.at_ k = .ok table.entries[k] ∧ table.key k = table.entries[k].addr.toNat := by
  unfold at_ key
  rw [if_neg (by omega), Int.toNat_natCast, List.getElem?_eq_getElem inside]
  exact ⟨rfl, rfl⟩

theorem i32_ok {value : Int} (low : -2 ^ 31 ≤ value) (high : value < 2 ^ 31) :
    i32 value = .ok value := if_pos ⟨low, high⟩

theorem ksymsSearch_spec (sorted : ∀ i j, i < j → j < table.entries.length → table.key i < table.key j)
    (some_ : 0 < table.entries.length) (first : table.key 0 ≤ addr.toNat) {fuel : Nat} {l r : Int}
    {ksym : Option Nat} (window : SearchWindow table.key table.entries.length addr.toNat l r ksym)
    (enough : r - l + 1 < fuel) :
    ∃ k, ksymsSearch table addr fuel l r ksym = .ok (some k) ∧
      LastProbe table.key table.entries.length addr.toNat k := by
  have fits := table.fits
  induction fuel generalizing l r ksym with
  | zero =>
    have order := window.order
    omega
  | succ fuel ih =>
    have low := window.low
    have high := window.high
    unfold ksymsSearch
    by_cases empty : r < l
    · rw [if_pos empty]
      obtain ⟨k, rfl, last⟩ := window.ends empty some_ first
      exact ⟨k, rfl, last⟩
    obtain ⟨m, middle⟩ : ∃ m : Nat, (l + r).tdiv 2 = m := by
      refine Int.eq_ofNat_of_zero_le ?_
      rw [Int.tdiv_eq_ediv_of_nonneg (by omega)]
      omega
    have bounds : l ≤ m ∧ (m : Int) ≤ r := by
      rw [← middle, Int.tdiv_eq_ediv_of_nonneg (by omega)]
      omega
    have inside : m < table.entries.length := by omega
    obtain ⟨probed, key⟩ := KsymsTable.at_eq inside
    rw [if_neg empty, i32_ok (by omega) (by omega), Exec.ok_bind, middle]
    dsimp only
    rw [probed, Exec.ok_bind, Int.toNat_natCast]
    by_cases less : table.key m < addr.toNat
    · rw [if_pos (BitVec.lt_def.mpr (key ▸ less)), i32_ok (by omega) (by omega), Exec.ok_bind]
      exact ih (window.right sorted bounds.1 bounds.2 less) (by omega)
    rw [if_neg fun lower => less (key ▸ BitVec.lt_def.mp lower)]
    by_cases greater : addr.toNat < table.key m
    · rw [if_pos (BitVec.lt_def.mpr (key ▸ greater)), i32_ok (by omega) (by omega), Exec.ok_bind]
      exact ih (window.left sorted bounds.1 bounds.2 greater) (by omega)
    · rw [if_neg fun higher => greater (key ▸ BitVec.lt_def.mp higher)]
      exact ⟨m, rfl, SearchWindow.found sorted inside (by omega)⟩

end Search

theorem strncpyText_take {src : List Byte} {n : Nat} (short : n ≤ src.length)
    (clean : 0 ∉ src.take n) : strncpyText src n = .ok (src.take n) := by
  induction n generalizing src with
  | zero => cases src <;> rfl
  | succ n ih =>
    cases src with
    | nil => cases short
    | cons c src =>
      rw [List.take_succ_cons] at clean ⊢
      have head : ¬ c = 0 := fun zero => clean (zero ▸ List.mem_cons_self)
      rw [strncpyText, if_neg head,
        ih (Nat.le_of_succ_le_succ short) fun member => clean (List.mem_cons_of_mem c member)]
      rfl

/-- What the call stores for a symbol. -/
structure KsymsFound (ksym : KernelSymbol) (addr n : BitVec 32) (name : Nat → Byte)
    (result : KsymsResult) : Prop where
  wr : result.wr.toNat = min ksym.strlen.toNat n.toNat
  offset : ∃ offset, result.offset = some offset ∧ offset.toNat = addr.toNat - ksym.addr.toNat
  name : ∃ name', result.name = some name' ∧
    (∀ i < result.wr.toNat, ksym.str[i]? = some (name' i)) ∧
    ∀ i, result.wr.toNat ≤ i → name' i = name i

theorem ksymsCopy_found (ksym : KernelSymbol) {addr : BitVec 32} (le : ksym.addr ≤ addr)
    (n : BitVec 32) (name : Nat → Byte) :
    ∃ result, (do
        let wr := if ksym.strlen < n then ksym.strlen else n
        let name ← strncpy name ksym.str wr.toNat
        pure ⟨wr, some (addr - ksym.addr), some name⟩ : Exec KsymsResult) = .ok result ∧
      KsymsFound ksym addr n name result := by
  have size : (if ksym.strlen < n then ksym.strlen else n).toNat = min ksym.strlen.toNat n.toNat := by
    split
    · rename_i less
      rw [BitVec.lt_def] at less
      omega
    · rename_i less
      rw [BitVec.lt_def] at less
      omega
  dsimp only
  generalize (if ksym.strlen < n then ksym.strlen else n) = wr at size
  have inside := ksym.inside
  have clean : 0 ∉ ksym.str.take wr.toNat := fun zero =>
    ksym.clean ((List.take_subset_take_left ksym.str (by omega)) zero)
  have length : (ksym.str.take wr.toNat).length = wr.toNat := by
    rw [List.length_take]
    omega
  unfold strncpy
  rw [strncpyText_take (by omega) clean, Exec.ok_bind, length, Nat.sub_self, List.replicate_zero,
    List.append_nil]
  refine ⟨_, rfl, size, ⟨_, rfl, ?_⟩, _, rfl, ?_, ?_⟩
  · rw [BitVec.toNat_sub_of_le le]
  · intro i before
    change i < wr.toNat at before
    have stored := storeBytes_inside name 0 (ksym.str.take wr.toNat) i (by omega)
    rw [Nat.zero_add] at stored
    rw [stored, List.getElem_take, List.getElem?_eq_getElem]
  · intro i after
    change wr.toNat ≤ i at after
    exact storeBytes_after _ _ _ _ (by omega)

theorem KsymsTable.floor_symbol {table : KsymsTable} {addr : BitVec 32} {k : Nat}
    (keys : ∀ i j, i < j → j < table.entries.length → table.key i < table.key j)
    (floor : Floor table.key table.entries.length addr.toNat k) :
    ∃ ksym ∈ table.entries, table.at_ k = .ok ksym ∧ ksym.addr ≤ addr ∧
      ∀ other ∈ table.entries, other.addr ≤ addr → other.addr ≤ ksym.addr := by
  obtain ⟨inside, le, greatest⟩ := floor
  obtain ⟨here, key⟩ := KsymsTable.at_eq inside
  refine ⟨table.entries[k], List.getElem_mem inside, here, ?_, fun other member below => ?_⟩
  · rwa [BitVec.le_def, ← key]
  · obtain ⟨j, within, rfl⟩ := List.getElem_of_mem member
    have key' := (KsymsTable.at_eq within).2
    rw [BitVec.le_def, ← key'] at below
    have order := greatest j within below
    rw [BitVec.le_def, ← key, ← key']
    rcases Nat.lt_or_eq_of_le order with before | rfl
    · exact Nat.le_of_lt (keys j k before inside)
    · exact Nat.le_refl _

/-- The symbol that an address falls under, for a table in the order of the addresses. -/
theorem ksymsGetSymbolName_floor (table : KsymsTable)
    (sorted : table.entries.Pairwise fun first second => first.addr < second.addr)
    (addr : BitVec 32) (first : ∃ ksym ∈ table.entries.head?, ksym.addr ≤ addr)
    (name : Nat → Byte) (n : BitVec 32) :
    ∃ ksym ∈ table.entries, ksym.addr ≤ addr ∧
      (∀ other ∈ table.entries, other.addr ≤ addr → other.addr ≤ ksym.addr) ∧
      ∃ result, ksymsGetSymbolName true table addr (some name) n = .ok result ∧
        KsymsFound ksym addr n name result := by
  have keys : ∀ i j, i < j → j < table.entries.length → table.key i < table.key j := by
    intro i j before inside
    rw [(KsymsTable.at_eq (Nat.lt_trans before inside)).2, (KsymsTable.at_eq inside).2]
    exact BitVec.lt_def.mp (List.pairwise_iff_getElem.mp sorted i j _ inside before)
  have fits := table.fits
  obtain ⟨head, there, below⟩ := first
  have some_ : 0 < table.entries.length := by
    cases entries : table.entries with
    | nil => rw [entries] at there; cases there
    | cons ksym rest => exact Nat.succ_pos _
  have lowest : table.key 0 ≤ addr.toNat := by
    rw [(KsymsTable.at_eq some_).2]
    rw [List.head?_eq_getElem?, List.getElem?_eq_getElem some_] at there
    cases there
    exact BitVec.le_def.mp below
  have last : (BitVec.ofNat 32 table.entries.length - 1).toInt = (table.entries.length : Int) - 1 := by
    rw [BitVec.toInt_sub, BitVec.toInt_ofNat']
    have one : (1 : BitVec 32).toInt = 1 := rfl
    rw [one, Int.bmod_eq_of_le (n := (table.entries.length : Int)) (by omega) (by omega)]
    exact Int.bmod_eq_of_le (by omega) (by omega)
  obtain ⟨k, searched, probe⟩ := ksymsSearch_spec keys some_ lowest SearchWindow.start
    (show (table.entries.length : Int) - 1 - 0 + 1 < ((table.entries.length + 1 : Nat) : Int) by omega)
  have inside := probe.inside
  obtain ⟨probed, key⟩ := KsymsTable.at_eq inside
  unfold ksymsGetSymbolName
  dsimp only
  rw [if_neg (by decide), last, searched, Exec.ok_bind]
  dsimp only
  rw [probed, Exec.ok_bind]
  by_cases le : table.key k ≤ addr.toNat
  · have notAbove : ¬ (addr < table.entries[k].addr ∧ 0 < k) := fun above =>
      absurd (key ▸ BitVec.lt_def.mp above.1) (Nat.not_lt.mpr le)
    obtain ⟨ksym, member, here, under, greatest⟩ := KsymsTable.floor_symbol keys (probe.floor le)
    rw [probed] at here
    cases here
    rw [if_neg notAbove, Exec.ok_bind]
    exact ⟨_, member, under, greatest, ksymsCopy_found _ under n name⟩
  · obtain ⟨positive, floor⟩ := probe.before (Nat.not_le.mp le)
    have above : addr < table.entries[k].addr ∧ 0 < k :=
      ⟨BitVec.lt_def.mpr (key ▸ Nat.not_le.mp le), positive⟩
    obtain ⟨ksym, member, here, under, greatest⟩ := KsymsTable.floor_symbol keys floor
    have before : ((k : Int) - 1) = ((k - 1 : Nat) : Int) := by omega
    rw [if_pos above, before, here, Exec.ok_bind]
    exact ⟨_, member, under, greatest, ksymsCopy_found _ under n name⟩

def symbolAt (addr : BitVec 32) : KernelSymbol where
  addr := addr
  str := [0x61]
  strlen := 1
  inside := Nat.le_refl 1
  clean := by decide

theorem ksymsGetSymbolName_between :
    ∃ ksym ∈ [symbolAt 0x1000, symbolAt 0x2000], ksym.addr ≤ 0x1800 ∧
      (∀ other ∈ [symbolAt 0x1000, symbolAt 0x2000], other.addr ≤ 0x1800 → other.addr ≤ ksym.addr) ∧
      ∃ result, ksymsGetSymbolName true
          ⟨[symbolAt 0x1000, symbolAt 0x2000], Nat.le_of_ble_eq_true rfl⟩ 0x1800
          (some fun _ => 0xFF) 16 = .ok result ∧
        KsymsFound ksym 0x1800 16 (fun _ => 0xFF) result :=
  ksymsGetSymbolName_floor ⟨[symbolAt 0x1000, symbolAt 0x2000], Nat.le_of_ble_eq_true rfl⟩
    (List.pairwise_pair.mpr (by decide)) 0x1800 ⟨symbolAt 0x1000, rfl, by decide⟩ (fun _ => 0xFF) 16

end Dxgmx
