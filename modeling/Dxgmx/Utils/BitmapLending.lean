import Dxgmx.Library.Runs
import Dxgmx.Utils.Bitmap

open Library

namespace Dxgmx

theorem one_shift_getLsbD_byte (bit k : Nat) (bound : bit < 8) :
    (1#8 <<< bit).getLsbD k = decide (k = bit) := by
  simp only [BitVec.getLsbD_shiftLeft, BitVec.getLsbD_one]
  grind

theorem bitmapMarkByte_getLsbD (byte : BitVec 8) (left n k : Nat) (fits : left ≤ 8)
    (positive : 1 ≤ n) (bound : k < 8) :
    (bitmapMarkByte byte left n).1.getLsbD k =
      (byte.getLsbD k || decide (8 ≤ k + left ∧ k + left < 8 + n)) := by
  induction left generalizing byte n with
  | zero =>
    have none : ¬ 8 ≤ k := by omega
    simp [bitmapMarkByte, none]
  | succ left ih =>
    have bit := one_shift_getLsbD_byte (7 - left) k (by omega)
    simp only [bitmapMarkByte]
    split
    · rw [BitVec.getLsbD_or, bit]
      grind
    · rw [ih _ _ (by omega) (by omega), BitVec.getLsbD_or, bit]
      grind

theorem bitmapMarkByte_left (byte : BitVec 8) (left n : Nat) (positive : 1 ≤ n) :
    (bitmapMarkByte byte left n).2 = n - left := by
  induction left generalizing byte n with
  | zero => rfl
  | succ left ih =>
    simp only [bitmapMarkByte]
    split
    · omega
    · rw [ih _ _ (by omega)]
      omega

/-- The units that `bitmap_mark_bitmap(byte, bit, n)` sets. -/
def Marks (byte bit n unit : Nat) : Prop :=
  byte ≤ unit / 8 ∧ bit ≤ unit % 8 ∧ (unit / 8 - byte) * (8 - bit) + (unit % 8 - bit) < n

instance (byte bit n unit : Nat) : Decidable (Marks byte bit n unit) :=
  inferInstanceAs (Decidable (_ ∧ _))

theorem marks_first (byte bit n unit : Nat) (small : n ≤ 8 - bit) :
    Marks byte bit n unit ↔ byte = unit / 8 ∧ bit ≤ unit % 8 ∧ unit % 8 - bit < n := by
  unfold Marks
  constructor
  · rintro ⟨reached, high, rank⟩
    refine ⟨?_, high, by omega⟩
    by_contra other
    obtain ⟨more, later⟩ : ∃ more, unit / 8 - byte = more + 1 := ⟨unit / 8 - byte - 1, by omega⟩
    rw [later, Nat.add_mul] at rank
    omega
  · rintro ⟨rfl, high, rank⟩
    exact ⟨le_refl _, high, by simpa using rank⟩

theorem marks_step (byte bit n unit : Nat) (low : bit < 8) (large : 8 - bit < n) :
    Marks byte bit n unit ↔
      (byte = unit / 8 ∧ bit ≤ unit % 8) ∨ Marks (byte + 1) bit (n - (8 - bit)) unit := by
  have unitBound : unit % 8 < 8 := Nat.mod_lt _ (by decide)
  unfold Marks
  rcases Nat.lt_trichotomy byte (unit / 8) with before | same | after
  · obtain ⟨more, later⟩ : ∃ more, unit / 8 = byte + 1 + more := ⟨unit / 8 - byte - 1, by omega⟩
    have rest : unit / 8 - (byte + 1) = more := by omega
    have all : unit / 8 - byte = more + 1 := by omega
    rw [rest, all, Nat.add_mul]
    generalize more * (8 - bit) = skipped
    omega
  · simp only [same, le_refl, true_and, Nat.sub_self, Nat.zero_mul, Nat.zero_add,
      Nat.not_succ_le_self, false_and, or_false]
    omega
  · omega

theorem Bitmap.isSet_update (bm : Bitmap) (i : Nat) (byte : BitVec 8) (unit : Nat) :
    Bitmap.isSet { bm with start := Function.update bm.start i byte } unit =
      if unit / 8 = i then byte.getLsbD (unit % 8) else bm.isSet unit := by
  unfold Bitmap.isSet
  by_cases here : unit / 8 = i
  · simp [here]
  · simp [here]

theorem bitmapMarkByte_isSet (bm : Bitmap) (i bit n unit : Nat) (low : bit < 8)
    (positive : 1 ≤ n) :
    Bitmap.isSet { bm with
        start := Function.update bm.start i (bitmapMarkByte (bm.start i) (8 - bit) n).1 } unit =
      (bm.isSet unit || decide (i = unit / 8 ∧ bit ≤ unit % 8 ∧ unit % 8 - bit < n)) := by
  have unitBound : unit % 8 < 8 := Nat.mod_lt _ (by decide)
  rw [Bitmap.isSet_update, bitmapMarkByte_getLsbD _ _ _ _ (by omega) positive unitBound]
  unfold Bitmap.isSet
  grind

theorem bitmapMarkBitmap_isSet {bit left n : Nat} {bm marked : Bitmap} (low : bit < 8)
    (positive : 1 ≤ n) (inside : left ≤ bm.size)
    (call : bitmapMarkBitmap bit left n bm = (0, marked)) (unit : Nat) :
    marked.isSet unit = (bm.isSet unit || decide (Marks (bm.size - left) bit n unit)) := by
  induction left generalizing n bm with
  | zero => simp [bitmapMarkBitmap] at call
  | succ left ih =>
    simp only [bitmapMarkBitmap] at call
    rw [bitmapMarkByte_left _ _ _ positive] at call
    split at call
    · rename_i done
      cases call
      rw [bitmapMarkByte_isSet _ _ _ _ _ low positive]
      simp only [marks_first _ _ _ _ (show n ≤ 8 - bit by omega)]
    · rename_i more
      rw [ih (by omega) (by simp only; omega) call, bitmapMarkByte_isSet _ _ _ _ _ low positive]
      have step := marks_step (bm.size - (left + 1)) bit n unit low (by omega)
      have next : bm.size - left = bm.size - (left + 1) + 1 := by omega
      simp only [step, next]
      grind

theorem bitmapMarkBitmap_size {bit left n : Nat} {bm marked : Bitmap} {st : Int}
    (call : bitmapMarkBitmap bit left n bm = (st, marked)) : marked.size = bm.size := by
  induction left generalizing n bm with
  | zero =>
    cases call
    rfl
  | succ left ih =>
    simp only [bitmapMarkBitmap] at call
    split at call
    · cases call
      rfl
    · rw [ih call]

def Bitmap.cursor (bm : Bitmap) : Nat := bm.byteCursor * 8 + bm.bitCursor.val

/-- `n` clear units from `start` on, at or after the cursor. -/
def Bitmap.FreeRun (bm : Bitmap) (n start : Nat) : Prop :=
  bm.cursor ≤ start ∧ start + n ≤ bm.size * 8 ∧ ∀ i < n, bm.isSet (start + i) = false

def Bitmap.FirstFreeRun (bm : Bitmap) (n start : Nat) : Prop :=
  bm.FreeRun n start ∧ ∀ earlier < start, ¬ bm.FreeRun n earlier

instance (bm : Bitmap) (n start : Nat) : Decidable (bm.FreeRun n start) :=
  inferInstanceAs (Decidable (_ ∧ _))

instance (bm : Bitmap) (n start : Nat) : Decidable (bm.FirstFreeRun n start) :=
  inferInstanceAs (Decidable (_ ∧ _))

/-- What the locals say when the search is about to look at unit `pos`: the last `found` units are
    clear, the one before them is not, and there was no run of `n` so far. -/
structure SearchAt (bm : Bitmap) (n pos : Nat) (search : BitmapSearch) : Prop where
  short : search.found < n
  inside : bm.cursor + search.found ≤ pos
  clear : ∀ unit, pos ≤ unit + search.found → unit < pos → bm.isSet unit = false
  blocked : bm.cursor + search.found < pos → bm.isSet (pos - search.found - 1) = true
  begun : 0 < search.found →
    search.byteStart * 8 + search.bitStart + search.found = pos ∧ search.bitStart < 8
  none : ∀ start, start + n ≤ pos → ¬ bm.FreeRun n start

theorem searchAt_cursor (bm : Bitmap) (n : Nat) (positive : 1 ≤ n) :
    SearchAt bm n bm.cursor ⟨0, 0, 0⟩ where
  short := positive
  inside := le_refl _
  clear := by
    intro unit reached before
    simp only at reached
    omega
  blocked := by
    intro later
    simp at later
  begun := by
    intro some
    simp at some
  none := by
    intro start before run
    have after := run.1
    omega

theorem searchAt_set {bm : Bitmap} {n pos : Nat} {search : BitmapSearch}
    (at_ : SearchAt bm n pos search) (set : bm.isSet pos = true) :
    SearchAt bm n (pos + 1) { search with found := 0 } where
  short := by
    have short := at_.short
    simp only
    omega
  inside := by
    have inside := at_.inside
    simp only
    omega
  clear := by
    intro unit reached before
    simp only at reached
    omega
  blocked := fun _ => by simpa using set
  begun := by
    intro some
    simp at some
  none := by
    intro start before run
    by_cases ends : start + n = pos + 1
    · have short := at_.short
      have last := run.2.2 (n - 1) (by omega)
      have here : start + (n - 1) = pos := by omega
      rw [here, set] at last
      cases last
    · exact at_.none start (by omega) run

theorem extend_found (search : BitmapSearch) (byte bit : Nat) (small : search.found + 1 < 2 ^ 32) :
    (search.extend byte bit).found = search.found + 1 := by
  unfold BitmapSearch.extend
  split
  · simp only
    omega
  · simp only
    exact Nat.mod_eq_of_lt small

theorem extend_start {bm : Bitmap} {n byte bit : Nat} {search : BitmapSearch}
    (at_ : SearchAt bm n (byte * 8 + bit) search) (low : bit < 8) :
    (search.extend byte bit).byteStart * 8 + (search.extend byte bit).bitStart + search.found =
      byte * 8 + bit ∧ (search.extend byte bit).bitStart < 8 := by
  unfold BitmapSearch.extend
  split
  · rename_i zero
    simp only
    omega
  · exact at_.begun (by omega)

/-- The clear run before `pos` is maximal, so a run of `n` that ends just after `pos` is that one. -/
theorem searchAt_ends {bm : Bitmap} {n pos start : Nat} {search : BitmapSearch}
    (at_ : SearchAt bm n pos search) (run : bm.FreeRun n start) (ends : start + n = pos + 1) :
    search.found + 1 = n := by
  have short := at_.short
  have inside := at_.inside
  by_contra shorter
  have after := run.1
  have set := at_.blocked (by omega)
  have clear := run.2.2 (pos - search.found - 1 - start) (by omega)
  have here : start + (pos - search.found - 1 - start) = pos - search.found - 1 := by omega
  rw [here, set] at clear
  cases clear

theorem searchAt_clear {bm : Bitmap} {n byte bit : Nat} {search : BitmapSearch}
    (at_ : SearchAt bm n (byte * 8 + bit) search) (clear : bm.isSet (byte * 8 + bit) = false)
    (low : bit < 8) (size : n < 2 ^ 32) (more : (search.extend byte bit).found ≠ n) :
    SearchAt bm n (byte * 8 + bit + 1) (search.extend byte bit) := by
  have short := at_.short
  have inside := at_.inside
  have found := extend_found search byte bit (by omega)
  have start := extend_start at_ low
  rw [found] at more
  refine ⟨by omega, by omega, ?_, ?_, ?_, ?_⟩
  · intro unit reached before
    by_cases here : unit = byte * 8 + bit
    · rw [here]
      exact clear
    · exact at_.clear unit (by omega) (by omega)
  · intro later
    have set := at_.blocked (by omega)
    have here : byte * 8 + bit + 1 - (search.extend byte bit).found - 1 =
        byte * 8 + bit - search.found - 1 := by omega
    rw [here]
    exact set
  · intro _
    exact ⟨by omega, start.2⟩
  · intro first before run
    by_cases ends : first + n = byte * 8 + bit + 1
    · exact more (searchAt_ends at_ run ends)
    · exact at_.none first (by omega) run

theorem searchAt_hit {bm : Bitmap} {n byte bit : Nat} {search : BitmapSearch}
    (at_ : SearchAt bm n (byte * 8 + bit) search) (clear : bm.isSet (byte * 8 + bit) = false)
    (low : bit < 8) (inside : byte < bm.size) (size : n < 2 ^ 32)
    (done : (search.extend byte bit).found = n) :
    bm.FirstFreeRun n
        ((search.extend byte bit).byteStart * 8 + (search.extend byte bit).bitStart) ∧
      (search.extend byte bit).bitStart < 8 := by
  have short := at_.short
  have reached := at_.inside
  have found := extend_found search byte bit (by omega)
  obtain ⟨start, bitLow⟩ := extend_start at_ low
  refine ⟨⟨⟨by omega, by omega, ?_⟩, ?_⟩, bitLow⟩
  · intro i within
    by_cases here : i = search.found
    · rw [here, start]
      exact clear
    · exact at_.clear _ (by omega) (by omega)
  · intro earlier before run
    exact at_.none earlier (by omega) run

theorem bitmapScanByte_spec {bm : Bitmap} {n byte left : Nat} {search search' : BitmapSearch}
    {hit : Option Nat} (fits : left ≤ 8) (inside : byte < bm.size) (size : n < 2 ^ 32)
    (at_ : SearchAt bm n (byte * 8 + (8 - left)) search)
    (call : bitmapScanByte (bm.start byte) n byte left search = (search', hit)) :
    (hit = none → SearchAt bm n ((byte + 1) * 8) search') ∧
      ∀ bit, hit = some bit → bit < 8 ∧ search'.bitStart < 8 ∧
        bm.FirstFreeRun n (search'.byteStart * 8 + search'.bitStart) := by
  induction left generalizing search with
  | zero =>
    cases call
    have pos : (byte + 1) * 8 = byte * 8 + (8 - 0) := by omega
    rw [pos]
    exact ⟨fun _ => at_, nofun⟩
  | succ left ih =>
    have bit : 8 - (left + 1) = 7 - left := by omega
    have next : byte * 8 + (8 - left) = byte * 8 + (7 - left) + 1 := by omega
    have read : (bm.start byte).getLsbD (7 - left) = bm.isSet (byte * 8 + (7 - left)) := by
      have word : (byte * 8 + (7 - left)) / 8 = byte := by omega
      have within : (byte * 8 + (7 - left)) % 8 = 7 - left := by omega
      simp only [Bitmap.isSet, word, within]
    rw [bit] at at_
    simp only [bitmapScanByte, read] at call
    split at call
    · rename_i set
      have after := searchAt_set at_ set
      rw [← next] at after
      exact ih (by omega) after call
    · rename_i clear
      have clear' : bm.isSet (byte * 8 + (7 - left)) = false := by simpa using clear
      split at call
      · rename_i done
        cases call
        obtain ⟨run, low⟩ := searchAt_hit at_ clear' (by omega) inside size done
        refine ⟨nofun, fun bit same => ?_⟩
        cases same
        exact ⟨by omega, low, run⟩
      · rename_i more
        have after := searchAt_clear at_ clear' (by omega) size more
        rw [← next] at after
        exact ih (by omega) after call

theorem bitmapScan_spec {bm : Bitmap} {n left bit : Nat} {search search' : BitmapSearch}
    {byteHit bitHit : Nat} (low : bit ≤ 8) (inside : left ≤ bm.size) (size : n < 2 ^ 32)
    (at_ : SearchAt bm n ((bm.size - left) * 8 + bit) search)
    (call : bitmapScan bm n left bit search = some (search', byteHit, bitHit)) :
    byteHit < bm.size ∧ bitHit < 8 ∧ search'.bitStart < 8 ∧
      bm.FirstFreeRun n (search'.byteStart * 8 + search'.bitStart) := by
  induction left generalizing bit search with
  | zero => cases call
  | succ left ih =>
    simp only [bitmapScan] at call
    have start : bit = 8 - (8 - bit) := by omega
    rw [start] at at_
    split at call
    · rename_i hit scanned
      cases call
      exact ⟨by omega, (bitmapScanByte_spec (by omega) (by omega) size at_ scanned).2 _ rfl⟩
    · rename_i scanned
      have after := (bitmapScanByte_spec (by omega) (by omega) size at_ scanned).1 rfl
      have next : (bm.size - (left + 1) + 1) * 8 = (bm.size - left) * 8 + 0 := by omega
      rw [next] at after
      exact ih (by omega) (by omega) after call

@[simp] theorem moveCursor_isSet (bm : Bitmap) (byte bit unit : Nat) :
    (bm.moveCursor byte bit).isSet unit = bm.isSet unit := by
  unfold Bitmap.moveCursor
  split <;> rfl

@[simp] theorem moveCursor_size (bm : Bitmap) (byte bit : Nat) :
    (bm.moveCursor byte bit).size = bm.size := by
  unfold Bitmap.moveCursor
  split <;> rfl

/-- What a call does: it fails and only moves the cursor, or it finds the first free run and sets
    the units that `bitmap_mark_bitmap` sets from its first unit on. -/
theorem bitmapFirstNFreeAndMark_cases {n : BitVec 32} {bm bm' : Bitmap} {result : Int}
    (positive : 1 ≤ n.toNat) (call : bitmapFirstNFreeAndMark n bm = .ok (result, bm')) :
    bm'.size = bm.size ∧
      ((result = -12 ∧ ∀ unit, bm'.isSet unit = bm.isSet unit) ∨
        ∃ start, bm.FirstFreeRun n.toNat start ∧ result = (BitVec.ofNat 32 start).toInt ∧
          ∀ unit, bm'.isSet unit =
            (bm.isSet unit || decide (Marks (start / 8) (start % 8) n.toNat unit))) := by
  have size := n.isLt
  simp only [bitmapFirstNFreeAndMark] at call
  split at call
  · cases call
    exact ⟨rfl, .inl ⟨rfl, fun _ => rfl⟩⟩
  · rename_i search byte bit scanned
    obtain ⟨success, rest⟩ := assert_bind_ok.mp call
    cases rest
    have within : bm.byteCursor < bm.size := by
      by_contra outside
      have none : bm.size - bm.byteCursor = 0 := by omega
      simp [none, bitmapScan] at scanned
    have start : (bm.size - (bm.size - bm.byteCursor)) * 8 + bm.bitCursor.val = bm.cursor := by
      unfold Bitmap.cursor
      omega
    have subBound := bm.bitCursor.isLt
    obtain ⟨-, -, low, run⟩ := bitmapScan_spec (by omega) (by omega) size
      (start ▸ searchAt_cursor bm n.toNat positive) scanned
    have inside := run.1.2.1
    have marked := bitmapMarkBitmap_isSet low positive (Nat.sub_le _ _)
      (Prod.ext success rfl)
    refine ⟨?_, .inr ⟨_, run, rfl, fun unit => ?_⟩⟩
    · rw [moveCursor_size]
      exact bitmapMarkBitmap_size rfl
    · have first : bm.size - (bm.size - search.byteStart) = search.byteStart := by omega
      have word : (search.byteStart * 8 + search.bitStart) / 8 = search.byteStart := by omega
      have sub : (search.byteStart * 8 + search.bitStart) % 8 = search.bitStart := by omega
      rw [moveCursor_isSet, marked, first, word, sub]

/-- The run that the search finds starts at a byte boundary or ends within its first byte. -/
def Bitmap.RunAligned (bm : Bitmap) (n : Nat) : Prop :=
  ∀ start < bm.size * 8, bm.FirstFreeRun n start → start % 8 = 0 ∨ start % 8 + n ≤ 8

instance (bm : Bitmap) (n : Nat) : Decidable (bm.RunAligned n) :=
  inferInstanceAs (Decidable (∀ start < _, _ → _))

theorem marks_run_iff (start n : Nat) :
    (∀ unit, Marks (start / 8) (start % 8) n unit ↔ start ≤ unit ∧ unit < start + n) ↔
      start % 8 = 0 ∨ start % 8 + n ≤ 8 := by
  constructor
  · intro exactly
    by_contra crosses
    have skipped := (exactly ((start / 8 + 1) * 8)).mpr (by omega)
    obtain ⟨-, high, -⟩ := skipped
    omega
  · rintro (boundary | short) unit
    · simp only [Marks, boundary, Nat.sub_zero]
      omega
    · rw [marks_first _ _ _ _ (by omega)]
      omega

theorem firstFreeRun_unique {bm : Bitmap} {n first second : Nat} (h : bm.FirstFreeRun n first)
    (h' : bm.FirstFreeRun n second) : first = second := by
  rcases Nat.lt_trichotomy first second with before | same | after
  · exact absurd h.1 (h'.2 first before)
  · exact same
  · exact absurd h'.1 (h.2 second after)

theorem runAligned_iff {bm : Bitmap} {n start : Nat} (positive : 1 ≤ n)
    (run : bm.FirstFreeRun n start) :
    bm.RunAligned n ↔ start % 8 = 0 ∨ start % 8 + n ≤ 8 := by
  have inside := run.1.2.1
  constructor
  · intro aligned
    exact aligned start (by omega) run
  · intro aligned other _ found
    rw [firstFreeRun_unique found run]
    exact aligned

theorem toInt_ofNat_nonneg {start : Nat} (bound : start < 2 ^ 32)
    (nonneg : 0 ≤ (BitVec.ofNat 32 start).toInt) : (BitVec.ofNat 32 start).toInt = start := by
  rw [BitVec.toInt_eq_toNat_cond, BitVec.toNat_ofNat, Nat.mod_eq_of_lt bound] at nonneg ⊢
  split at nonneg <;> rename_i half <;> simp only [half, ↓reduceIte] at nonneg ⊢
  omega

/-- One call of `bitmap_first_n_free_and_mark` with what it returned. -/
structure BitmapCall where
  n : BitVec 32
  result : Int

def BitmapCall.takes (call : BitmapCall) (unit : Nat) : Prop :=
  0 ≤ call.result ∧ call.result ≤ unit ∧ unit < call.result + call.n.toNat

def Bitmap.perform (bm : Bitmap) (call : BitmapCall) : Option Bitmap :=
  match bitmapFirstNFreeAndMark call.n bm with
  | .ok (result, bm') => if result = call.result then some bm' else none
  | .error _ => none

theorem perform_call {bm bm' : Bitmap} {call : BitmapCall} (step : bm.perform call = some bm') :
    bitmapFirstNFreeAndMark call.n bm = .ok (call.result, bm') := by
  simp only [Bitmap.perform] at step
  split at step
  · rename_i result after made
    simp only [Option.ite_none_right_eq_some, Option.some.injEq] at step
    rw [made, step.1, step.2]
  · cases step

/-- Bitmaps reached from `bitmap_init(units)` by the calls in order, each of them `safe`. -/
def Bitmap.Reached (units : BitVec 32) (safe : Bitmap → Nat → Prop) (calls : List BitmapCall)
    (bm : Bitmap) : Prop :=
  ∃ start, bitmapInit units true = .ok start ∧
    Run (fun bm call bm' => bm.perform call = some bm' ∧ 1 ≤ call.n.toNat ∧ safe bm call.n.toNat)
      start calls bm

theorem Bitmap.reached_of_replay (units : BitVec 32) (safe : Bitmap → Nat → Prop)
    [∀ bm n, Decidable (safe bm n)] (calls : List BitmapCall)
    (done : ((bitmapInit units true).toOption.bind fun start => calls.foldlM (fun bm call =>
      if 1 ≤ call.n.toNat ∧ safe bm call.n.toNat then bm.perform call else none) start).isSome) :
    ∃ bm, Bitmap.Reached units safe calls bm := by
  obtain ⟨bm, replayed⟩ := Option.isSome_iff_exists.mp done
  obtain ⟨start, init, made⟩ := Option.bind_eq_some_iff.mp replayed
  obtain ⟨after, run⟩ := Run.of_replay Bitmap.perform
    (fun bm call => 1 ≤ call.n.toNat ∧ safe bm call.n.toNat) start calls (by rw [made]; rfl)
  refine ⟨after, start, ?_, run⟩
  cases call : bitmapInit units true with
  | error st => simp [call, Except.toOption] at init
  | ok made =>
    simp only [call, Except.toOption, Option.some.injEq] at init
    rw [init]

theorem bitmapFirstNFreeAndMark_success {n : BitVec 32} {bm bm' : Bitmap} {result : Int}
    (positive : 1 ≤ n.toNat) (call : bitmapFirstNFreeAndMark n bm = .ok (result, bm'))
    (success : 0 ≤ result) :
    ∃ start : Nat, result = start ∧ bm.FirstFreeRun n.toNat start ∧ ∀ unit, bm'.isSet unit =
      (bm.isSet unit || decide (Marks (start / 8) (start % 8) n.toNat unit)) := by
  obtain ⟨-, ⟨failed, -⟩ | ⟨start, run, value, marked⟩⟩ :=
    bitmapFirstNFreeAndMark_cases positive call
  · omega
  · have inside := run.1.2.1
    have addressable := bm.addressable
    rw [value] at success
    refine ⟨start, ?_, run, marked⟩
    rw [value, toInt_ofNat_nonneg (by omega) success]

/-- A call sets every unit of the range it returns exactly when that range is aligned. -/
theorem bitmapFirstNFreeAndMark_sets_iff {n : BitVec 32} {bm bm' : Bitmap} {result : Int}
    (positive : 1 ≤ n.toNat) (call : bitmapFirstNFreeAndMark n bm = .ok (result, bm'))
    (success : 0 ≤ result) :
    (∀ unit : Nat, result ≤ unit → unit < result + n.toNat → bm'.isSet unit = true) ↔
      bm.RunAligned n.toNat := by
  obtain ⟨start, rfl, run, marked⟩ := bitmapFirstNFreeAndMark_success positive call success
  rw [runAligned_iff positive run, ← marks_run_iff]
  constructor
  · intro sets
    rw [marks_run_iff]
    by_contra crosses
    have clear := run.1.2.2 ((start / 8 + 1) * 8 - start) (by omega)
    have here : start + ((start / 8 + 1) * 8 - start) = (start / 8 + 1) * 8 := by omega
    have set := sets ((start / 8 + 1) * 8) (by omega) (by omega)
    rw [here] at clear
    rw [marked, clear, Bool.false_or] at set
    obtain ⟨-, high, -⟩ := of_decide_eq_true set
    omega
  · intro exactly unit after before
    rw [marked]
    have marks := (exactly unit).mpr (by omega)
    simp [marks]

theorem bitmapFirstNFreeAndMark_keeps {n : BitVec 32} {bm bm' : Bitmap} {result : Int} {unit : Nat}
    (positive : 1 ≤ n.toNat) (call : bitmapFirstNFreeAndMark n bm = .ok (result, bm'))
    (set : bm.isSet unit = true) : bm'.isSet unit = true := by
  obtain ⟨-, ⟨-, same⟩ | ⟨start, -, -, marked⟩⟩ := bitmapFirstNFreeAndMark_cases positive call
  · rw [same, set]
  · rw [marked, set]
    rfl

theorem bitmapFirstNFreeAndMark_clear {n : BitVec 32} {bm bm' : Bitmap} {result : Int} {unit : Nat}
    (positive : 1 ≤ n.toNat) (call : bitmapFirstNFreeAndMark n bm = .ok (result, bm'))
    (first : 0 ≤ result) (after : result ≤ unit) (before : unit < result + n.toNat) :
    bm.isSet unit = false := by
  obtain ⟨start, rfl, run, -⟩ := bitmapFirstNFreeAndMark_success positive call first
  have clear := run.1.2.2 (unit - start) (by omega)
  have here : start + (unit - start) = unit := by omega
  rw [here] at clear
  exact clear

theorem bitmap_lends_exclusively {units : BitVec 32} {calls : List BitmapCall} {bm : Bitmap}
    (reached : Bitmap.Reached units Bitmap.RunAligned calls bm) :
    Exclusive BitmapCall.takes (fun _ _ => False) calls := by
  obtain ⟨start, -, run⟩ := reached
  refine run.exclusive (fun bm unit => bm.isSet unit = false) ?_ ?_ ?_
  · rintro bm call bm' unit ⟨step, positive, -⟩ ⟨success, after, before⟩
    exact bitmapFirstNFreeAndMark_clear positive (perform_call step) success after before
  · rintro bm call bm' unit ⟨step, positive, aligned⟩ ⟨success, after, before⟩
    have sets := bitmapFirstNFreeAndMark_sets_iff positive (perform_call step) success
    simp [sets.mpr aligned unit after before]
  · rintro bm call bm' unit ⟨step, positive, -⟩ - used
    have set : bm.isSet unit = true := by simpa using used
    simp [bitmapFirstNFreeAndMark_keeps positive (perform_call step) set]

end Dxgmx
