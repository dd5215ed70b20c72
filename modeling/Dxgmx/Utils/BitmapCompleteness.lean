import Dxgmx.Utils.BitmapLending

open Library

namespace Dxgmx

/-- The marking begins every byte at the bit of the first one. -/
def Bitmap.Markable (bm : Bitmap) (n start : Nat) : Prop :=
  n ≤ (8 - start % 8) * (bm.size - start / 8)

instance (bm : Bitmap) (n start : Nat) : Decidable (bm.Markable n start) :=
  inferInstanceAs (Decidable (_ ≤ _))

theorem bitmapMarkBitmap_done_iff {bit left n : Nat} {bm : Bitmap} (low : bit < 8)
    (positive : 1 ≤ n) : (bitmapMarkBitmap bit left n bm).1 = 0 ↔ n ≤ (8 - bit) * left := by
  induction left generalizing n bm with
  | zero =>
    rw [bitmapMarkBitmap, Nat.mul_zero]
    constructor
    · intro done
      cases done
    · omega
  | succ left ih =>
    simp only [bitmapMarkBitmap]
    rw [bitmapMarkByte_left _ _ _ positive, Nat.mul_succ]
    generalize room : (8 - bit) * left = more
    split_ifs with done
    · exact ⟨fun _ => by omega, fun _ => rfl⟩
    · rw [ih (by omega), room]
      omega

section

variable {bm bm' : Bitmap} {n : Nat}

theorem Bitmap.FreeRun.cursor_inside {start : Nat} (run : bm.FreeRun n start) (positive : 1 ≤ n) :
    bm.byteCursor < bm.size := by
  rcases run with ⟨behind, inside, -⟩
  unfold cursor at behind
  omega

/-- A search that ends without a hit has gone past every run. -/
theorem bitmapScan_none {left bit : Nat} {search : BitmapSearch} (low : bit ≤ 8)
    (inside : left ≤ bm.size) (size : n < 2 ^ 32)
    (at_ : SearchAt bm n ((bm.size - left) * 8 + bit) search)
    (call : bitmapScan bm n left bit search = none) (start : Nat) : ¬bm.FreeRun n start := by
  induction left generalizing bit search with
  | zero =>
    intro run
    have within := run.2.1
    exact at_.none start (by omega) run
  | succ left ih =>
    simp only [bitmapScan] at call
    have begins : bit = 8 - (8 - bit) := by omega
    rw [begins] at at_
    split at call
    · cases call
    · rename_i scanned
      have after := (bitmapScanByte_spec (by omega) (by omega) size at_ scanned).1 rfl
      have next : (bm.size - (left + 1) + 1) * 8 = (bm.size - left) * 8 + 0 := by omega
      rw [next] at after
      exact ih (by omega) (by omega) after call

theorem searchAt_start (positive : 1 ≤ n) (inside : bm.byteCursor < bm.size) :
    SearchAt bm n ((bm.size - (bm.size - bm.byteCursor)) * 8 + bm.bitCursor.val) ⟨0, 0, 0⟩ := by
  have cursor : (bm.size - (bm.size - bm.byteCursor)) * 8 + bm.bitCursor.val = bm.cursor := by
    unfold Bitmap.cursor
    omega
  rw [cursor]
  exact searchAt_cursor bm n positive

theorem firstFreeRun_of_freeRun {start : Nat} (run : bm.FreeRun n start) :
    ∃ first, bm.FirstFreeRun n first :=
  ⟨Nat.find ⟨start, run⟩, Nat.find_spec ⟨start, run⟩, fun _ before => Nat.find_min _ before⟩

theorem bitmapScan_first {start : Nat} (run : bm.FirstFreeRun n start) (positive : 1 ≤ n)
    (size : n < 2 ^ 32) : ∃ search byte bit,
      bitmapScan bm n (bm.size - bm.byteCursor) bm.bitCursor.val ⟨0, 0, 0⟩ =
          some (search, byte, bit) ∧
        search.bitStart < 8 ∧ search.byteStart * 8 + search.bitStart = start := by
  have at_ := searchAt_start positive (run.1.cursor_inside positive)
  have low := bm.bitCursor.isLt
  cases scanned : bitmapScan bm n (bm.size - bm.byteCursor) bm.bitCursor.val ⟨0, 0, 0⟩ with
  | none =>
    exact absurd run.1 (bitmapScan_none (by omega) (Nat.sub_le _ _) size at_ scanned start)
  | some hit =>
    rcases hit with ⟨search, byte, bit⟩
    rcases bitmapScan_spec (by omega) (Nat.sub_le _ _) size at_ scanned with ⟨-, -, first, found⟩
    exact ⟨search, byte, bit, rfl, first, firstFreeRun_unique found run⟩

end

section

variable {bm bm' : Bitmap} {n : BitVec 32} {start : Nat}

theorem bitmapFirstNFreeAndMark_none (positive : 1 ≤ n.toNat)
    (none_ : ∀ start, ¬bm.FreeRun n.toNat start) :
    ∃ bm', bitmapFirstNFreeAndMark n bm = .ok (-12, bm') := by
  have low := bm.bitCursor.isLt
  unfold bitmapFirstNFreeAndMark
  cases scanned : bitmapScan bm n.toNat (bm.size - bm.byteCursor) bm.bitCursor.val ⟨0, 0, 0⟩ with
  | none => exact ⟨_, rfl⟩
  | some hit =>
    rcases hit with ⟨search, byte, bit⟩
    have inside : bm.byteCursor < bm.size := by
      by_contra outside
      rw [Nat.sub_eq_zero_of_le (Nat.le_of_not_lt outside), bitmapScan] at scanned
      cases scanned
    have found := (bitmapScan_spec (by omega) (Nat.sub_le _ _) n.isLt
      (searchAt_start positive inside) scanned).2.2.2
    exact absurd found.1 (none_ _)

/-- The first run is returned if it can be marked, and else the assertion fails. -/
theorem bitmapFirstNFreeAndMark_first (positive : 1 ≤ n.toNat)
    (run : bm.FirstFreeRun n.toNat start) :
    (bm.Markable n.toNat start →
      ∃ bm', bitmapFirstNFreeAndMark n bm = .ok ((BitVec.ofNat 32 start).toInt, bm')) ∧
    (¬bm.Markable n.toNat start → bitmapFirstNFreeAndMark n bm = .error .panic) := by
  rcases bitmapScan_first run positive n.isLt with ⟨search, byte, bit, scanned, low, rfl⟩
  have word : (search.byteStart * 8 + search.bitStart) / 8 = search.byteStart := by omega
  have sub : (search.byteStart * 8 + search.bitStart) % 8 = search.bitStart := by omega
  have done := @bitmapMarkBitmap_done_iff search.bitStart (bm.size - search.byteStart) n.toNat bm low
    positive
  unfold bitmapFirstNFreeAndMark Bitmap.Markable
  rw [scanned, word, sub, ← done]
  dsimp only
  constructor
  · intro marked
    rw [assert, if_pos marked]
    exact ⟨_, rfl⟩
  · intro stops
    rw [assert, if_neg stops]
    rfl

theorem toInt_ofNat_iff (bound : start < 2 ^ 32) :
    (0 ≤ (BitVec.ofNat 32 start).toInt ↔ start < 2 ^ 31) ∧
      (start < 2 ^ 31 → (BitVec.ofNat 32 start).toInt = start) := by
  rw [BitVec.toInt_eq_toNat_cond, BitVec.toNat_ofNat, Nat.mod_eq_of_lt bound]
  omega

theorem Bitmap.FreeRun.start_lt (run : bm.FreeRun n.toNat start) (positive : 1 ≤ n.toNat) :
    start < 2 ^ 32 := by
  have inside := run.2.1
  have addressable := bm.addressable
  omega

end

/-- The first run can be marked, and where its start is no negative `ssize_t` it ends within the
    units. -/
def Bitmap.Inside (units : Nat) (bm : Bitmap) (n : Nat) : Prop :=
  ∀ start < bm.size * 8, bm.FirstFreeRun n start →
    bm.Markable n start ∧ (start < 2 ^ 31 → start + n ≤ units)

instance (units : Nat) (bm : Bitmap) (n : Nat) : Decidable (bm.Inside units n) :=
  inferInstanceAs (Decidable (∀ start < _, _ → _))

section

variable {bm : Bitmap} {n : BitVec 32} {units : Nat}

theorem bitmap_inside_iff (positive : 1 ≤ n.toNat) :
    (∃ result bm', bitmapFirstNFreeAndMark n bm = .ok (result, bm') ∧
      (0 ≤ result → result + n.toNat ≤ units)) ↔ bm.Inside units n.toNat := by
  constructor
  · rintro ⟨result, bm', call, ends⟩ start - run
    rcases bitmapFirstNFreeAndMark_first positive run with ⟨made, stops⟩
    have markable : bm.Markable n.toNat start := by
      by_contra blocked
      cases call.symm.trans (stops blocked)
    rcases made markable with ⟨after, same⟩
    cases call.symm.trans same
    rcases toInt_ofNat_iff (run.1.start_lt positive) with ⟨sign, value⟩
    refine ⟨markable, fun low => ?_⟩
    have bound := ends (sign.mpr low)
    rw [value low] at bound
    exact_mod_cast bound
  · intro inside
    by_cases some_ : ∃ start, bm.FreeRun n.toNat start
    · rcases some_ with ⟨any, free⟩
      rcases firstFreeRun_of_freeRun free with ⟨start, run⟩
      have within := run.1.2.1
      rcases inside start (by omega) run with ⟨markable, ends⟩
      rcases (bitmapFirstNFreeAndMark_first positive run).1 markable with ⟨bm', call⟩
      rcases toInt_ofNat_iff (run.1.start_lt positive) with ⟨sign, value⟩
      refine ⟨_, bm', call, fun success => ?_⟩
      have low := sign.mp success
      have bound := ends low
      rw [value low]
      exact_mod_cast bound
    · rcases bitmapFirstNFreeAndMark_none positive (not_exists.mp some_) with ⟨bm', call⟩
      exact ⟨-12, bm', call, fun success => absurd success (by decide)⟩

theorem reached_inside {units : BitVec 32} {calls : List BitmapCall}
    (reached : Bitmap.Reached units (Bitmap.Inside units.toNat) calls bm) :
    ∀ call ∈ calls, 0 ≤ call.result → call.result + call.n.toNat ≤ units.toNat := by
  rcases reached with ⟨start, -, run⟩
  refine run.labels fun s call t step => ?_
  rcases step with ⟨performed, positive, inside⟩
  rcases (bitmap_inside_iff positive).mpr inside with ⟨result, after, made, ends⟩
  cases made.symm.trans (perform_call performed)
  exact ends

/-- `n` clear units from `start` on, wherever the cursor is. -/
def Bitmap.FreeIn (units : Nat) (bm : Bitmap) (n start : Nat) : Prop :=
  start + n ≤ units ∧ ∀ i < n, bm.isSet (start + i) = false

/-- The first run from the cursor on can be marked, and its start is no negative `ssize_t`. -/
def Bitmap.Reachable (bm : Bitmap) (n : Nat) : Prop :=
  ∃ start < 2 ^ 31, bm.FirstFreeRun n start ∧ bm.Markable n start

theorem bitmap_succeeds_iff (positive : 1 ≤ n.toNat) :
    (∃ result bm', bitmapFirstNFreeAndMark n bm = .ok (result, bm') ∧ 0 ≤ result) ↔
      bm.Reachable n.toNat := by
  constructor
  · rintro ⟨result, bm', call, success⟩
    rcases bitmapFirstNFreeAndMark_success positive call success with ⟨start, rfl, run, -⟩
    rcases bitmapFirstNFreeAndMark_first positive run with ⟨made, stops⟩
    have markable : bm.Markable n.toNat start := by
      by_contra blocked
      cases call.symm.trans (stops blocked)
    rcases made markable with ⟨after, same⟩
    rcases toInt_ofNat_iff (run.1.start_lt positive) with ⟨sign, -⟩
    have value : (start : Int) = (BitVec.ofNat 32 start).toInt :=
      congrArg Prod.fst (Except.ok.inj (call.symm.trans same))
    rw [value] at success
    exact ⟨start, sign.mp success, run, markable⟩
  · rintro ⟨start, low, run, markable⟩
    rcases (bitmapFirstNFreeAndMark_first positive run).1 markable with ⟨bm', call⟩
    exact ⟨_, bm', call, (toInt_ofNat_iff (run.1.start_lt positive)).1.mpr low⟩

theorem reached_size {units : BitVec 32} {safe : Bitmap → Nat → Prop} {calls : List BitmapCall}
    (reached : Bitmap.Reached units safe calls bm) : bm.size = (units.toNat + 7) / 8 := by
  rcases reached with ⟨start, init, run⟩
  have size : start.size = (units.toNat + 7) / 8 := by
    unfold bitmapInit at init
    split_ifs at init
    · cases init
      rfl
  refine run.invariant (fun bm => bm.size = (units.toNat + 7) / 8) ?_ size
  rintro s call t ⟨performed, positive, -⟩ same
  rw [(bitmapFirstNFreeAndMark_cases positive (perform_call performed)).1, same]

/-- In every state that calls can lead to there is a bit for every unit, and a request that fits is
    granted if and only if the first run from the cursor on can be marked. -/
theorem bitmap_complete_iff {units : BitVec 32} {calls : List BitmapCall}
    (reached : Bitmap.Reached units (fun _ _ => True) calls bm) (positive : 1 ≤ n.toNat) :
    units.toNat ≤ bm.size * 8 ∧
      (((∃ start, bm.FreeIn units.toNat n.toNat start) →
        ∃ result bm', bitmapFirstNFreeAndMark n bm = .ok (result, bm') ∧ 0 ≤ result) ↔
      ((∃ start, bm.FreeIn units.toNat n.toNat start) → bm.Reachable n.toNat)) := by
  rw [bitmap_succeeds_iff positive, reached_size reached]
  exact ⟨by omega, Iff.rfl⟩

end

/-- A second request for 4 of 24 units. -/
theorem bitmap_complete_iff_second : ∃ bm, Bitmap.Reached 24 (fun _ _ => True) [⟨8, 0⟩] bm ∧
    (24 ≤ bm.size * 8 ∧ (((∃ start, bm.FreeIn 24 4 start) →
        ∃ result bm', bitmapFirstNFreeAndMark 4 bm = .ok (result, bm') ∧ 0 ≤ result) ↔
      ((∃ start, bm.FreeIn 24 4 start) → bm.Reachable 4))) := by
  rcases Bitmap.reached_of_replay 24 (fun _ _ => True) [⟨8, 0⟩] (by decide) with ⟨bm, reached⟩
  exact ⟨bm, reached, @bitmap_complete_iff bm 4 24 _ reached (by decide)⟩

/-- After a request that does not fit the cursor is at the end, and a request for one of 8 clear units
    fails. -/
theorem bitmap_gives_up : ∃ bm, Bitmap.Reached 8 (fun _ _ => True) [⟨9, -12⟩] bm ∧
    bm.FreeIn 8 1 0 ∧ ∃ bm', bitmapFirstNFreeAndMark 1 bm = .ok (-12, bm') := by
  let bm : Bitmap := ⟨fun _ => 0, 1, 1, 0, by decide⟩
  refine ⟨bm, ⟨⟨fun _ => 0, 1, 0, 0, by decide⟩, rfl, .single ⟨rfl, by decide, trivial⟩⟩,
    ⟨by decide, fun i _ => by simp [bm, Bitmap.isSet]⟩, bm, rfl⟩

end Dxgmx
