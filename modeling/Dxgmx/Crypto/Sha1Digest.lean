import Dxgmx.Crypto.Sha1

open Library

namespace Dxgmx

section Words

theorem getLsbD_word (b0 b1 b2 b3 : BitVec 8) (i : Nat) :
    (b3 ++ b2 ++ b1 ++ b0).getLsbD i =
      if i < 8 then b0.getLsbD i else if i < 16 then b1.getLsbD (i - 8)
      else if i < 24 then b2.getLsbD (i - 16) else b3.getLsbD (i - 24) := by
  simp only [BitVec.getLsbD_append]
  grind

theorem byte_word (b0 b1 b2 b3 : BitVec 8) :
    (b3 ++ b2 ++ b1 ++ b0).extractLsb' 0 8 = b0 ∧ (b3 ++ b2 ++ b1 ++ b0).extractLsb' 8 8 = b1 ∧
      (b3 ++ b2 ++ b1 ++ b0).extractLsb' 16 8 = b2 ∧
      (b3 ++ b2 ++ b1 ++ b0).extractLsb' 24 8 = b3 := by
  refine ⟨?_, ?_, ?_, ?_⟩
  all_goals
    apply BitVec.eq_of_getLsbD_eq
    intro i inside
    rw [BitVec.getLsbD_extractLsb', getLsbD_word]
    grind

theorem masks (i : Nat) (inside : i < 32) :
    (0xFF : BitVec 32).getLsbD i = decide (i < 8) ∧
      (0xFF00 : BitVec 32).getLsbD i = decide (8 ≤ i ∧ i < 16) ∧
      (0xFF0000 : BitVec 32).getLsbD i = decide (16 ≤ i ∧ i < 24) ∧
      (0xFF000000 : BitVec 32).getLsbD i = decide (24 ≤ i) := by
  revert i
  decide

/-- Flipping the word in memory reads its bytes the high one first. -/
theorem bwU32FlipEndianness_eq (x : BitVec 32) : bwU32FlipEndianness x =
    Sha1.word (x.extractLsb' 0 8) (x.extractLsb' 8 8) (x.extractLsb' 16 8) (x.extractLsb' 24 8) := by
  apply BitVec.eq_of_getLsbD_eq
  intro i inside
  obtain ⟨first, second, third, fourth⟩ := masks i inside
  unfold Sha1.word
  rw [getLsbD_word]
  simp only [bwU32FlipEndianness, BitVec.getLsbD_or, BitVec.getLsbD_and,
    BitVec.getLsbD_ushiftRight, BitVec.getLsbD_shiftLeft, BitVec.getLsbD_extractLsb']
  grind

@[simp] theorem WordBuf.byte_ofBytes (bytes : Nat → BitVec 8) (i : Nat) :
    (WordBuf.ofBytes bytes).byte i = bytes i := by
  have split := Nat.div_add_mod i 4
  have cases : i % 4 = 0 ∨ i % 4 = 1 ∨ i % 4 = 2 ∨ i % 4 = 3 := by omega
  unfold WordBuf.byte WordBuf.ofBytes
  obtain ⟨b0, b1, b2, b3⟩ := byte_word (bytes (4 * (i / 4))) (bytes (4 * (i / 4) + 1))
    (bytes (4 * (i / 4) + 2)) (bytes (4 * (i / 4) + 3))
  rcases cases with rest | rest | rest | rest <;> rw [rest] at split ⊢
  · rw [b0, ← Nat.add_zero (4 * (i / 4)), split]
  · rw [b1, split]
  · rw [b2, split]
  · rw [b3, split]

theorem WordBuf.byte_memcpy (buf : WordBuf) (off : Nat) (src : List (BitVec 8)) (i : Nat) :
    (buf.memcpy off src).byte i =
      if off ≤ i ∧ i < off + src.length then src.getD (i - off) 0 else buf.byte i :=
  byte_ofBytes _ i

theorem WordBuf.byte_memset (buf : WordBuf) (off : Nat) (value : BitVec 8) (n i : Nat) :
    (buf.memset off value n).byte i = if off ≤ i ∧ i < off + n then value else buf.byte i := by
  unfold memset
  rw [byte_memcpy, List.length_replicate]
  by_cases inside : off ≤ i ∧ i < off + n
  · have place : i - off < n := by omega
    rw [if_pos inside, if_pos inside, List.getD_replicate _ place]
  · rw [if_neg inside, if_neg inside]

/-- The words that a flipped buffer holds are those of its bytes. -/
theorem blockWords_byte (buf : WordBuf) :
    Sha1.blockWords buf.byte = (List.range 16).map fun i => bwU32FlipEndianness (buf i) := by
  apply List.map_congr_left
  intro i _
  have places : 4 * i / 4 = i ∧ (4 * i + 1) / 4 = i ∧ (4 * i + 2) / 4 = i ∧
      (4 * i + 3) / 4 = i := by omega
  have rests : 4 * i % 4 = 0 ∧ (4 * i + 1) % 4 = 1 ∧ (4 * i + 2) % 4 = 2 ∧
      (4 * i + 3) % 4 = 3 := by omega
  simp only [WordBuf.byte, places, rests, bwU32FlipEndianness_eq]

end Words

section Rounds

theorem flipBlock_eq (buf : WordBuf) (i : Nat) :
    flipBlock buf i = if i < 16 then bwU32FlipEndianness (buf i) else buf i := by
  have general : ∀ n, ((List.range' 0 n).foldl (fun buf i =>
      Function.update buf i (bwU32FlipEndianness (buf i))) buf) i =
        if i < n then bwU32FlipEndianness (buf i) else buf i := by
    intro n
    induction n generalizing i with
    | zero => rfl
    | succ n ih =>
      rw [List.range'_1_concat, List.foldl_append, List.foldl_cons, List.foldl_nil, Nat.zero_add]
      by_cases last : i = n
      · subst last
        rw [Function.update_self, ih, if_neg (lt_irrefl i), if_pos (Nat.lt_succ_self i)]
      · rw [Function.update_of_ne last, ih]
        by_cases before : i < n
        · rw [if_pos before, if_pos (by omega)]
        · rw [if_neg before, if_neg (by omega)]
  exact general 16

theorem length_extend (words : List Sha1.Word) (n : Nat) :
    (Sha1.extend words n).length = words.length + n := by
  induction n with
  | zero => rfl
  | succ n ih =>
    rw [Sha1.extend, List.length_append, ih]
    rfl

theorem extendBlock_eq (buf : WordBuf) (words : List Sha1.Word) (length : words.length = 16)
    (same : ∀ t < 16, buf t = words.getD t 0) (t : Nat) (inside : t < 80) :
    extendBlock buf t = (Sha1.extend words 64).getD t 0 := by
  have general : ∀ n, ∀ t < 16 + n, ((List.range' 16 n).foldl (fun buf i => Function.update buf i
      (bwU32Rotl (buf (i - 3) ^^^ buf (i - 8) ^^^ buf (i - 14) ^^^ buf (i - 16)) 1)) buf) t =
        (Sha1.extend words n).getD t 0 := by
    intro n
    induction n with
    | zero => exact same
    | succ n ih =>
      intro t inside
      have whole : (Sha1.extend words n).length = 16 + n := by rw [length_extend, length]
      rw [List.range'_1_concat, List.foldl_append, List.foldl_cons, List.foldl_nil, Sha1.extend]
      rw [whole]
      by_cases last : t = 16 + n
      · subst last
        rw [Function.update_self, ih _ (by omega), ih _ (by omega), ih _ (by omega),
          ih _ (by omega), List.getD_append_right _ _ _ _ (by omega), whole, Nat.sub_self]
        rfl
      · rw [Function.update_of_ne last, ih t (by omega), List.getD_append _ _ _ _ (by omega)]
  exact general 64 t inside

def Sha1Vars.rfc (v : Sha1Vars) : Sha1.Vars := ⟨v.a, v.b, v.c, v.d, v.e⟩

def Sha1Regs.rfc (regs : Sha1Regs) : Sha1.Vars :=
  ⟨regs.h0, regs.h1, regs.h2, regs.h3, regs.h4⟩

theorem foldl_rfc {round : Sha1Vars → Nat → Sha1Vars} {w : Nat → Sha1.Word} {ts : List Nat}
    (agrees : ∀ v, ∀ t ∈ ts, (round v t).rfc = Sha1.step (w t) t v.rfc) (v : Sha1Vars) :
    (ts.foldl round v).rfc = ts.foldl (fun v t => Sha1.step (w t) t v) v.rfc := by
  induction ts generalizing v with
  | nil => rfl
  | cons t ts ih =>
    rw [List.foldl_cons, List.foldl_cons, ← agrees v t List.mem_cons_self]
    exact ih (fun v t member => agrees v t (List.mem_cons_of_mem _ member)) _

variable (buf : WordBuf) (v : Sha1Vars)

theorem sha1ProcessBlockSwp_rfc {f k : BitVec 32} {t : Nat} (isF : f = Sha1.f t v.b v.c v.d)
    (isK : k = Sha1.k t) :
    (sha1ProcessBlockSwp f k t buf v).rfc = Sha1.step (buf t) t v.rfc := by
  rw [isF, isK]
  rfl

theorem sha1ProcessBlock1_rfc : (sha1ProcessBlock1 buf v).rfc =
    (List.range' 0 20).foldl (fun v t => Sha1.step (buf t) t v) v.rfc := by
  apply foldl_rfc
  intro v t member
  rw [List.mem_range'_1] at member
  apply sha1ProcessBlockSwp_rfc
  · rw [Sha1.f, if_pos (by omega)]
  · rw [Sha1.k, if_pos (by omega)]

theorem sha1ProcessBlock2_rfc : (sha1ProcessBlock2 buf v).rfc =
    (List.range' 20 20).foldl (fun v t => Sha1.step (buf t) t v) v.rfc := by
  apply foldl_rfc
  intro v t member
  rw [List.mem_range'_1] at member
  apply sha1ProcessBlockSwp_rfc
  · rw [Sha1.f, if_neg (by omega), if_pos (by omega)]
  · rw [Sha1.k, if_neg (by omega), if_pos (by omega)]

theorem sha1ProcessBlock3_rfc : (sha1ProcessBlock3 buf v).rfc =
    (List.range' 40 20).foldl (fun v t => Sha1.step (buf t) t v) v.rfc := by
  apply foldl_rfc
  intro v t member
  rw [List.mem_range'_1] at member
  apply sha1ProcessBlockSwp_rfc
  · rw [Sha1.f, if_neg (by omega), if_neg (by omega), if_pos (by omega)]
  · rw [Sha1.k, if_neg (by omega), if_neg (by omega), if_pos (by omega)]

theorem sha1ProcessBlock4_rfc : (sha1ProcessBlock4 buf v).rfc =
    (List.range' 60 20).foldl (fun v t => Sha1.step (buf t) t v) v.rfc := by
  apply foldl_rfc
  intro v t member
  rw [List.mem_range'_1] at member
  apply sha1ProcessBlockSwp_rfc
  · rw [Sha1.f, if_neg (by omega), if_neg (by omega), if_neg (by omega)]
  · rw [Sha1.k, if_neg (by omega), if_neg (by omega), if_neg (by omega)]

/-- One block of the code is one block of the standard. -/
theorem sha1ProcessOneBlock_rfc (ctx : Sha1Context) : (sha1ProcessOneBlock ctx).regs.rfc =
    Sha1.compress ctx.regs.rfc (Sha1.blockWords ctx.blockBuf.byte) := by
  have words : ∀ t < 80, extendBlock (flipBlock ctx.blockBuf) t =
      (Sha1.extend (Sha1.blockWords ctx.blockBuf.byte) 64).getD t 0 := by
    apply extendBlock_eq
    · rw [blockWords_byte, List.length_map, List.length_range]
    · intro t inside
      rw [flipBlock_eq, if_pos inside, blockWords_byte, List.getD_eq_getElem _ _ (by simpa using inside)]
      simp
  have order : List.range 80 =
      List.range' 0 20 ++ List.range' 20 20 ++ List.range' 40 20 ++ List.range' 60 20 := by decide
  have rounds : ∀ buf v, (sha1ProcessBlock4 buf (sha1ProcessBlock3 buf (sha1ProcessBlock2 buf
      (sha1ProcessBlock1 buf v)))).rfc =
        (List.range 80).foldl (fun v t => Sha1.step (buf t) t v) v.rfc := by
    intro buf v
    rw [sha1ProcessBlock4_rfc, sha1ProcessBlock3_rfc, sha1ProcessBlock2_rfc, sha1ProcessBlock1_rfc,
      order, List.foldl_append, List.foldl_append, List.foldl_append]
  have same := rounds (extendBlock (flipBlock ctx.blockBuf))
    ⟨ctx.regs.h0, ctx.regs.h1, ctx.regs.h2, ctx.regs.h3, ctx.regs.h4⟩
  rw [List.foldl_ext _ (fun v t => Sha1.step
    ((Sha1.extend (Sha1.blockWords ctx.blockBuf.byte) 64).getD t 0) t v) _
    (fun v t member => by rw [words t (List.mem_range.mp member)])] at same
  unfold Sha1.compress
  dsimp only
  rw [show ctx.regs.rfc = Sha1Vars.rfc
    ⟨ctx.regs.h0, ctx.regs.h1, ctx.regs.h2, ctx.regs.h3, ctx.regs.h4⟩ from rfl, ← same]
  rfl

end Rounds

section Padding

theorem blockWords_congr {bytes bytes' : Nat → BitVec 8} (same : ∀ i < 64, bytes i = bytes' i) :
    Sha1.blockWords bytes = Sha1.blockWords bytes' := by
  apply List.map_congr_left
  intro i member
  have low := List.mem_range.mp member
  rw [same _ (by omega), same _ (by omega), same _ (by omega), same _ (by omega)]

theorem flip_bytes (x : BitVec 32) :
    (bwU32FlipEndianness x).extractLsb' 0 8 = x.extractLsb' 24 8 ∧
      (bwU32FlipEndianness x).extractLsb' 8 8 = x.extractLsb' 16 8 ∧
      (bwU32FlipEndianness x).extractLsb' 16 8 = x.extractLsb' 8 8 ∧
      (bwU32FlipEndianness x).extractLsb' 24 8 = x.extractLsb' 0 8 := by
  rw [bwU32FlipEndianness_eq]
  exact byte_word _ _ _ _

theorem byte_storeMsgbits (msgbits : BitVec 64) (buf : WordBuf) (i : Nat) (inside : i < 64) :
    (storeMsgbits msgbits buf).byte i =
      if i < 56 then buf.byte i
      else (Sha1.wordBytes ((msgbits >>> 32).setWidth 32) ++
        Sha1.wordBytes (msgbits.setWidth 32)).getD (i - 56) 0 := by
  unfold WordBuf.byte storeMsgbits
  by_cases low : i < 56
  · have first : i / 4 ≠ 14 := by omega
    have second : i / 4 ≠ 15 := by omega
    rw [if_pos low, Function.update_of_ne second, Function.update_of_ne first]
  · obtain ⟨hi0, hi1, hi2, hi3⟩ := flip_bytes ((msgbits >>> 32).setWidth 32)
    obtain ⟨lo0, lo1, lo2, lo3⟩ := flip_bytes (msgbits.setWidth 32)
    have places : i = 56 ∨ i = 57 ∨ i = 58 ∨ i = 59 ∨ i = 60 ∨ i = 61 ∨ i = 62 ∨ i = 63 := by omega
    rcases places with rfl | rfl | rfl | rfl | rfl | rfl | rfl | rfl <;>
      simp [Sha1.wordBytes, hi0, hi1, hi2, hi3, lo0, lo1, lo2, lo3]

theorem msgbits_words {ctx : Sha1Context} {n : Nat} (size : ctx.msgInitsize = BitVec.ofNat 32 n)
    (small : n < 2 ^ 29) :
    (ctx.msgbits >>> 32).setWidth 32 = BitVec.ofNat 32 (8 * n / 2 ^ 32) ∧
      ctx.msgbits.setWidth 32 = BitVec.ofNat 32 (8 * n) := by
  have eight : (8 : BitVec 32).toNat = 8 := rfl
  unfold Sha1Context.msgbits
  rw [size]
  constructor
  all_goals
    apply BitVec.eq_of_toNat_eq
    simp only [eight, BitVec.toNat_setWidth, BitVec.toNat_ushiftRight, BitVec.toNat_mul,
      BitVec.toNat_ofNat, Nat.shiftRight_eq_div_pow]
    omega

variable {msg : List (BitVec 8)}

theorem length_pad (msg : List (BitVec 8)) :
    (Sha1.pad msg).length = 64 * (msg.length / 64) + if msg.length % 64 < 56 then 64 else 128 := by
  have split := Nat.div_add_mod msg.length 64
  simp only [Sha1.pad, Sha1.padding, Sha1.wordBytes, List.length_append, List.length_cons,
    List.length_replicate, List.length_nil]
  split <;> omega

theorem pad_message {i : Nat} (inside : i < msg.length) :
    (Sha1.pad msg).getD i 0 = msg.getD i 0 :=
  List.getD_append _ _ _ _ inside

theorem pad_padding (i : Nat) : (Sha1.pad msg).getD (msg.length + i) 0 =
    if i = 0 then 0x80 else if i ≤ (119 - msg.length % 64) % 64 then 0
    else (Sha1.wordBytes (BitVec.ofNat 32 (8 * msg.length / 2 ^ 32)) ++
      Sha1.wordBytes (BitVec.ofNat 32 (8 * msg.length))).getD
        (i - 1 - (119 - msg.length % 64) % 64) 0 := by
  rw [Sha1.pad, List.getD_append_right _ _ _ _ (by omega), Nat.add_sub_cancel_left, Sha1.padding]
  cases i with
  | zero => rfl
  | succ i =>
    rw [if_neg (by omega), List.cons_append, List.getD_cons_succ]
    by_cases zeros : i + 1 ≤ (119 - msg.length % 64) % 64
    · rw [if_pos zeros, List.getD_append _ _ _ _ (by rw [List.length_replicate]; omega),
        List.getD_replicate _ (by omega)]
    · rw [if_neg zeros, List.getD_append_right _ _ _ _ (by rw [List.length_replicate]; omega),
        List.length_replicate]
      rfl

theorem pad_last {r : Nat} (rest : msg.length % 64 = r) (i : Nat) :
    (Sha1.pad msg).getD (64 * (msg.length / 64) + i) 0 =
      if i < r then msg.getD (64 * (msg.length / 64) + i) 0
      else if i = r then 0x80
      else if i ≤ r + (119 - r) % 64 then 0
      else (Sha1.wordBytes (BitVec.ofNat 32 (8 * msg.length / 2 ^ 32)) ++
        Sha1.wordBytes (BitVec.ofNat 32 (8 * msg.length))).getD (i - r - 1 - (119 - r) % 64) 0 := by
  have split := Nat.div_add_mod msg.length 64
  rw [rest] at split
  by_cases inside : i < r
  · rw [if_pos inside, pad_message (by omega)]
  · have place : 64 * (msg.length / 64) + i = msg.length + (i - r) := by omega
    rw [if_neg inside, place, pad_padding, rest]
    by_cases first : i = r
    · rw [if_pos (by omega), if_pos first]
    · rw [if_neg (by omega), if_neg first]
      by_cases zeros : i ≤ r + (119 - r) % 64
      · rw [if_pos (by omega), if_pos zeros]
      · rw [if_neg (by omega), if_neg zeros]

end Padding

section Streaming

variable {msg : List (BitVec 8)} {ctx : Sha1Context} {n : Nat}

/-- What the context holds when the first `n` blocks of the message are processed. -/
structure Sha1Context.Processed (msg : List (BitVec 8)) (n : Nat) (ctx : Sha1Context) : Prop where
  regs : ctx.regs.rfc = Sha1.afterBlocks (Sha1.pad msg) n
  initsize : ctx.msgInitsize = BitVec.ofNat 32 msg.length
  extrapadding : ctx.extrapaddingHas = false ∧ ctx.extrapaddingBuf = fun _ => 0

theorem sha1ProcessBlock_once (size : ctx.blockSize = 64) (none : ctx.extrapaddingHas = false) :
    sha1ProcessBlock ctx = .ok (sha1ProcessOneBlock ctx) := by
  rw [sha1ProcessBlock, if_neg (by simp [size]), if_neg (by simp [none])]

theorem sha1ProcessOneBlock_frame (ctx : Sha1Context) :
    (sha1ProcessOneBlock ctx).msgInitsize = ctx.msgInitsize ∧
      (sha1ProcessOneBlock ctx).extrapaddingHas = ctx.extrapaddingHas ∧
      (sha1ProcessOneBlock ctx).extrapaddingBuf = ctx.extrapaddingBuf ∧
      (sha1ProcessOneBlock ctx).msg = ctx.msg := by
  cases ctx
  exact ⟨rfl, rfl, rfl, rfl⟩

theorem Sha1Context.Processed.next (processed : ctx.Processed msg n)
    (block : ∀ i < 64, ctx.blockBuf.byte i = (Sha1.pad msg).getD (64 * n + i) 0) :
    (sha1ProcessOneBlock ctx).Processed msg (n + 1) := by
  obtain ⟨initsize, has, extrapadding, -⟩ := sha1ProcessOneBlock_frame ctx
  refine ⟨?_, ?_, ?_, ?_⟩
  · rw [sha1ProcessOneBlock_rfc, processed.regs, blockWords_congr block, Sha1.afterBlocks]
  · rw [initsize, processed.initsize]
  · rw [has, processed.extrapadding.1]
  · rw [extrapadding, processed.extrapadding.2]

/-- What the loop leaves to be padded. -/
structure Sha1Context.Read (msg : List (BitVec 8)) (ctx : Sha1Context) : Prop where
  processed : ctx.Processed msg (msg.length / 64)
  size : ctx.blockSize = msg.length % 64
  block : ∀ i < msg.length % 64, ctx.blockBuf.byte i = msg.getD (64 * (msg.length / 64) + i) 0

theorem sha1ChewLoop_read {fuel : Nat} (processed : ctx.Processed msg n)
    (left : ctx.msg = msg.drop (64 * n)) (inside : 64 * n ≤ msg.length)
    (enough : msg.length / 64 < n + fuel) :
    ∃ ctx', sha1ChewLoop fuel ctx = .ok ctx' ∧ ctx'.Read msg := by
  induction fuel generalizing ctx n with
  | zero => omega
  | succ fuel ih =>
    have length : ctx.msg.length = msg.length - 64 * n := by rw [left, List.length_drop]
    have bytes : ∀ read ≤ ctx.msg.length, ∀ i < read,
        (ctx.blockBuf.memcpy 0 (ctx.msg.take read)).byte i = msg.getD (64 * n + i) 0 := by
      intro read bound i low
      rw [WordBuf.byte_memcpy, if_pos (by rw [List.length_take]; omega), left]
      simp only [List.getD_eq_getElem?_getD]
      rw [List.getElem?_take_of_lt (by omega), List.getElem?_drop]
      rfl
    by_cases whole : 64 ≤ ctx.msg.length
    · let mid : Sha1Context := { ctx with
        blockBuf := ctx.blockBuf.memcpy 0 (ctx.msg.take 64)
        blockSize := 64
        msg := ctx.msg.drop 64 }
      have once : sha1ProcessBlock mid = .ok (sha1ProcessOneBlock mid) :=
        sha1ProcessBlock_once rfl processed.extrapadding.1
      have pass : sha1ChewLoop (fuel + 1) ctx = sha1ChewLoop fuel (sha1ProcessOneBlock mid) := by
        rw [sha1ChewLoop, sha1ReadBlock]
        simp only [if_pos whole, ↓reduceIte]
        change (sha1ProcessBlock mid >>= sha1ChewLoop fuel) = _
        rw [once]
        rfl
      have start : mid.Processed msg n :=
        ⟨processed.regs, processed.initsize, processed.extrapadding⟩
      rw [pass]
      apply @ih _ (n + 1)
      · apply start.next
        intro i low
        rw [pad_message (by omega)]
        exact bytes 64 whole i low
      · rw [(sha1ProcessOneBlock_frame mid).2.2.2]
        show ctx.msg.drop 64 = _
        rw [left, List.drop_drop]
        rfl
      · omega
      · omega
    · rw [sha1ChewLoop, sha1ReadBlock]
      simp only [if_neg whole]
      rw [if_neg (show ¬ctx.msg.length = 64 by omega)]
      have last : n = msg.length / 64 := by omega
      have rest : ctx.msg.length = msg.length % 64 := by omega
      refine ⟨_, rfl, ⟨?_, processed.initsize, processed.extrapadding⟩, rest, ?_⟩
      · rw [← last]
        exact processed.regs
      · intro i low
        rw [← last]
        exact bytes _ (Nat.le_refl _) i (by omega)

theorem sha1Pad_one (read : ctx.Read msg) (small : msg.length < 2 ^ 29)
    (room : msg.length % 64 < 56) : ∃ padded, sha1Pad ctx = .ok padded ∧
      padded.blockSize = 64 ∧ padded.Processed msg (msg.length / 64) ∧
      ∀ i < 64, padded.blockBuf.byte i =
        (Sha1.pad msg).getD (64 * (msg.length / 64) + i) 0 := by
  obtain ⟨high, low⟩ := msgbits_words read.processed.initsize small
  have size := read.size
  unfold sha1Pad
  rw [if_neg (by omega), if_neg (by omega)]
  refine ⟨_, rfl, rfl, ⟨read.processed.regs, read.processed.initsize,
    read.processed.extrapadding⟩, fun i inside => ?_⟩
  dsimp only
  have zeros : msg.length % 64 + (119 - msg.length % 64) % 64 = 55 := by omega
  rw [byte_storeMsgbits _ _ _ inside, pad_last rfl, high, low, zeros]
  by_cases before : i < 56
  · rw [if_pos before, WordBuf.byte_memset, WordBuf.byte_memset, size]
    by_cases message : i < msg.length % 64
    · rw [if_neg (by omega), if_neg (by omega), if_pos message, read.block i message]
    · rw [if_neg message]
      by_cases one : i = msg.length % 64
      · rw [if_pos (by omega), if_pos one]
        rfl
      · rw [if_neg (by omega), if_pos (by omega), if_neg one, if_pos (by omega)]
  · have place : i - msg.length % 64 - 1 - (119 - msg.length % 64) % 64 = i - 56 := by omega
    rw [if_neg before, if_neg (by omega), if_neg (by omega), if_neg (by omega), place]

theorem sha1Pad_two (read : ctx.Read msg) (small : msg.length < 2 ^ 29)
    (full : ¬msg.length % 64 < 56) : ∃ padded, sha1Pad ctx = .ok padded ∧
      padded.blockSize = 64 ∧ padded.extrapaddingHas = true ∧
      padded.regs = ctx.regs ∧
      (∀ i < 64, padded.blockBuf.byte i =
        (Sha1.pad msg).getD (64 * (msg.length / 64) + i) 0) ∧
      ∀ i < 64, padded.extrapaddingBuf.byte i =
        (Sha1.pad msg).getD (64 * (msg.length / 64 + 1) + i) 0 := by
  obtain ⟨high, low⟩ := msgbits_words read.processed.initsize small
  have size := read.size
  have below : msg.length % 64 < 64 := Nat.mod_lt _ (by decide)
  have zeros : (119 - msg.length % 64) % 64 = 119 - msg.length % 64 := by omega
  unfold sha1Pad
  rw [if_neg (by omega), if_pos (by omega)]
  refine ⟨_, rfl, rfl, rfl, rfl, fun i inside => ?_, fun i inside => ?_⟩
  · dsimp only
    rw [WordBuf.byte_memset, WordBuf.byte_memset, pad_last rfl, size, zeros]
    by_cases message : i < msg.length % 64
    · rw [if_neg (by omega), if_neg (by omega), if_pos message, read.block i message]
    · rw [if_neg message]
      by_cases one : i = msg.length % 64
      · rw [if_neg (by omega), if_pos (by omega), if_pos one]
        rfl
      · rw [if_pos (by omega), if_neg one, if_pos (by omega)]
  · dsimp only
    have next : 64 * (msg.length / 64 + 1) + i = 64 * (msg.length / 64) + (64 + i) := by omega
    have past : ¬64 + i < msg.length % 64 ∧ ¬64 + i = msg.length % 64 := by omega
    rw [byte_storeMsgbits _ _ _ inside, next, pad_last rfl, high, low, zeros, if_neg past.1,
      if_neg past.2]
    by_cases before : i < 56
    · rw [if_pos before, if_pos (by omega), WordBuf.byte_memset, read.processed.extrapadding.2]
      split
      · rfl
      · simp [WordBuf.byte]
    · have place : 64 + i - msg.length % 64 - 1 - (119 - msg.length % 64) = i - 56 := by omega
      rw [if_neg before, if_neg (by omega), place]

theorem sha1_finishes (read : ctx.Read msg) (small : msg.length < 2 ^ 29) :
    ∃ padded last, sha1Pad ctx = .ok padded ∧ sha1ProcessBlock padded = .ok last ∧
      last.regs.rfc = Sha1.afterBlocks (Sha1.pad msg) ((Sha1.pad msg).length / 64) := by
  rw [length_pad]
  by_cases room : msg.length % 64 < 56
  · obtain ⟨padded, pads, size, processed, block⟩ := sha1Pad_one read small room
    refine ⟨padded, _, pads, sha1ProcessBlock_once size processed.extrapadding.1, ?_⟩
    have blocks : (64 * (msg.length / 64) + 64) / 64 = msg.length / 64 + 1 := by omega
    rw [if_pos room, blocks]
    exact (processed.next block).regs
  · obtain ⟨padded, pads, size, has, regs, block, extra⟩ := sha1Pad_two read small room
    let second : Sha1Context := { sha1ProcessOneBlock padded with
      extrapaddingHas := false
      blockBuf := (sha1ProcessOneBlock padded).blockBuf.memcpy 0
        ((List.range 64).map (sha1ProcessOneBlock padded).extrapaddingBuf.byte)
      blockSize := 64 }
    have once : sha1ProcessBlock second = .ok (sha1ProcessOneBlock second) :=
      sha1ProcessBlock_once rfl rfl
    refine ⟨padded, sha1ProcessOneBlock second, pads, ?_, ?_⟩
    · rw [sha1ProcessBlock, if_neg (by simp [size]), if_pos has]
      exact once
    · have blocks : (64 * (msg.length / 64) + 128) / 64 = msg.length / 64 + 1 + 1 := by omega
      have first : second.regs.rfc =
          Sha1.afterBlocks (Sha1.pad msg) (msg.length / 64 + 1) := by
        show (sha1ProcessOneBlock padded).regs.rfc = _
        rw [sha1ProcessOneBlock_rfc, regs, read.processed.regs, blockWords_congr block,
          Sha1.afterBlocks]
      have bytes : ∀ i < 64, second.blockBuf.byte i =
          (Sha1.pad msg).getD (64 * (msg.length / 64 + 1) + i) 0 := by
        intro i inside
        rw [← extra i inside, WordBuf.byte_memcpy, if_pos (by simpa using inside),
          (sha1ProcessOneBlock_frame padded).2.2.1]
        simp [inside]
      rw [if_neg room, blocks, sha1ProcessOneBlock_rfc, first, blockWords_congr bytes,
        ← Sha1.afterBlocks]

/-- The registers are written the high byte first. -/
theorem digest_bytes (regs : Sha1Regs) :
    Sha1Regs.bytes ⟨bwU32FlipEndianness regs.h0, bwU32FlipEndianness regs.h1,
      bwU32FlipEndianness regs.h2, bwU32FlipEndianness regs.h3, bwU32FlipEndianness regs.h4⟩ =
      regs.rfc.digest := by
  simp only [Sha1Regs.bytes, Sha1Regs.rfc, Sha1.Vars.digest, Sha1.wordBytes, List.flatMap_cons,
    List.flatMap_nil, flip_bytes]
  rfl

/-- The digest that is written is the one of the standard. -/
theorem sha1_chew_rfc3174 (buf : List (BitVec 8)) (fuel : Nat) (small : buf.length < 2 ^ 29)
    (enough : buf.length / 64 < fuel) : sha1Chew fuel buf = .ok (0, Sha1.sha1 buf) := by
  have start : (sha1CreateContext buf).Processed buf 0 := ⟨rfl, rfl, rfl, rfl⟩
  obtain ⟨ctx, loops, read⟩ := @sha1ChewLoop_read buf _ 0 fuel start rfl (Nat.zero_le _) (by omega)
  obtain ⟨padded, last, pads, finishes, regs⟩ := sha1_finishes read small
  unfold sha1Chew
  rw [loops]
  change (sha1Pad ctx >>= fun ctx => sha1ProcessBlock ctx >>= fun ctx => pure (0, Sha1Regs.bytes _))
    = _
  rw [pads]
  change (sha1ProcessBlock padded >>= fun ctx => pure (0, Sha1Regs.bytes _)) = _
  rw [finishes]
  change Except.ok (0, Sha1Regs.bytes _) = _
  rw [digest_bytes, regs, Sha1.sha1]

theorem sha1_chew_rfc3174_abc :
    sha1Chew 1 [0x61, 0x62, 0x63] = .ok (0, Sha1.sha1 [0x61, 0x62, 0x63]) :=
  sha1_chew_rfc3174 _ 1 (by decide) (by decide)

end Streaming

end Dxgmx
