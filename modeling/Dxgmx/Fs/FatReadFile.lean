import Dxgmx.Fs.Fat

open Library

namespace Dxgmx

/-- A well-formed FAT32 volume on a device that returns its sectors faithfully. -/
structure FatVolume where
  ctx : Fat32Ctx
  disk : Nat → Nat → Byte
  type : ctx.type = .fat32
  sectorAligned : ctx.sectorsize % 4 = 0
  sectorPositive : 0 < ctx.sectorsize
  sectorBound : ctx.sectorsize < 2 ^ 16
  clusterPositive : 0 < ctx.sectorsPerCluster
  clusterBound : ctx.sectorsPerCluster < 2 ^ 8
  clustersize : ctx.clustersize = ctx.sectorsPerCluster * ctx.sectorsize
  countBound : ctx.clusterCount < 0x0FFFFFF6
  fatInside : ctx.reservedSectorCount + (ctx.clusterCount + 2) * 4 / ctx.sectorsize < 2 ^ 32
  dataInside : ctx.firstDataSector + ctx.clusterCount * ctx.sectorsPerCluster < 2 ^ 32

namespace FatVolume

variable (vol : FatVolume)

def read : PartRead := fun lba _ =>
  .ok fun m => vol.disk (lba + m / vol.ctx.sectorsize) (m % vol.ctx.sectorsize)

/-- The 32 bits of the FAT entry of a cluster. -/
def entry (clus : Nat) : Nat :=
  readU32 (vol.disk (vol.ctx.reservedSectorCount + clus * 4 / vol.ctx.sectorsize))
    (clus * 4 % vol.ctx.sectorsize)

/-- Byte `m` of a cluster. -/
def clusterByte (clus m : Nat) : Byte :=
  vol.disk (vol.ctx.firstDataSector + (clus - 2) * vol.ctx.sectorsPerCluster +
    m / vol.ctx.sectorsize) (m % vol.ctx.sectorsize)

def IsCluster (clus : Nat) : Prop := 2 ≤ clus ∧ clus < vol.ctx.clusterCount + 2

/-- The cluster chain from its first cluster on, up to the end-of-chain mark. The upper four bits of
    an entry do not count. -/
inductive Chain : List Nat → Prop
  | last {clus : Nat} (cluster : vol.IsCluster clus)
      (mark : 0x0FFFFFF8 ≤ vol.entry clus % 2 ^ 28) : Chain [clus]
  | link {clus next : Nat} {rest : List Nat} (cluster : vol.IsCluster clus)
      (points : vol.entry clus % 2 ^ 28 = next) (tail : Chain (next :: rest)) :
      Chain (clus :: next :: rest)

/-- Byte `m` of the concatenation of the clusters of a chain. -/
def fileByte (chain : List Nat) (m : Nat) : Byte :=
  vol.clusterByte (chain.getD (m / vol.ctx.clustersize) 0) (m % vol.ctx.clustersize)

/-- The first `count` clusters of the chain have a successor that `fat_next_clus` accepts. -/
def Followed (chain : List Nat) (count : Nat) : Prop :=
  count < chain.length ∧ ∀ clus ∈ chain.take count, vol.entry clus ≤ vol.ctx.clusterCount

end FatVolume

section

variable {vol : FatVolume}

theorem chain_cluster {clus : Nat} {rest : List Nat} (chain : vol.Chain (clus :: rest)) :
    vol.IsCluster clus := by
  cases chain with
  | last cluster _ => exact cluster
  | link cluster _ _ => exact cluster

theorem fatEntryForClus_eq {clus : Nat} (cluster : vol.IsCluster clus) :
    fatEntryForClus vol.read vol.ctx clus = .ok (vol.entry clus) := by
  have countBound := vol.countBound
  have fatInside := vol.fatInside
  have positive := vol.sectorPositive
  have aligned := vol.sectorAligned
  obtain ⟨low, high⟩ := cluster
  have offset : clus * 4 % 2 ^ 32 = clus * 4 := Nat.mod_eq_of_lt (by omega)
  have quotient : clus * 4 / vol.ctx.sectorsize ≤
      (vol.ctx.clusterCount + 2) * 4 / vol.ctx.sectorsize := Nat.div_le_div_right (by omega)
  have sector : (vol.ctx.reservedSectorCount + clus * 4 / vol.ctx.sectorsize) % 2 ^ 32 =
      vol.ctx.reservedSectorCount + clus * 4 / vol.ctx.sectorsize :=
    Nat.mod_eq_of_lt (by omega)
  have within : clus * 4 % vol.ctx.sectorsize + 3 < vol.ctx.sectorsize := by
    have less := Nat.mod_lt (clus * 4) positive
    have four : clus * 4 % vol.ctx.sectorsize % 4 = 0 := by
      rw [Nat.mod_mod_of_dvd _ (Nat.dvd_of_mod_eq_zero aligned)]
      omega
    omega
  simp only [fatEntryForClus, vol.type, ↓reduceIte, offset, sector, FatVolume.read, Bind.bind,
    Except.bind, Pure.pure, Except.pure, FatVolume.entry, readU32]
  have same : ∀ k < 4, (clus * 4 % vol.ctx.sectorsize + k) / vol.ctx.sectorsize = 0 ∧
      (clus * 4 % vol.ctx.sectorsize + k) % vol.ctx.sectorsize =
        clus * 4 % vol.ctx.sectorsize + k := by
    intro k small
    exact ⟨Nat.div_eq_of_lt (by omega), Nat.mod_eq_of_lt (by omega)⟩
  have first := same 0 (by decide)
  rw [Nat.add_zero] at first
  simp only [first, same 1 (by decide), same 2 (by decide), same 3 (by decide), Nat.add_zero]

/-- `fat_next_clus` follows the chain as long as the raw entry is at most the cluster count. -/
theorem fatNextClus_chain {clus : Nat} {rest : List Nat} (chain : vol.Chain (clus :: rest)) :
    (vol.entry clus ≤ vol.ctx.clusterCount ∧ ∃ next tail, rest = next :: tail ∧
        fatNextClus vol.read vol.ctx clus = .ok next ∧ vol.Chain rest) ∨
      (¬ vol.entry clus ≤ vol.ctx.clusterCount ∧
        fatNextClus vol.read vol.ctx clus = .error (-22)) := by
  have countBound := vol.countBound
  have read := fatEntryForClus_eq (chain_cluster chain)
  by_cases small : vol.entry clus ≤ vol.ctx.clusterCount
  · refine .inl ⟨small, ?_⟩
    have raw : vol.entry clus % 2 ^ 28 = vol.entry clus := Nat.mod_eq_of_lt (by omega)
    cases chain with
    | last cluster mark => omega
    | link cluster points tail =>
      rename_i next rest
      have valid := chain_cluster tail
      obtain ⟨low, high⟩ := valid
      refine ⟨next, rest, rfl, ?_, tail⟩
      rw [raw] at points
      simp only [fatNextClus, read, points]
      rw [if_pos ⟨low, by omega⟩]
  · refine .inr ⟨small, ?_⟩
    simp only [fatNextClus, read]
    rw [if_neg fun both => small both.2]

theorem followed_zero {clus : Nat} {rest : List Nat} : vol.Followed (clus :: rest) 0 :=
  ⟨Nat.succ_pos _, by simp⟩

theorem followed_succ {clus count : Nat} {rest : List Nat} :
    vol.Followed (clus :: rest) (count + 1) ↔
      vol.entry clus ≤ vol.ctx.clusterCount ∧ vol.Followed rest count := by
  simp only [FatVolume.Followed, List.length_cons, List.take_succ_cons, List.forall_mem_cons]
  constructor
  · rintro ⟨short, small, others⟩
    exact ⟨small, by omega, others⟩
  · rintro ⟨small, short, others⟩
    exact ⟨by omega, small, others⟩

theorem followed_add {chain : List Nat} {first second : Nat} :
    vol.Followed chain (first + second) ↔
      vol.Followed chain first ∧ vol.Followed (chain.drop first) second := by
  simp only [FatVolume.Followed, List.take_add, List.mem_append, List.length_drop, or_imp,
    forall_and]
  constructor
  · rintro ⟨short, before, after⟩
    exact ⟨⟨by omega, before⟩, by omega, after⟩
  · rintro ⟨⟨short, before⟩, short', after⟩
    exact ⟨by omega, before, after⟩

theorem fatSkipClusters_ok {count clus next : Nat}
    (stepped : fatNextClus vol.read vol.ctx clus = .ok next) :
    fatSkipClusters vol.read vol.ctx (count + 1) clus =
      fatSkipClusters vol.read vol.ctx count next := by
  rw [fatSkipClusters, stepped]
  rfl

theorem fatSkipClusters_error {count clus : Nat} {st : Int}
    (stepped : fatNextClus vol.read vol.ctx clus = .error st) :
    fatSkipClusters vol.read vol.ctx (count + 1) clus = .error st := by
  rw [fatSkipClusters, stepped]
  rfl

theorem fatSkipClusters_chain {clus : Nat} {rest : List Nat} (count : Nat)
    (chain : vol.Chain (clus :: rest)) :
    (vol.Followed (clus :: rest) count ∧ ∃ next tail, (clus :: rest).drop count = next :: tail ∧
        fatSkipClusters vol.read vol.ctx count clus = .ok next ∧ vol.Chain (next :: tail)) ∨
      (¬ vol.Followed (clus :: rest) count ∧
        fatSkipClusters vol.read vol.ctx count clus = .error (-22)) := by
  induction count generalizing clus rest with
  | zero => exact .inl ⟨followed_zero, clus, rest, rfl, rfl, chain⟩
  | succ count ih =>
    rw [followed_succ, List.drop_succ_cons]
    rcases fatNextClus_chain chain with ⟨small, next, tail, rfl, stepped, chain'⟩ |
      ⟨large, stepped⟩
    · rw [fatSkipClusters_ok stepped]
      rcases ih chain' with ⟨followed, found⟩ | ⟨stuck, failed⟩
      · exact .inl ⟨⟨small, followed⟩, found⟩
      · exact .inr ⟨fun both => stuck both.2, failed⟩
    · exact .inr ⟨fun both => large both.1, fatSkipClusters_error stepped⟩

theorem clustersize_pos (vol : FatVolume) : 0 < vol.ctx.clustersize := by
  rw [vol.clustersize]
  exact Nat.mul_pos vol.clusterPositive vol.sectorPositive

theorem clustersize_lt (vol : FatVolume) : vol.ctx.clustersize < 2 ^ 24 := by
  have sector := vol.sectorBound
  have cluster := vol.clusterBound
  have bound : vol.ctx.sectorsPerCluster * vol.ctx.sectorsize < 2 ^ 8 * 2 ^ 16 :=
    Nat.mul_lt_mul'' cluster sector
  rw [vol.clustersize]
  omega

theorem fileByte_first {clus m : Nat} {rest : List Nat} (within : m < vol.ctx.clustersize) :
    vol.fileByte (clus :: rest) m = vol.clusterByte clus m := by
  unfold FatVolume.fileByte
  rw [Nat.div_eq_of_lt within, Nat.mod_eq_of_lt within, List.getD_cons_zero]

theorem fileByte_drop (vol : FatVolume) (chain : List Nat) (count m : Nat) :
    vol.fileByte (chain.drop count) m =
      vol.fileByte chain (count * vol.ctx.clustersize + m) := by
  have positive := clustersize_pos vol
  unfold FatVolume.fileByte
  rw [Nat.mul_comm count, Nat.mul_add_div positive, Nat.mul_add_mod]
  simp only [List.getD_eq_getElem?_getD, List.getElem?_drop]

theorem fileByte_rest {clus m : Nat} {rest : List Nat} :
    vol.fileByte rest m = vol.fileByte (clus :: rest) (vol.ctx.clustersize + m) := by
  have dropped := fileByte_drop vol (clus :: rest) 1 m
  rw [Nat.one_mul] at dropped
  exact dropped

theorem fatClusterToSector_eq {clus : Nat} (cluster : vol.IsCluster clus) :
    fatClusterToSector vol.ctx clus =
      vol.ctx.firstDataSector + (clus - 2) * vol.ctx.sectorsPerCluster := by
  have inside := vol.dataInside
  obtain ⟨low, high⟩ := cluster
  have index : (clus - 2) * vol.ctx.sectorsPerCluster ≤
      vol.ctx.clusterCount * vol.ctx.sectorsPerCluster := Nat.mul_le_mul_right _ (by omega)
  have wrapped : clus + 2 ^ 32 - 2 = clus - 2 + 2 ^ 32 := by omega
  rw [fatClusterToSector, wrapped, Nat.add_mul, Nat.add_right_comm, Nat.add_mul_mod_self_left,
    Nat.mod_eq_of_lt (by omega), Nat.add_comm]

/-- The staging buffer once a cluster is in its place. -/
def FatVolume.stage (vol : FatVolume) (clus clusbufOff : Nat) (clusbuf : Nat → Byte) : Nat → Byte :=
  fun m =>
    if clusbufOff * vol.ctx.clustersize ≤ m ∧
        m < clusbufOff * vol.ctx.clustersize + vol.ctx.clustersize then
      vol.clusterByte clus (m - clusbufOff * vol.ctx.clustersize)
    else clusbuf m

theorem read_cluster {clus : Nat} (cluster : vol.IsCluster clus) :
    vol.read (fatClusterToSector vol.ctx clus) vol.ctx.sectorsPerCluster =
      .ok (vol.clusterByte clus) := by
  rw [fatClusterToSector_eq cluster]
  rfl

theorem fatReadClusters_ok {left clusbufOff clus next : Nat} {clusbuf : Nat → Byte}
    (cluster : vol.IsCluster clus) (stepped : fatNextClus vol.read vol.ctx clus = .ok next) :
    fatReadClusters vol.read vol.ctx (left + 1) clusbufOff clus clusbuf =
      fatReadClusters vol.read vol.ctx left (clusbufOff + 1) next
        (vol.stage clus clusbufOff clusbuf) := by
  rw [fatReadClusters, read_cluster cluster, stepped, ← vol.clustersize]
  rfl

theorem fatReadClusters_error {left clusbufOff clus : Nat} {clusbuf : Nat → Byte} {st : Int}
    (cluster : vol.IsCluster clus) (stepped : fatNextClus vol.read vol.ctx clus = .error st) :
    fatReadClusters vol.read vol.ctx (left + 1) clusbufOff clus clusbuf = .error st := by
  rw [fatReadClusters, read_cluster cluster, stepped]
  rfl

theorem fatReadClusters_chain {clus : Nat} {rest : List Nat} (left clusbufOff : Nat)
    (clusbuf : Nat → Byte) (chain : vol.Chain (clus :: rest)) :
    (vol.Followed (clus :: rest) left ∧ ∃ buf,
        fatReadClusters vol.read vol.ctx left clusbufOff clus clusbuf = .ok buf ∧
        ∀ m, buf m = if clusbufOff * vol.ctx.clustersize ≤ m ∧
            m < (clusbufOff + left) * vol.ctx.clustersize then
          vol.fileByte (clus :: rest) (m - clusbufOff * vol.ctx.clustersize) else clusbuf m) ∨
      (¬ vol.Followed (clus :: rest) left ∧
        fatReadClusters vol.read vol.ctx left clusbufOff clus clusbuf = .error (-22)) := by
  induction left generalizing clus rest clusbufOff clusbuf with
  | zero =>
    refine .inl ⟨followed_zero, clusbuf, rfl, fun m => ?_⟩
    rw [Nat.add_zero, if_neg (by omega)]
  | succ left ih =>
    have cluster := chain_cluster chain
    rw [followed_succ]
    rcases fatNextClus_chain chain with ⟨small, next, tail, rfl, stepped, chain'⟩ |
      ⟨large, stepped⟩
    · rw [fatReadClusters_ok cluster stepped]
      rcases ih (clusbufOff + 1) (vol.stage clus clusbufOff clusbuf) chain' with
        ⟨followed, buf, done, bytes⟩ | ⟨stuck, failed⟩
      · refine .inl ⟨⟨small, followed⟩, buf, done, fun m => ?_⟩
        have here : (clusbufOff + 1) * vol.ctx.clustersize =
            clusbufOff * vol.ctx.clustersize + vol.ctx.clustersize := by
          rw [Nat.add_mul, Nat.one_mul]
        have end_ : (clusbufOff + 1 + left) * vol.ctx.clustersize =
            (clusbufOff + (left + 1)) * vol.ctx.clustersize := by
          rw [Nat.add_assoc, Nat.add_comm 1]
        have grown : clusbufOff * vol.ctx.clustersize + vol.ctx.clustersize ≤
            (clusbufOff + (left + 1)) * vol.ctx.clustersize := by
          rw [← here]
          exact Nat.mul_le_mul_right _ (by omega)
        rw [bytes, here, end_, FatVolume.stage]
        by_cases later : clusbufOff * vol.ctx.clustersize + vol.ctx.clustersize ≤ m
        · have old : ¬ m < clusbufOff * vol.ctx.clustersize + vol.ctx.clustersize := by omega
          by_cases before : m < (clusbufOff + (left + 1)) * vol.ctx.clustersize
          · rw [if_pos ⟨later, before⟩, if_pos ⟨by omega, before⟩, fileByte_rest]
            congr 1
            omega
          · rw [if_neg fun both => before both.2, if_neg fun both => old both.2,
              if_neg fun both => before both.2]
        · rw [if_neg fun both => later both.1]
          by_cases after : clusbufOff * vol.ctx.clustersize ≤ m
          · rw [if_pos ⟨after, by omega⟩, if_pos ⟨after, by omega⟩, fileByte_first (by omega)]
          · rw [if_neg fun both => after both.1, if_neg fun both => after both.1]
      · exact .inr ⟨fun both => stuck both.2, failed⟩
    · exact .inr ⟨fun both => large both.1, fatReadClusters_error cluster stepped⟩

/-- The clusters that bytes `off` to `off + count - 1` of a file need, counted from its first one. -/
def FatVolume.clustersNeeded (vol : FatVolume) (off count : Nat) : Nat :=
  (off + count + vol.ctx.clustersize - 1) / vol.ctx.clustersize

/-- The staging buffer of `fat_read`, `clusbuf + m`: the clusters from that of `off` on, and behind
    them what the memory held before. -/
def FatVolume.staged (vol : FatVolume) (chain : List Nat) (heap : Nat → Byte) (off count m : Nat) :
    Byte :=
  if m < (vol.clustersNeeded off count - off / vol.ctx.clustersize) * vol.ctx.clustersize then
    vol.fileByte chain (off / vol.ctx.clustersize * vol.ctx.clustersize + m)
  else heap m

theorem clustersNeeded_eq (vol : FatVolume) (off count : Nat) :
    vol.clustersNeeded off count = off / vol.ctx.clustersize +
      (count + off % vol.ctx.clustersize + vol.ctx.clustersize - 1) / vol.ctx.clustersize := by
  have positive := clustersize_pos vol
  have split := Nat.div_add_mod off vol.ctx.clustersize
  have shape : off + count + vol.ctx.clustersize - 1 =
      count + off % vol.ctx.clustersize + vol.ctx.clustersize - 1 +
        vol.ctx.clustersize * (off / vol.ctx.clustersize) := by omega
  rw [FatVolume.clustersNeeded, shape, Nat.add_mul_div_left _ _ positive, Nat.add_comm]

/-- Reads that start in the first cluster are staged where they are copied from. -/
theorem staged_of_first_cluster {chain : List Nat} {heap : Nat → Byte} {off count j : Nat}
    (first : off < vol.ctx.clustersize) (within : j < count) :
    vol.staged chain heap off count (off + j) = vol.fileByte chain (off + j) := by
  have positive := clustersize_pos vol
  have none : off / vol.ctx.clustersize = 0 := Nat.div_eq_of_lt first
  have room : off + j < vol.clustersNeeded off count * vol.ctx.clustersize := by
    have lower := Nat.lt_mul_div_succ (off + count + vol.ctx.clustersize - 1) positive
    rw [FatVolume.clustersNeeded, Nat.mul_comm]
    rw [Nat.mul_add] at lower
    omega
  rw [FatVolume.staged, none, Nat.sub_zero, if_pos room, Nat.zero_mul, Nat.zero_add]

/-- `user_copy_to` on a buffer that takes every byte. -/
def copyAll (src : Nat → Byte) (n : Nat) (dest : Nat → Byte) : Int × (Nat → Byte) :=
  (0, fun j => if j < n then src j else dest j)

/-- The result is that of reading `n` bytes at `off` from a file of `size` bytes. -/
def FatVolume.ReadsFile (vol : FatVolume) (chain : List Nat) (size n off : Nat)
    (dest : Nat → Byte) (result : Int × (Nat → Byte)) : Prop :=
  result.1 = min n (size - off) ∧
    ∀ j, result.2 j = if j < min n (size - off) then vol.fileByte chain (off + j) else dest j

/-- Exactly when a read works: there is nothing to read, or the memory is there, the chain goes on
    past the clusters the read needs without an entry above the cluster count, and the bytes from
    `off` on in the staging buffer are those of the file. -/
def FatVolume.ReadWorks (vol : FatVolume) (chain : List Nat) (size n off : Nat) (fatbuf : Bool)
    (clusbuf : Option (Nat → Byte)) : Prop :=
  n = 0 ∨ size ≤ off ∨
    (fatbuf = true ∧ min n (size - off) < 2 ^ 31 ∧
      vol.Followed chain (vol.clustersNeeded off (min n (size - off))) ∧
      ∃ heap, clusbuf = some heap ∧ ∀ j < min n (size - off),
        vol.staged chain heap off (min n (size - off)) (off + j) = vol.fileByte chain (off + j))

theorem readsFile_nothing {chain : List Nat} {size n off : Nat} {dest : Nat → Byte}
    (nothing : n = 0 ∨ size ≤ off) : vol.ReadsFile chain size n off dest (0, dest) := by
  have zero : min n (size - off) = 0 := by omega
  refine ⟨by rw [zero]; rfl, fun j => ?_⟩
  rw [zero, if_neg (Nat.not_lt_zero _)]

theorem readsFile_negative {chain : List Nat} {size n off : Nat} {dest : Nat → Byte}
    {result : Int × (Nat → Byte)} (failed : result.1 < 0) :
    ¬ vol.ReadsFile chain size n off dest result := by
  rintro ⟨count, -⟩
  omega

theorem workingSize_eq (vol : FatVolume) {count : Nat} (off : Nat) (small : count < 2 ^ 31) :
    (bytesAlignUp64 (BitVec.ofNat 64 ((count + off % vol.ctx.clustersize) % 2 ^ 32))
        (BitVec.ofNat 64 vol.ctx.clustersize)).toNat % 2 ^ 32 / vol.ctx.clustersize =
      (count + off % vol.ctx.clustersize + vol.ctx.clustersize - 1) / vol.ctx.clustersize := by
  have positive := clustersize_pos vol
  have bound := clustersize_lt vol
  have rest := Nat.mod_lt off positive
  have wanted : (BitVec.ofNat 64 ((count + off % vol.ctx.clustersize) % 2 ^ 32)).toNat =
      count + off % vol.ctx.clustersize := by
    rw [BitVec.toNat_ofNat, Nat.mod_eq_of_lt (by omega), Nat.mod_eq_of_lt (by omega)]
  have unit : (BitVec.ofNat 64 vol.ctx.clustersize).toNat = vol.ctx.clustersize := by
    rw [BitVec.toNat_ofNat, Nat.mod_eq_of_lt (by omega)]
  have fits := Nat.div_mul_le_self (count + off % vol.ctx.clustersize + vol.ctx.clustersize - 1)
    vol.ctx.clustersize
  rw [bytesAlignUp64_toNat _ _ (by omega) (by omega), wanted, unit, Nat.mod_eq_of_lt (by omega),
    Nat.mul_div_cancel _ positive]

/-- What a read returns once there is something to read and the memory for it. -/
theorem fatRead_copies {chain : List Nat} (vnode : FileVnode) (isChain : vol.Chain chain)
    (starts : chain.head? = some vnode.n) (n off : BitVec 32) (some_ : n ≠ 0)
    (before : ¬ vnode.size ≤ off) (heap dest : Nat → Byte)
    (small : min n.toNat (vnode.size - off).toNat < 2 ^ 31) :
    (vol.Followed chain (vol.clustersNeeded off.toNat (min n.toNat (vnode.size - off).toNat)) ∧
      fatRead vol.read vol.ctx vnode true (some heap) copyAll n off dest =
        (((min n.toNat (vnode.size - off).toNat : Nat) : Int), fun j =>
          if j < min n.toNat (vnode.size - off).toNat then
            vol.staged chain heap off.toNat (min n.toNat (vnode.size - off).toNat) (off.toNat + j)
          else dest j)) ∨
    (¬ vol.Followed chain (vol.clustersNeeded off.toNat
        (min n.toNat (vnode.size - off).toNat)) ∧
      fatRead vol.read vol.ctx vnode true (some heap) copyAll n off dest = (-22, dest)) := by
  obtain ⟨rest, rfl⟩ := List.head?_eq_some_iff.mp starts
  have notTrivial : ¬ (n = 0 ∨ vnode.size ≤ off) := not_or.mpr ⟨some_, before⟩
  generalize counted : min n.toNat (vnode.size - off).toNat = count at small ⊢
  have needed := clustersNeeded_eq vol off.toNat count
  generalize groups : (count + off.toNat % vol.ctx.clustersize + vol.ctx.clustersize - 1) /
    vol.ctx.clustersize = left at needed
  have size := (workingSize_eq vol off.toNat small).trans groups
  simp only [fatRead, notTrivial, counted, size, reduceCtorEq, ↓reduceIte]
  rw [needed, followed_add]
  rcases fatSkipClusters_chain (off.toNat / vol.ctx.clustersize) isChain with
    ⟨followed, next, tail, dropped, skipped, isChain'⟩ | ⟨stuck, skipped⟩
  · simp only [skipped, dropped]
    rcases fatReadClusters_chain left 0 heap isChain' with
      ⟨followed', buf, read, bytes⟩ | ⟨stuck, read⟩
    · simp only [read]
      refine .inl ⟨⟨followed, followed'⟩, Prod.ext ?_ (funext fun j => ?_)⟩
      · have positive : (BitVec.ofNat 32 count).toNat = count := by
          rw [BitVec.toNat_ofNat, Nat.mod_eq_of_lt (by omega)]
        rw [BitVec.toInt_eq_toNat_of_lt (by omega), positive]
      · have staged : buf (off.toNat + j) = vol.staged (vnode.n :: rest) heap off.toNat count
            (off.toNat + j) := by
          rw [bytes, FatVolume.staged, needed, Nat.add_sub_cancel_left, Nat.zero_mul, Nat.zero_add,
            Nat.sub_zero, ← dropped, fileByte_drop]
          simp only [Nat.zero_le, true_and]
        simp only [copyAll, staged]
    · simp only [read]
      exact .inr ⟨fun both => stuck both.2, trivial⟩
  · simp only [skipped]
    exact .inr ⟨fun both => stuck both.1, trivial⟩

/-- Without the memory, or for a count that is no `ssize_t`, the result is negative. -/
theorem fatRead_negative {chain : List Nat} {vnode : FileVnode} (isChain : vol.Chain chain)
    (starts : chain.head? = some vnode.n) (n off : BitVec 32) (some_ : n ≠ 0)
    (before : ¬ vnode.size ≤ off) (fatbuf : Bool) (clusbuf : Option (Nat → Byte))
    (dest : Nat → Byte)
    (lacking : fatbuf = false ∨ clusbuf = none ∨
      2 ^ 31 ≤ min n.toNat (vnode.size - off).toNat) :
    (fatRead vol.read vol.ctx vnode fatbuf clusbuf copyAll n off dest).1 < 0 := by
  obtain ⟨rest, rfl⟩ := List.head?_eq_some_iff.mp starts
  have notTrivial : ¬ (n = 0 ∨ vnode.size ≤ off) := not_or.mpr ⟨some_, before⟩
  simp only [fatRead, notTrivial, ↓reduceIte]
  split
  · simp only
    omega
  · rename_i present
    rcases fatSkipClusters_chain (off.toNat / vol.ctx.clustersize) isChain with
      ⟨-, next, tail, -, skipped, isChain'⟩ | ⟨-, skipped⟩
    · simp only [skipped]
      cases clusbuf with
      | none =>
        simp only
        omega
      | some heap =>
        have large : 2 ^ 31 ≤ min n.toNat (vnode.size - off).toNat := by
          rcases lacking with absent | absent | large
          · exact absurd absent present
          · cases absent
          · exact large
        simp only
        split
        · rename_i st failed
          rcases fatReadClusters_chain _ 0 heap isChain' with ⟨-, buf, read, -⟩ | ⟨-, read⟩
          · rw [read] at failed
            cases failed
          · rw [read] at failed
            cases failed
            simp only
            omega
        · have bound := n.isLt
          have value : (BitVec.ofNat 32 (min n.toNat (vnode.size - off).toNat)).toNat =
              min n.toNat (vnode.size - off).toNat := by
            rw [BitVec.toNat_ofNat, Nat.mod_eq_of_lt (by omega)]
          simp only
          rw [BitVec.toInt_eq_toNat_cond, if_neg (by omega)]
          omega
    · simp only [skipped]
      omega

/-- On a well-formed volume a read returns the right bytes and their number exactly when
    `ReadWorks`, and a read that starts in the first cluster finds them in the staging buffer. -/
theorem fatRead_reads_iff (vol : FatVolume) (vnode : FileVnode) (chain : List Nat)
    (fatbuf : Bool) (clusbuf : Option (Nat → Byte)) (n off : BitVec 32) (dest : Nat → Byte)
    (isChain : vol.Chain chain) (starts : chain.head? = some vnode.n) :
    (vol.ReadsFile chain vnode.size.toNat n.toNat off.toNat dest
        (fatRead vol.read vol.ctx vnode fatbuf clusbuf copyAll n off dest) ↔
      vol.ReadWorks chain vnode.size.toNat n.toNat off.toNat fatbuf clusbuf) ∧
    (off.toNat < vol.ctx.clustersize → ∀ heap count, ∀ j < count,
      vol.staged chain heap off.toNat count (off.toNat + j) =
        vol.fileByte chain (off.toNat + j)) := by
  refine ⟨?_, fun first heap count j within => staged_of_first_cluster first within⟩
  by_cases nothing : n = 0 ∨ vnode.size ≤ off
  · have nothing' : n.toNat = 0 ∨ vnode.size.toNat ≤ off.toNat := by
      rcases nothing with rfl | after
      · exact .inl rfl
      · exact .inr after
    have result : fatRead vol.read vol.ctx vnode fatbuf clusbuf copyAll n off dest = (0, dest) := by
      rw [fatRead, if_pos nothing]
    rw [result]
    exact iff_of_true (readsFile_nothing nothing')
      (nothing'.elim .inl fun after => .inr (.inl after))
  · obtain ⟨some_, before⟩ := not_or.mp nothing
    have positive : n.toNat ≠ 0 := fun zero => some_ (BitVec.eq_of_toNat_eq zero)
    have inside : ¬ vnode.size.toNat ≤ off.toNat := before
    have rest : (vnode.size - off).toNat = vnode.size.toNat - off.toNat :=
      BitVec.toNat_sub_of_le (by rw [BitVec.le_def]; omega)
    by_cases lacking : fatbuf = false ∨ clusbuf = none ∨
        2 ^ 31 ≤ min n.toNat (vnode.size - off).toNat
    · have failed := fatRead_negative isChain starts n off some_ before fatbuf clusbuf dest lacking
      refine iff_of_false (readsFile_negative failed) ?_
      rw [rest] at lacking
      rintro (zero | after | ⟨present, small, -, heap, given, -⟩)
      · exact positive zero
      · exact inside after
      · rcases lacking with absent | absent | large
        · rw [present] at absent
          cases absent
        · rw [given] at absent
          cases absent
        · omega
    · obtain ⟨absent, given, small⟩ : ¬ fatbuf = false ∧ ¬ clusbuf = none ∧
          min n.toNat (vnode.size - off).toNat < 2 ^ 31 :=
        ⟨fun h => lacking (.inl h), fun h => lacking (.inr (.inl h)),
          Nat.lt_of_not_le fun h => lacking (.inr (.inr h))⟩
      obtain ⟨heap, rfl⟩ := Option.ne_none_iff_exists'.mp given
      have present : fatbuf = true := by simpa using absent
      subst present
      rcases fatRead_copies vnode isChain starts n off some_ before heap dest small with
        ⟨followed, result⟩ | ⟨stuck, result⟩
      · rw [result]
        rw [rest] at followed small ⊢
        constructor
        · rintro ⟨-, bytes⟩
          refine .inr (.inr ⟨rfl, small, followed, heap, rfl, fun j within => ?_⟩)
          have byte := bytes j
          simp only [within, ↓reduceIte] at byte
          exact byte
        · rintro (zero | after | ⟨-, -, -, heap', same, bytes⟩)
          · exact absurd zero positive
          · exact absurd after inside
          · cases same
            refine ⟨rfl, fun j => ?_⟩
            by_cases within : j < min n.toNat (vnode.size.toNat - off.toNat)
            · simp only [within, ↓reduceIte, bytes j within]
            · simp only [within, ↓reduceIte]
      · rw [result]
        rw [rest] at stuck
        refine iff_of_false (readsFile_negative (by simp only; omega)) ?_
        rintro (zero | after | ⟨-, -, followed, -⟩)
        · exact positive zero
        · exact inside after
        · exact stuck followed

end

/-- A volume of one-sector clusters on which cluster 3 is followed by cluster 4, the last one of its
    chain. A data sector is filled with its own number. -/
def smallVolume : FatVolume where
  ctx :=
    { sectorsize := 512
      sectorsPerCluster := 1
      clusterCount := 65600
      reservedSectorCount := 32
      firstDataSector := 600
      clustersize := 512
      type := .fat32 }
  disk := fun sector m =>
    if sector = 32 then
      if m = 12 then 4 else if m = 19 then 0x0F else if 16 ≤ m ∧ m < 19 then 0xFF else 0
    else BitVec.ofNat 8 sector
  type := rfl
  sectorAligned := by decide
  sectorPositive := by decide
  sectorBound := by decide
  clusterPositive := by decide
  clusterBound := by decide
  clustersize := by decide
  countBound := by decide
  fatInside := by decide
  dataInside := by decide

theorem smallVolume_last : smallVolume.Chain [4] :=
  .last ⟨by decide, by decide⟩ (by decide)

theorem smallVolume_chain : smallVolume.Chain [3, 4] :=
  .link ⟨by decide, by decide⟩ (by decide) smallVolume_last

theorem fatRead_reads_longer :
    smallVolume.ReadsFile [3, 4] 10 10 0 (fun _ => 0)
      (fatRead smallVolume.read smallVolume.ctx ⟨3, 10⟩ true (some fun _ => 0) copyAll 10 0
        fun _ => 0) := by
  obtain ⟨iff, staged⟩ := fatRead_reads_iff smallVolume ⟨3, 10⟩ [3, 4] true (some fun _ => 0) 10 0
    (fun _ => 0) smallVolume_chain rfl
  refine iff.mpr (.inr (.inr ⟨rfl, by decide, ⟨by decide, by decide⟩, _, rfl, fun j within => ?_⟩))
  exact staged (by decide) _ _ j within

/-- A file that ends in its only cluster cannot be read at all. -/
theorem fatRead_fails_at_end :
    ¬ ∀ (vol : FatVolume) (vnode : FileVnode) (chain : List Nat) (heap : Nat → Byte)
      (n off : BitVec 32) (dest : Nat → Byte), vol.Chain chain → chain.head? = some vnode.n →
      vnode.size.toNat ≤ chain.length * vol.ctx.clustersize → 0 ≤ off.toInt →
      vol.ReadsFile chain vnode.size.toNat n.toNat off.toNat dest
        (fatRead vol.read vol.ctx vnode true (some heap) copyAll n off dest) := by
  intro claim
  have reads := claim smallVolume ⟨4, 10⟩ [4] (fun _ => 0) 10 0 (fun _ => 0) smallVolume_last rfl
    (by decide) (by decide)
  rcases fatRead_copies ⟨4, 10⟩ smallVolume_last rfl 10 0 (by decide) (by decide)
    (fun _ => 0) (fun _ => 0) (by decide) with ⟨followed, -⟩ | ⟨-, result⟩
  · exact absurd followed.1 (by decide)
  · rw [result] at reads
    exact readsFile_negative (by decide) reads

end Dxgmx
