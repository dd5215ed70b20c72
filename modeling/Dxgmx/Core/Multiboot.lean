import Dxgmx.Library.StackMachine
import Dxgmx.Mem.MregmapAlignment
import Dxgmx.Mem.MregmapInsertion
import Dxgmx.Mem.Paging

open Library

namespace Dxgmx

structure MultibootMMAP where
  size : BitVec 32
  base : BitVec 64
  length : BitVec 64
  type : BitVec 32
  deriving DecidableEq, Repr

/-- The map comes with the framebuffer, whose fields are all of type `ptr`. -/
structure KernelBootInfo where
  hasFb : Bool
  fbPa : Ptr
  fbWidth : Ptr
  fbHeight : Ptr
  fbBpp : Ptr
  mregmap : MemoryRegionMap

def sysMemoryRegionsMax : Nat := 16

/-- `g_sys_mregs` is an array of the kernel image. -/
def KernelBootInfo.boot : KernelBootInfo :=
  ⟨false, 0, 0, 0, 0, ⟨[], sysMemoryRegionsMax, sysMemoryRegionsMax * memoryRegionSize⟩⟩

def loadMmap (mem : ByteMemory) (mmap : Ptr) : MultibootMMAP where
  size := loadWord mem mmap
  base := loadWord mem (mmap + 8) ++ loadWord mem (mmap + 4)
  length := loadWord mem (mmap + 16) ++ loadWord mem (mmap + 12)
  type := loadWord mem (mmap + 20)

/-- The body of the loop, with `krealloc` and the fuel of `mregmap_add_reg`. -/
def multibootAddEntry (alloc : Nat → Bool) (fuel : Nat) (mmap : MultibootMMAP)
    (map : MemoryRegionMap) : Exec MemoryRegionMap := do
  assert (map.regions.length < map.regionsCapacity)
  if mmap.type ≠ 1 then pure map
  else do
    let added ← mregmapAddReg alloc fuel ⟨mmap.base, mmap.length, 7⟩ map
    pure added.2

def multibootParseMmap (alloc : Nat → Bool) (regFuel : Nat) (mem : ByteMemory) (stop : Ptr) :
    (fuel : Nat) → Ptr → MemoryRegionMap → Exec MemoryRegionMap
  | 0, _, _ => .error .fuel
  | fuel + 1, mmap, map =>
    if mmap < stop then do
      let map ← multibootAddEntry alloc regFuel (loadMmap mem mmap) map
      multibootParseMmap alloc regFuel mem stop fuel (mmap + (loadMmap mem mmap).size + 4) map
    else pure map

/-- The magic and the physical address of the MBI are what the loader left in registers. -/
structure MultibootEnv where
  kimg : KernelImage
  mem : ByteMemory
  magic : BitVec 32
  structPa : Ptr
  alloc : Nat → Bool

def MultibootEnv.mbi (env : MultibootEnv) : Ptr := mmKpa2va env.kimg env.structPa

def MultibootEnv.mmapStart (env : MultibootEnv) : Ptr :=
  mmKpa2va env.kimg (loadWord env.mem (env.mbi + 48))

def MultibootEnv.mmapStop (env : MultibootEnv) : Ptr :=
  env.mmapStart + loadWord env.mem (env.mbi + 44)

def multibootParseInfo (env : MultibootEnv) (fuel : Nat) (kbootinfo : KernelBootInfo) :
    Exec (Int × KernelBootInfo) :=
  if env.magic ≠ 0x2BADB002 then .ok (-1, kbootinfo)
  else do
    let mbi := env.mbi
    let kbootinfo :=
      if env.mem (mbi + 109) = 1 then
        { kbootinfo with
          hasFb := true
          fbPa := loadWord env.mem (mbi + 88)
          fbWidth := loadWord env.mem (mbi + 100)
          fbHeight := loadWord env.mem (mbi + 104)
          fbBpp := (env.mem (mbi + 108)).setWidth 32 }
      else kbootinfo
    let mregmap ← multibootParseMmap env.alloc fuel env.mem env.mmapStop fuel env.mmapStart
      kbootinfo.mregmap
    pure (0, { kbootinfo with mregmap })

def kbootinfoParse (env : MultibootEnv) (fuel : Nat) : Exec KernelBootInfo := do
  let parsed ← multibootParseInfo env fuel .boot
  assert (parsed.1 = 0)
  pure parsed.2

/-- The entries that the loop comes to. -/
def EntriesAt (mem : ByteMemory) (stop : Ptr) : Ptr → List MultibootMMAP → Prop
  | mmap, [] => ¬mmap < stop
  | mmap, entry :: rest =>
    mmap < stop ∧ loadMmap mem mmap = entry ∧ EntriesAt mem stop (mmap + entry.size + 4) rest

/-- The regions of the available entries. -/
def availableRegions (entries : List MultibootMMAP) : List MemoryRegion :=
  (entries.filter (·.type = 1)).map fun entry => ⟨entry.base, entry.length, 7⟩

/-- Regions that are not empty, end below `2 ^ 64` and do not overlap, in any order. -/
structure Separate (regions : List MemoryRegion) : Prop where
  some_ : ∀ r ∈ regions, r.start.toNat < r.finish
  ends : ∀ r ∈ regions, r.finish < 2 ^ 64
  apart : (regions.map MemoryRegion.span).Pairwise Span.Apart

section

variable {regions others : List MemoryRegion} {region r : MemoryRegion} {map : MemoryRegionMap}
  {alloc : Nat → Bool} {kimgSize : Ptr}

theorem Separate.perm (separate : Separate regions) (perm : regions.Perm others) :
    Separate others where
  some_ r member := separate.some_ r (perm.mem_iff.mpr member)
  ends r member := separate.ends r (perm.mem_iff.mpr member)
  apart := ((perm.map MemoryRegion.span).pairwise_iff Or.symm).mp separate.apart

theorem Separate.left (separate : Separate (regions ++ others)) : Separate regions where
  some_ r member := separate.some_ r (List.mem_append_left _ member)
  ends r member := separate.ends r (List.mem_append_left _ member)
  apart := by
    have apart := separate.apart
    rw [List.map_append] at apart
    exact (List.pairwise_append.mp apart).1

/-- A region apart from all others is only sorted in. -/
theorem addReg_separate (separate : Separate (region :: map.regions)) (sized : map.Sized)
    (room : map.regions.length < map.regionsCapacity) {fuel : Nat}
    (enough : map.regionsCapacity + 2 ≤ fuel) :
    mregmapAddReg alloc fuel region map = .ok (true, { map with
      regions := bubbleSort (fun r => r.start.toNat) (map.regions ++ [region]) }) := by
  obtain ⟨fuel, rfl⟩ : ∃ less, fuel = less + 1 := ⟨fuel - 1, by omega⟩
  have regionEnds := separate.ends region List.mem_cons_self
  have apart := List.pairwise_cons.mp (List.map_cons ▸ separate.apart)
  have same : ∀ r ∈ map.regions, region.trimmed r = some r := by
    intro r member
    have inside := List.mem_cons_of_mem region member
    exact trimmed_apart regionEnds (separate.ends r inside) (separate.some_ r inside)
      (apart.1 r.span (List.mem_map_of_mem member)).symm
  have whole : ∀ r ∈ map.regions, ¬region.Splits r := by
    intro r member splits
    have inside := List.mem_cons_of_mem region member
    rw [splits_iff regionEnds (separate.ends r inside)] at splits
    have some_ := separate.some_ region List.mem_cons_self
    have beside := apart.1 r.span (List.mem_map_of_mem member)
    unfold Span.Apart MemoryRegion.span at beside
    dsimp only at beside
    omega
  have fixed : mregmapFixOverlaps alloc fuel region 0 map = .ok map := by
    rcases mregmapFixOverlaps_whole alloc fuel sized.held whole with done | ⟨few, -⟩
    · rw [done, MemoryRegion.sweep_same same]
    · have := sized.room
      omega
  rw [mregmapAddReg_inserts fixed sized, if_pos room]

/-- The regions so far, sorted, with all that are still to come. -/
structure Parsing (map : MemoryRegionMap) (rest : List MultibootMMAP) : Prop extends map.Sized where
  separate : Separate (map.regions ++ availableRegions rest)
  sorted : map.regions.Pairwise fun r q => r.start.toNat ≤ q.start.toNat

theorem availableRegions_cons (entry : MultibootMMAP) (rest : List MultibootMMAP) :
    availableRegions (entry :: rest) =
      if entry.type = 1 then ⟨entry.base, entry.length, 7⟩ :: availableRegions rest
      else availableRegions rest := by
  unfold availableRegions
  by_cases available : entry.type = 1
  · rw [if_pos available, List.filter_cons_of_pos (by simpa using available), List.map_cons]
  · rw [if_neg available, List.filter_cons_of_neg (by simpa using available)]

theorem availableRegions_length (entry : MultibootMMAP) (rest : List MultibootMMAP) :
    (availableRegions (entry :: rest)).length =
      (availableRegions [entry]).length + (availableRegions rest).length := by
  rw [availableRegions_cons, availableRegions_cons]
  split
  · rw [List.length_cons, List.length_cons, Nat.add_comm]
    rfl
  · exact (Nat.zero_add _).symm

/-- An entry that finds room is put in if it is available. -/
theorem addEntry_ok (alloc : Nat → Bool) {entry : MultibootMMAP} {rest : List MultibootMMAP}
    (parsing : Parsing map (entry :: rest)) (room : map.regions.length < map.regionsCapacity)
    {fuel : Nat} (enough : map.regionsCapacity + 2 ≤ fuel) :
    ∃ after, multibootAddEntry alloc fuel entry map = .ok after ∧ Parsing after rest ∧
      after.regionsCapacity = map.regionsCapacity ∧
      after.regions.Perm (map.regions ++ availableRegions [entry]) := by
  have separate := parsing.separate
  unfold multibootAddEntry
  rw [show assert (map.regions.length < map.regionsCapacity) = .ok () from if_pos room,
    Exec.ok_bind]
  rw [availableRegions_cons] at separate ⊢
  by_cases available : entry.type = 1
  · rw [if_pos available] at separate
    rw [if_neg (not_not_intro available), if_pos available]
    have moved := separate.perm List.perm_middle
    rw [addReg_separate (Separate.left moved) parsing.toSized room enough]
    have place : (bubbleSort (fun r : MemoryRegion => r.start.toNat)
        (map.regions ++ [⟨entry.base, entry.length, 7⟩])).Perm
        (map.regions ++ [⟨entry.base, entry.length, 7⟩]) := bubbleSort_perm
    refine ⟨_, rfl, ⟨⟨?_, parsing.block⟩, ?_, bubbleSort_sorted⟩, rfl, place⟩
    · have length := place.length_eq
      rw [List.length_append, List.length_singleton] at length
      exact length.trans_le room
    · have all := (place.append_right (availableRegions rest)).symm
      rw [List.append_assoc] at all
      exact separate.perm all
  · rw [if_neg available] at separate
    rw [if_pos available, if_neg available]
    exact ⟨map, rfl, ⟨parsing.toSized, separate, parsing.sorted⟩, rfl, by simp [availableRegions]⟩

/-- There is a region left for every entry that the loop comes to. -/
def RegionsLeft (used capacity : Nat) (entries : List MultibootMMAP) : Prop :=
  ∀ before entry after, entries = before ++ entry :: after →
    used + (availableRegions before).length < capacity

theorem regionsLeft_cons {used capacity : Nat} {entry : MultibootMMAP} {rest : List MultibootMMAP} :
    RegionsLeft used capacity (entry :: rest) ↔
      used < capacity ∧ RegionsLeft (used + (availableRegions [entry]).length) capacity rest := by
  constructor
  · intro fits
    refine ⟨fits [] entry rest rfl, ?_⟩
    rintro before next after rfl
    have room := fits (entry :: before) next after rfl
    rw [availableRegions_length] at room
    omega
  · rintro ⟨here, later⟩ before next after split
    cases before with
    | nil => exact here
    | cons first before =>
      cases split
      have room := later before next after rfl
      rw [availableRegions_length]
      omega

/-- What is left to parse goes into the map, or there are too many regions. -/
theorem parseMmap_cases (alloc : Nat → Bool) {mem : ByteMemory} {stop : Ptr} {entries : List MultibootMMAP} {mmap : Ptr}
    (stored : EntriesAt mem stop mmap entries) (parsing : Parsing map entries) {regFuel fuel : Nat}
    (enough : map.regionsCapacity + 2 ≤ regFuel) (longer : entries.length < fuel) :
    (RegionsLeft map.regions.length map.regionsCapacity entries ∧
      ∃ after, multibootParseMmap alloc regFuel mem stop fuel mmap map = .ok after ∧
        Parsing after [] ∧ after.regions.Perm (map.regions ++ availableRegions entries)) ∨
    (¬RegionsLeft map.regions.length map.regionsCapacity entries ∧
      multibootParseMmap alloc regFuel mem stop fuel mmap map = .error .panic) := by
  obtain ⟨fuel, rfl⟩ : ∃ less, fuel = less + 1 := ⟨fuel - 1, by omega⟩
  induction entries generalizing mmap map fuel with
  | nil =>
    refine .inl ⟨?_, map, if_neg stored, parsing, by simp [availableRegions]⟩
    intro before entry after split
    simp at split
  | cons entry rest ih =>
    rcases stored with ⟨more, here, later⟩
    rw [multibootParseMmap, if_pos more, here]
    by_cases room : map.regions.length < map.regionsCapacity
    · rcases addEntry_ok alloc parsing room enough with
        ⟨added, done, parsing', capacity, place⟩
      rw [done, Exec.ok_bind]
      have length := place.length_eq
      rw [List.length_append] at length
      have next : RegionsLeft map.regions.length map.regionsCapacity (entry :: rest) ↔
          RegionsLeft added.regions.length added.regionsCapacity rest := by
        rw [regionsLeft_cons, length, capacity]
        exact and_iff_right room
      rw [next]
      rw [List.length_cons] at longer
      obtain ⟨fuel, rfl⟩ : ∃ less, fuel = less + 1 := ⟨fuel - 1, by omega⟩
      rcases ih later parsing' (capacity ▸ enough) fuel (by omega) with
        ⟨fits, after, parsed, last, all⟩ | ⟨few, stops⟩
      · refine .inl ⟨fits, after, parsed, last, all.trans ?_⟩
        have whole := place.append_right (availableRegions rest)
        rw [List.append_assoc] at whole
        refine whole.trans (List.Perm.of_eq ?_)
        congr 1
        rw [availableRegions_cons entry rest, availableRegions_cons entry []]
        split <;> rfl
      · exact .inr ⟨few, stops⟩
    · refine .inr ⟨fun fits => room (regionsLeft_cons.mp fits).1, ?_⟩
      unfold multibootAddEntry
      rw [show assert (map.regions.length < map.regionsCapacity) = .error .panic from if_neg room]
      rfl

theorem Parsing.boot {entries : List MultibootMMAP} (separate : Separate (availableRegions entries)) :
    Parsing KernelBootInfo.boot.mregmap entries :=
  ⟨⟨Nat.zero_le _, le_rfl⟩, separate, .nil⟩

theorem parseInfo_cases (env : MultibootEnv) {entries : List MultibootMMAP}
    (stored : EntriesAt env.mem env.mmapStop env.mmapStart entries)
    (separate : Separate (availableRegions entries)) (magic : env.magic = 0x2BADB002) {fuel : Nat}
    (enough : sysMemoryRegionsMax + 2 ≤ fuel) (longer : entries.length < fuel) :
    (RegionsLeft 0 sysMemoryRegionsMax entries ∧
      ∃ info, multibootParseInfo env fuel .boot = .ok (0, info) ∧ Parsing info.mregmap [] ∧
        info.mregmap.regions.Perm (availableRegions entries)) ∨
    (¬RegionsLeft 0 sysMemoryRegionsMax entries ∧
      multibootParseInfo env fuel .boot = .error .panic) := by
  unfold multibootParseInfo
  rw [if_neg (not_not_intro magic)]
  dsimp only
  generalize info_ : (if env.mem (env.mbi + 109) = 1 then _ else KernelBootInfo.boot) = info
  have same : info.mregmap = KernelBootInfo.boot.mregmap := by
    rw [← info_]
    split <;> rfl
  rw [same]
  rcases parseMmap_cases env.alloc stored (Parsing.boot separate) enough longer with
    ⟨fits, after, parsed, parsing, perm⟩ | ⟨few, stops⟩
  · rw [parsed]
    exact .inl ⟨fits, _, rfl, parsing, perm⟩
  · rw [stops]
    exact .inr ⟨few, rfl⟩

theorem kbootinfo_cases (env : MultibootEnv) {entries : List MultibootMMAP}
    (stored : EntriesAt env.mem env.mmapStop env.mmapStart entries)
    (separate : Separate (availableRegions entries)) {fuel : Nat}
    (enough : sysMemoryRegionsMax + 2 ≤ fuel) (longer : entries.length < fuel) :
    ((env.magic = 0x2BADB002 ∧ RegionsLeft 0 sysMemoryRegionsMax entries) ∧
      ∃ info, kbootinfoParse env fuel = .ok info ∧ Parsing info.mregmap [] ∧
        info.mregmap.regions.Perm (availableRegions entries)) ∨
    (¬(env.magic = 0x2BADB002 ∧ RegionsLeft 0 sysMemoryRegionsMax entries) ∧
      kbootinfoParse env fuel = .error .panic) := by
  unfold kbootinfoParse
  by_cases magic : env.magic = 0x2BADB002
  · rcases parseInfo_cases env stored separate magic enough longer with
      ⟨fits, info, parsed, parsing, perm⟩ | ⟨few, stops⟩
    · rw [parsed]
      exact .inl ⟨⟨magic, fits⟩, info, rfl, parsing, perm⟩
    · rw [stops]
      exact .inr ⟨fun both => few both.2, rfl⟩
  · refine .inr ⟨fun both => magic both.1, ?_⟩
    unfold multibootParseInfo
    rw [if_pos magic]
    rfl

/-- Regions of which at most one begins below 1 MiB, at most one of those that end above it begins
    below the end of the image, and each that ends above that contains the beginning of a page. -/
structure MemoryLayout (imageEnd : Nat) (regions : List MemoryRegion) : Prop
    extends Separate regions where
  low : ∀ r ∈ regions, ∀ q ∈ regions, r.start.toNat < 0x100000 → q.start.toNat < 0x100000 →
    r.start = q.start
  image : ∀ r ∈ regions, ∀ q ∈ regions, 0x100000 < r.finish → 0x100000 < q.finish →
    r.start.toNat < imageEnd → q.start.toNat < imageEnd → r.start = q.start
  pages : ∀ r ∈ regions, imageEnd < r.finish →
    roundedUp 4096 r.start.toNat < r.finish ∧ r.start.toNat < 2 ^ 64 - 4096

theorem Separate.ordered (separate : Separate regions)
    (sorted : regions.Pairwise fun r q => r.start.toNat ≤ q.start.toNat) :
    Ordered (regions.map MemoryRegion.span) where
  nonempty s member := by
    rcases List.mem_map.mp member with ⟨r, here, rfl⟩
    exact separate.some_ r here
  sorted := List.pairwise_map.mpr sorted
  apart := separate.apart

theorem MemoryLayout.perm {imageEnd : Nat} (layout : MemoryLayout imageEnd regions)
    (perm : regions.Perm others) : MemoryLayout imageEnd others where
  toSeparate := layout.toSeparate.perm perm
  low r left q right := layout.low r (perm.mem_iff.mpr left) q (perm.mem_iff.mpr right)
  image r left q right := layout.image r (perm.mem_iff.mpr left) q (perm.mem_iff.mpr right)
  pages r member := layout.pages r (perm.mem_iff.mpr member)

end

/-- The memory of a machine with two available entries, and what the loader has put there. -/
def machineWords : List (Ptr × BitVec 32) :=
  [(0xC000902C, 48), (0xC0009030, 0xA000),
    (0xC000A000, 20), (0xC000A00C, 0x9FC00), (0xC000A014, 1),
    (0xC000A018, 20), (0xC000A01C, 0x100000), (0xC000A024, 0x7F00000), (0xC000A02C, 1)]

def machine : MultibootEnv where
  kimg := ⟨0xC0000000⟩
  mem := machineWords.foldl (fun mem word => storeWord mem word.1 word.2) fun _ => 0
  magic := 0x2BADB002
  structPa := 0x9000
  alloc _ := false

def machineEntries : List MultibootMMAP := [⟨20, 0, 0x9FC00, 1⟩, ⟨20, 0x100000, 0x7F00000, 1⟩]

theorem machine_stored :
    EntriesAt machine.mem machine.mmapStop machine.mmapStart machineEntries := by
  refine ⟨by decide, by decide, by decide, by decide, ?_⟩
  unfold EntriesAt
  decide

theorem machine_layout : MemoryLayout (0x100000 + (0x80000 : Ptr).toNat)
    (availableRegions machineEntries) where
  some_ := by decide
  ends := by decide
  apart := by
    unfold Span.Apart
    decide
  low := by decide
  image := by decide
  pages := by decide

theorem machine_fits : RegionsLeft 0 sysMemoryRegionsMax machineEntries := by
  unfold machineEntries
  rw [regionsLeft_cons, regionsLeft_cons]
  refine ⟨by decide, by decide, ?_⟩
  intro before entry after split
  simp at split

/-- `kbootinfo_parse` leaves the regions of the available entries, sorted, with the magic and if no
    entry comes after as many available ones as there are regions. Else it panics. -/
theorem kbootinfo_parsed (env : MultibootEnv) {entries : List MultibootMMAP}
    (stored : EntriesAt env.mem env.mmapStop env.mmapStart entries)
    (separate : Separate (availableRegions entries)) : ∃ enough, ∀ fuel, enough ≤ fuel →
      (env.magic = 0x2BADB002 ∧ RegionsLeft 0 sysMemoryRegionsMax entries →
        ∃ info, kbootinfoParse env fuel = .ok info ∧
          info.mregmap.regions.Perm (availableRegions entries) ∧
          info.mregmap.regions.Pairwise fun r q => r.start.toNat ≤ q.start.toNat) ∧
      (¬(env.magic = 0x2BADB002 ∧ RegionsLeft 0 sysMemoryRegionsMax entries) →
        kbootinfoParse env fuel = .error .panic) := by
  refine ⟨sysMemoryRegionsMax + 2 + entries.length, fun fuel enough => ?_⟩
  have longer : entries.length < fuel := by
    unfold sysMemoryRegionsMax at enough
    omega
  rcases kbootinfo_cases env stored separate (by omega) longer with
    ⟨right, info, parsed, parsing, perm⟩ | ⟨wrong, stops⟩
  · exact ⟨fun _ => ⟨info, parsed, perm, parsing.sorted⟩, fun wrong => absurd right wrong⟩
  · exact ⟨fun right => absurd right wrong, fun _ => stops⟩

theorem kbootinfo_parsed_machine : ∃ fuel info, kbootinfoParse machine fuel = .ok info ∧
    info.mregmap.regions.Perm (availableRegions machineEntries) := by
  obtain ⟨enough, parsed⟩ :=
    kbootinfo_parsed machine machine_stored machine_layout.toSeparate
  obtain ⟨info, done, perm, -⟩ := (parsed enough le_rfl).1 ⟨rfl, machine_fits⟩
  exact ⟨enough, info, done, perm⟩

end Dxgmx
