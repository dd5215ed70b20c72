import Dxgmx.Acpi.AcpiTables
import Dxgmx.Mem.DmaLending

open Library

namespace Dxgmx

/-- A load within the range of its table. -/
def TableRead.Within (read : TableRead) : Prop :=
  ∀ k < read.count, (read.addr + BitVec.ofNat 32 k - read.table.vaddr).toNat < read.table.bytes

/-- A load of an entry within the length of the RSDT. -/
def EntryRead.Within (read : EntryRead) : Prop := read.offset + 4 ≤ read.len.toNat

/-- From one state to the next the mappings go on as they should, and the loads are within their
    tables. -/
structure AcpiGoes (env : AcpiEnv) (heap : Heap) (s s' : AcpiState) : Prop where
  ready : DmaReady env.kimg env.mems heap s'.proc
  stays : StaysMapped env.kimg s.proc.pagingStruct.toPagingState s'.proc.pagingStruct.toPagingState
  reads : ∀ read ∈ s'.tableReads, read ∈ s.tableReads ∨ read.Within
  entries : ∀ read ∈ s'.entryReads, read ∈ s.entryReads ∨ read.Within

/-- The table at a physical address is mapped, with its header and all of its length. -/
structure MappedAt (env : AcpiEnv) (s : AcpiState) (table : MappedTable) (paddr : Ptr) : Prop where
  shows : Shows env.kimg s.proc.pagingStruct.toPagingState table.vaddr paddr table.bytes
  len : (env.longAt (paddr + 4)).toNat ≤ table.bytes
  page : 4096 ≤ table.bytes
  bounded : table.bytes < 2 ^ 32

/-- The address is aligned, and a table of more than a page finds a run that can be marked when it
    is mapped for the second time. -/
def TableMeets (env : AcpiEnv) (paddr : Ptr) (s : AcpiState) : Prop :=
  PageAligned paddr ∧ ∀ hdr s', acpiMap env paddr 4096 s = .ok (.ok hdr, s') →
    4096 < env.longAt (paddr + 4) →
    MapMeets env.bitmapMemory s'.proc paddr (env.longAt (paddr + 4))

/-- The table of an entry meets the condition. -/
def EntryMeets (env : AcpiEnv) (rsdt : MappedTable) (i : Nat) (s : AcpiState) : Prop :=
  ∀ hdrPaddr s', acpiLoadLong env rsdt (rsdt.vaddr + BitVec.ofNat 32 (36 + 4 * i)) s =
    .ok (hdrPaddr, s') → TableMeets env hdrPaddr s'

/-- The entries meet the condition as far as the loop gets. -/
def LoopMeets (env : AcpiEnv) (rsdt : MappedTable) (len : BitVec 32) :
    (left i : Nat) → AcpiState → Prop
  | 0, _, _ => True
  | left + 1, i, s => EntryMeets env rsdt i s ∧ ∀ s',
    acpiEnumerateTurn env rsdt len i s = .ok (none, s') → LoopMeets env rsdt len left (i + 1) s'

/-- The RSDT meets the condition of a table. If its checksum is right it is long enough for its
    header, and its entries meet the condition. -/
def AcpiInitMeets (env : AcpiEnv) (s : AcpiState) : Prop :=
  ∀ rsdp, (acpiFindRsdp env).filter (acpiIsRsdpValid env) = some rsdp →
    TableMeets env (rsdtBase env rsdp) s ∧
    let len := env.longAt (rsdtBase env rsdp + 4)
    ∀ rsdt s1 s2 s3, acpiMapTable env (rsdtBase env rsdp) s = .ok (.ok rsdt, s1) →
      acpiIsSdtHeaderValid env rsdt s1 = .ok (true, s2) → acpiLoadLen env rsdt s2 = .ok (len, s3) →
      36 ≤ len ∧ LoopMeets env rsdt len ((len - 36) / 4).toNat 0 s3

section Loads

variable {env : AcpiEnv} {heap : Heap} {s s' s'' : AcpiState} {table : MappedTable} {paddr addr : Ptr}
  {count : Nat}

theorem mapM_some {α β : Type} {f : α → Option β} {g : α → β} {l : List α}
    (each : ∀ a ∈ l, f a = some (g a)) : l.mapM f = some (l.map g) := by
  induction l with
  | nil => rfl
  | cons a l ih =>
    obtain ⟨first, rest⟩ := List.forall_mem_cons.mp each
    rw [List.mapM_cons, first, ih rest]
    rfl

theorem acpiGoes_refl (ready : DmaReady env.kimg env.mems heap s.proc) : AcpiGoes env heap s s :=
  ⟨ready, staysMapped_refl _, fun _ => .inl, fun _ => .inl⟩

theorem AcpiGoes.trans (first : AcpiGoes env heap s s') (second : AcpiGoes env heap s' s'') :
    AcpiGoes env heap s s'' where
  ready := second.ready
  stays := first.stays.trans second.stays
  reads read member := (second.reads read member).elim (first.reads read) .inr
  entries read member := (second.entries read member).elim (first.entries read) .inr

theorem AcpiGoes.safe (goes : AcpiGoes env heap s s') (safe : AcpiSafe s) : AcpiSafe s' where
  tables read member := (goes.reads read member).elim (safe.tables read) id
  entries read member := (goes.entries read member).elim (safe.entries read) id

theorem MappedAt.same (at_ : MappedAt env s table paddr) (same : s'.proc = s.proc) :
    MappedAt env s' table paddr :=
  ⟨by rw [same]; exact at_.shows, at_.len, at_.page, at_.bounded⟩

theorem acpiLoad_at (table : MappedTable) {place : Nat → Ptr} (each : ∀ k < count,
    translate env.kimg s.proc.pagingStruct.toPagingState (addr + BitVec.ofNat 32 k) =
      some (place k)) :
    acpiLoad env table addr count s = .ok ((List.range count).map fun k => env.phys (place k),
      { s with tableReads := s.tableReads ++ [⟨table, addr, count⟩] }) := by
  have loaded : ∀ k ∈ List.range count,
      (translate env.kimg s.proc.pagingStruct.toPagingState (addr + BitVec.ofNat 32 k)).map env.phys =
        some (env.phys (place k)) := by
    intro k member
    rw [each k (List.mem_range.mp member)]
    rfl
  unfold acpiLoad
  dsimp only
  rw [mapM_some loaded]

theorem acpiLoad_mapped (table : MappedTable) (mapped : ∀ k < count,
    (translate env.kimg s.proc.pagingStruct.toPagingState (addr + BitVec.ofNat 32 k)).isSome) :
    ∃ bytes, acpiLoad env table addr count s =
      .ok (bytes, { s with tableReads := s.tableReads ++ [⟨table, addr, count⟩] }) := by
  refine ⟨_, @acpiLoad_at env s addr count table (fun k => (translate env.kimg
    s.proc.pagingStruct.toPagingState (addr + BitVec.ofNat 32 k)).getD 0) fun k inside => ?_⟩
  obtain ⟨paddr, there⟩ := Option.isSome_iff_exists.mp (mapped k inside)
  rw [there]
  rfl

theorem acpiLoad_shows (table : MappedTable)
    (shows : Shows env.kimg s.proc.pagingStruct.toPagingState addr paddr count) :
    acpiLoad env table addr count s =
      .ok (env.bytesAt paddr count,
        { s with tableReads := s.tableReads ++ [⟨table, addr, count⟩] }) :=
  acpiLoad_at table shows

theorem acpiGoes_load {offset : Nat} (ready : DmaReady env.kimg env.mems heap s.proc)
    (fits : offset + count ≤ table.bytes) (bounded : table.bytes < 2 ^ 32) :
    AcpiGoes env heap s { s with tableReads :=
      s.tableReads ++ [⟨table, table.vaddr + BitVec.ofNat 32 offset, count⟩] } := by
  refine ⟨ready, staysMapped_refl _, fun read member => ?_, fun _ => .inl⟩
  rcases List.mem_append.mp member with before | here
  · exact .inl before
  · rw [List.mem_singleton.mp here]
    refine .inr fun k inside => ?_
    dsimp only at inside ⊢
    bv_omega

theorem Shows.part {state : PagingState} {vaddr : Ptr} {bytes offset : Nat}
    (shows : Shows env.kimg state vaddr paddr bytes) (fits : offset + count ≤ bytes) :
    Shows env.kimg state (vaddr + BitVec.ofNat 32 offset) (paddr + BitVec.ofNat 32 offset) count := by
  intro k inside
  have whole := shows (offset + k) (by omega)
  rw [BitVec.ofNat_add, ← BitVec.add_assoc, ← BitVec.add_assoc] at whole
  exact whole

theorem acpiLoadLen_at
    (shows : Shows env.kimg s.proc.pagingStruct.toPagingState table.vaddr paddr table.bytes)
    (page : 4096 ≤ table.bytes) (bounded : table.bytes < 2 ^ 32)
    (ready : DmaReady env.kimg env.mems heap s.proc) :
    ∃ s', acpiLoadLen env table s = .ok (env.longAt (paddr + 4), s') ∧ AcpiGoes env heap s s' ∧
      s'.proc = s.proc := by
  have load := acpiLoad_shows table (shows.part (show 4 + 4 ≤ table.bytes by omega))
  exact ⟨_, Exec.bind_ok.mpr ⟨_, load, rfl⟩, acpiGoes_load ready (by omega) bounded, rfl⟩

theorem acpiLoad_start (at_ : MappedAt env s table paddr)
    (ready : DmaReady env.kimg env.mems heap s.proc) (fits : count ≤ table.bytes) :
    ∃ s', acpiLoad env table table.vaddr count s = .ok (env.bytesAt paddr count, s') ∧
      AcpiGoes env heap s s' ∧ s'.proc = s.proc := by
  have load := acpiLoad_shows table (at_.shows.part (show 0 + count ≤ table.bytes by omega))
  have goes := acpiGoes_load ready (show 0 + count ≤ table.bytes by omega) at_.bounded
  rw [BitVec.add_zero, BitVec.add_zero] at load
  rw [BitVec.add_zero] at goes
  exact ⟨_, load, goes, rfl⟩

theorem acpiIsSdtHeaderValid_at (at_ : MappedAt env s table paddr)
    (ready : DmaReady env.kimg env.mems heap s.proc) :
    ∃ valid s', acpiIsSdtHeaderValid env table s = .ok (valid, s') ∧ AcpiGoes env heap s s' ∧
      s'.proc = s.proc := by
  unfold acpiIsSdtHeaderValid
  split
  · exact ⟨false, s, rfl, acpiGoes_refl ready, rfl⟩
  · obtain ⟨s1, loaded, goes1, same1⟩ := acpiLoadLen_at at_.shows at_.page at_.bounded ready
    obtain ⟨s2, summed, goes2, same2⟩ := acpiLoad_start (at_.same same1) goes1.ready at_.len
    exact ⟨_, s2, Exec.bind_ok.mpr ⟨_, loaded, Exec.bind_ok.mpr ⟨_, summed, rfl⟩⟩,
      goes1.trans goes2, same2.trans same1⟩

theorem acpiRegisterTable_at (memory : Bool) (at_ : MappedAt env s table paddr)
    (ready : DmaReady env.kimg env.mems heap s.proc) :
    ∃ st s', acpiRegisterTable env memory table s = .ok (st, s') ∧ AcpiGoes env heap s s' := by
  have page := at_.page
  obtain ⟨s1, loaded, goes, -⟩ := acpiLoad_start at_ ready (show 4 ≤ table.bytes by omega)
  have after : ∀ tables, AcpiGoes env heap s { s1 with tables := tables } :=
    fun tables => ⟨goes.ready, goes.stays, goes.reads, goes.entries⟩
  unfold acpiRegisterTable
  rw [loaded]
  dsimp only [Exec.ok_bind]
  cases acpiTableType (env.bytesAt paddr 4) with
  | none => exact ⟨-22, s1, rfl, goes⟩
  | some type =>
    dsimp only
    split
    · exact ⟨-12, s1, rfl, goes⟩
    · exact ⟨0, _, rfl, after _⟩

end Loads

section Maps

variable {env : AcpiEnv} {heap : Heap} {s s' : AcpiState} {paddr : Ptr} {n : BitVec 32}

theorem acpiMap_ok {result : Except Int MappedTable} :
    acpiMap env paddr n s = .ok (result, s') ↔ ∃ res proc,
      dmaMapRange (dmaMapPage env.kimg env.mems) paddr n (4 ||| pageW) env.bitmapMemory s.proc =
          .ok (res, proc) ∧
        result = res.map (fun vaddr => ⟨vaddr, (dmaPages n).toNat * pageSize⟩) ∧
        s' = { s with proc := proc } := by
  unfold acpiMap
  rw [Exec.bind_ok]
  constructor
  · rintro ⟨⟨res, proc⟩, call, rest⟩
    cases rest
    exact ⟨res, proc, call, rfl, rfl⟩
  · rintro ⟨res, proc, call, rfl, rfl⟩
    exact ⟨(res, proc), call, rfl⟩

theorem acpiMap_returns_iff (ready : DmaReady env.kimg env.mems heap s.proc) :
    (∃ r, acpiMap env paddr n s = .ok r) ↔ MapMeets env.bitmapMemory s.proc paddr n := by
  rw [← @dmaMapRange_returns_iff env.kimg env.mems heap s.proc paddr n (4 ||| pageW)
    env.bitmapMemory ready.sized]
  constructor
  · rintro ⟨⟨result, s'⟩, call⟩
    obtain ⟨res, proc, mapped, -⟩ := acpiMap_ok.mp call
    exact ⟨_, mapped⟩
  · rintro ⟨⟨res, proc⟩, mapped⟩
    exact ⟨_, acpiMap_ok.mpr ⟨res, proc, mapped, rfl, rfl⟩⟩

theorem acpiMap_goes (aligned : PageAligned heap.vaddr)
    (ready : DmaReady env.kimg env.mems heap s.proc) {result : Except Int MappedTable}
    (call : acpiMap env paddr n s = .ok (result, s')) :
    AcpiGoes env heap s s' ∧ ∀ table, result = .ok table →
      1 ≤ (dmaPages n).toNat ∧ table.bytes = (dmaPages n).toNat * pageSize ∧
        Shows env.kimg s'.proc.pagingStruct.toPagingState table.vaddr paddr table.bytes := by
  obtain ⟨res, proc, mapped, rfl, rfl⟩ := acpiMap_ok.mp call
  obtain ⟨ready', stays, shows⟩ := dmaMapRange_shows aligned ready mapped
  refine ⟨⟨ready', stays, fun _ => .inl, fun _ => .inl⟩, fun table same => ?_⟩
  cases res with
  | error st => cases same
  | ok vaddr =>
    cases same
    obtain ⟨-, positive, here⟩ := shows vaddr rfl
    exact ⟨positive, rfl, here⟩

/-- A single page always finds a run that can be marked. -/
theorem mapMeets_page {memory : Bool} {proc : DmaProc DmaPaging} :
    MapMeets memory proc paddr 4096 ↔ PageAligned paddr := by
  refine ⟨And.left, fun aligned => ⟨aligned, fun bm start _ run => ?_⟩⟩
  have one : (dmaPages 4096).toNat = 1 := by decide
  rw [one] at run ⊢
  have inside := run.1.2.1
  have bits : 1 ≤ 8 - start % 8 := by omega
  have bytes : 1 ≤ bm.size - start / 8 := by omega
  exact Nat.mul_le_mul bits bytes

/-- Once the header is mapped its length is known, and decides about the second mapping. -/
theorem acpiMapTable_header (aligned : PageAligned heap.vaddr)
    (ready : DmaReady env.kimg env.mems heap s.proc) {hdr : MappedTable} {s1 : AcpiState}
    (mapped : acpiMap env paddr 4096 s = .ok (.ok hdr, s1)) :
    ∃ s2, s2.proc = s1.proc ∧ AcpiGoes env heap s s2 ∧ hdr.bytes = 4096 ∧
      Shows env.kimg s2.proc.pagingStruct.toPagingState hdr.vaddr paddr hdr.bytes ∧
      acpiMapTable env paddr s =
        if 4096 < env.longAt (paddr + 4) then acpiMap env paddr (env.longAt (paddr + 4)) s2
        else .ok (.ok hdr, s2) := by
  obtain ⟨goes1, made⟩ := acpiMap_goes aligned ready mapped
  obtain ⟨-, bytes, shows⟩ := made hdr rfl
  have one : (dmaPages 4096).toNat * pageSize = 4096 := by decide
  rw [one] at bytes
  obtain ⟨s2, loaded, goes2, same⟩ :=
    acpiLoadLen_at shows (by omega) (by omega) goes1.ready
  refine ⟨s2, same, goes1.trans goes2, bytes, by rw [same]; exact shows, ?_⟩
  unfold acpiMapTable
  rw [mapped]
  dsimp only [Exec.ok_bind]
  rw [loaded]
  rfl

theorem acpiMapTable_ok (aligned : PageAligned heap.vaddr)
    (ready : DmaReady env.kimg env.mems heap s.proc) {result : Except Int MappedTable}
    (call : acpiMapTable env paddr s = .ok (result, s')) :
    AcpiGoes env heap s s' ∧ ∀ table, result = .ok table → MappedAt env s' table paddr := by
  obtain ⟨⟨res, s1⟩, mapped, rest⟩ := Exec.bind_ok.mp call
  cases res with
  | error st =>
    cases rest
    exact ⟨(acpiMap_goes aligned ready mapped).1, nofun⟩
  | ok hdr =>
    obtain ⟨s2, -, goes, bytes, shows, second⟩ := acpiMapTable_header aligned ready mapped
    rw [second] at call
    split at call
    · rename_i large
      obtain ⟨goes2, made⟩ := acpiMap_goes aligned goes.ready call
      refine ⟨goes.trans goes2, fun table same => ?_⟩
      obtain ⟨positive, size, shows2⟩ := made table same
      have covers := dmaPages_covers positive
      have few := dmaPages_lt (env.longAt (paddr + 4))
      rw [← size] at covers
      unfold pageSize at size
      exact ⟨shows2, covers, by omega, by omega⟩
    · rename_i small
      cases call
      refine ⟨goes, fun table same => ?_⟩
      cases same
      have page : (4096 : BitVec 32).toNat = 4096 := rfl
      have fits := BitVec.le_def.mp (BitVec.not_lt.mp small)
      exact ⟨shows, by omega, by omega, by omega⟩

theorem acpiMapTable_returns_iff (aligned : PageAligned heap.vaddr)
    (ready : DmaReady env.kimg env.mems heap s.proc) :
    (∃ r, acpiMapTable env paddr s = .ok r) ↔ TableMeets env paddr s := by
  have first := @acpiMap_returns_iff env heap s paddr 4096 ready
  rw [mapMeets_page] at first
  constructor
  · rintro ⟨r, call⟩
    obtain ⟨⟨res, s1⟩, mapped, -⟩ := Exec.bind_ok.mp call
    refine ⟨first.mp ⟨_, mapped⟩, fun hdr s1 mapped large => ?_⟩
    obtain ⟨s2, same, goes, -, -, second⟩ := acpiMapTable_header aligned ready mapped
    rw [second, if_pos large] at call
    rw [← same]
    exact (acpiMap_returns_iff goes.ready).mp ⟨r, call⟩
  · rintro ⟨frames, again⟩
    obtain ⟨⟨res, s1⟩, mapped⟩ := first.mpr frames
    cases res with
    | error st => exact ⟨(.error st, s1), Exec.bind_ok.mpr ⟨_, mapped, rfl⟩⟩
    | ok hdr =>
      obtain ⟨s2, same, goes, -, -, second⟩ := acpiMapTable_header aligned ready mapped
      rw [second]
      split
      · rename_i large
        have meets := again hdr s1 mapped large
        rw [← same] at meets
        exact (acpiMap_returns_iff goes.ready).mpr meets
      · exact ⟨_, rfl⟩

end Maps

section Log

variable {env : AcpiEnv} {s s' : AcpiState}

theorem acpiLoad_entries {table : MappedTable} {addr : Ptr} {count : Nat} {bytes : List Byte}
    (call : acpiLoad env table addr count s = .ok (bytes, s')) : s'.entryReads = s.entryReads := by
  unfold acpiLoad at call
  dsimp only at call
  split at call
  · cases call
  · cases call
    rfl

theorem acpiLoadLong_entries {table : MappedTable} {addr : Ptr} {value : BitVec 32}
    (call : acpiLoadLong env table addr s = .ok (value, s')) : s'.entryReads = s.entryReads := by
  obtain ⟨⟨bytes, s1⟩, load, rest⟩ := Exec.bind_ok.mp call
  cases rest
  exact acpiLoad_entries load

theorem acpiIsSdtHeaderValid_entries {header : MappedTable} {valid : Bool}
    (call : acpiIsSdtHeaderValid env header s = .ok (valid, s')) :
    s'.entryReads = s.entryReads := by
  unfold acpiIsSdtHeaderValid at call
  split at call
  · cases call
    rfl
  · obtain ⟨⟨len, s1⟩, first, rest⟩ := Exec.bind_ok.mp call
    obtain ⟨⟨bytes, s2⟩, second, last⟩ := Exec.bind_ok.mp rest
    cases last
    exact (acpiLoad_entries second).trans (acpiLoadLong_entries first)

theorem acpiRegisterTable_entries {memory : Bool} {hdr : MappedTable} {st : Int}
    (call : acpiRegisterTable env memory hdr s = .ok (st, s')) : s'.entryReads = s.entryReads := by
  obtain ⟨⟨signature, s1⟩, load, rest⟩ := Exec.bind_ok.mp call
  have same := acpiLoad_entries load
  dsimp only at rest
  split at rest
  · cases rest
    exact same
  · split at rest <;> cases rest <;> exact same

theorem acpiMap_entries {paddr : Ptr} {n : BitVec 32} {result : Except Int MappedTable}
    (call : acpiMap env paddr n s = .ok (result, s')) : s'.entryReads = s.entryReads := by
  obtain ⟨res, proc, -, -, rfl⟩ := acpiMap_ok.mp call
  rfl

theorem acpiMapTable_entries {paddr : Ptr} {result : Except Int MappedTable}
    (call : acpiMapTable env paddr s = .ok (result, s')) : s'.entryReads = s.entryReads := by
  obtain ⟨⟨res, s1⟩, mapped, rest⟩ := Exec.bind_ok.mp call
  have first := acpiMap_entries mapped
  cases res with
  | error st =>
    cases rest
    exact first
  | ok hdr =>
    obtain ⟨⟨len, s2⟩, load, last⟩ := Exec.bind_ok.mp rest
    have second := acpiLoadLong_entries load
    dsimp only at last
    split at last
    · exact ((acpiMap_entries last).trans second).trans first
    · cases last
      exact second.trans first

/-- A turn reads one entry, at the offset of its number. -/
theorem acpiEnumerateTurn_entries {rsdt : MappedTable} {len : BitVec 32} {i : Nat}
    {stop : Option Int} (call : acpiEnumerateTurn env rsdt len i s = .ok (stop, s')) :
    s'.entryReads = s.entryReads ++ [⟨len, 36 + 4 * i⟩] := by
  obtain ⟨⟨hdrPaddr, s1⟩, load, rest⟩ := Exec.bind_ok.mp call
  obtain ⟨⟨res, s2⟩, mapped, after⟩ := Exec.bind_ok.mp rest
  have read : s2.entryReads = s.entryReads ++ [⟨len, 36 + 4 * i⟩] := by
    rw [acpiMapTable_entries mapped, ← acpiLoadLong_entries load]
  cases res with
  | error st =>
    cases after
    exact read
  | ok hdr =>
    obtain ⟨⟨valid, s3⟩, check, last⟩ := Exec.bind_ok.mp after
    have same := (acpiIsSdtHeaderValid_entries check).trans read
    cases valid with
    | false =>
      cases last
      exact same
    | true =>
      obtain ⟨⟨st, s4⟩, register, done⟩ := Exec.bind_ok.mp last
      cases done
      exact (acpiRegisterTable_entries register).trans same

theorem acpiEnumerateLoop_entries {rsdt : MappedTable} {len : BitVec 32} {left i : Nat} {st : Int}
    (call : acpiEnumerateLoop env rsdt len left i s = .ok (st, s')) :
    s.entryReads ⊆ s'.entryReads := by
  induction left generalizing i s with
  | zero =>
    cases call
    exact List.Subset.refl _
  | succ left ih =>
    obtain ⟨⟨stop, s1⟩, turn, rest⟩ := Exec.bind_ok.mp call
    have kept : s.entryReads ⊆ s1.entryReads := by
      rw [acpiEnumerateTurn_entries turn]
      exact List.subset_append_left _ _
    cases stop with
    | some st =>
      cases rest
      exact kept
    | none => exact List.Subset.trans kept (ih rest)

/-- Once there is an entry to read, the first one is read. -/
theorem acpiEnumerateLoop_first {rsdt : MappedTable} {len : BitVec 32} {left i : Nat} {st : Int}
    (call : acpiEnumerateLoop env rsdt len (left + 1) i s = .ok (st, s')) :
    ⟨len, 36 + 4 * i⟩ ∈ s'.entryReads := by
  obtain ⟨⟨stop, s1⟩, turn, rest⟩ := Exec.bind_ok.mp call
  have read : ⟨len, 36 + 4 * i⟩ ∈ s1.entryReads := by
    rw [acpiEnumerateTurn_entries turn]
    exact List.mem_append_right _ (List.mem_singleton_self _)
  cases stop with
  | some st =>
    cases rest
    exact read
  | none => exact acpiEnumerateLoop_entries rest read

end Log

/-- The RSDT is mapped, and the entries up to its length with it. -/
structure RsdtAt (env : AcpiEnv) (s : AcpiState) (rsdt : MappedTable) (len : BitVec 32) : Prop where
  here : ∀ k < rsdt.bytes,
    (translate env.kimg s.proc.pagingStruct.toPagingState (rsdt.vaddr + BitVec.ofNat 32 k)).isSome
  inside : len.toNat ≤ rsdt.bytes
  bounded : rsdt.bytes < 2 ^ 32

section Entries

variable {env : AcpiEnv} {heap : Heap} {s s' : AcpiState} {rsdt : MappedTable} {len : BitVec 32}
  {i : Nat}

theorem MappedAt.entries {paddr : Ptr} (at_ : MappedAt env s rsdt paddr) :
    RsdtAt env s rsdt (env.longAt (paddr + 4)) := by
  refine ⟨fun k inside => ?_, at_.len, at_.bounded⟩
  rw [at_.shows k inside]
  rfl

theorem RsdtAt.goes (at_ : RsdtAt env s rsdt len) (goes : AcpiGoes env heap s s') :
    RsdtAt env s' rsdt len :=
  ⟨fun k inside => goes.stays _ (at_.here k inside), at_.inside, at_.bounded⟩

theorem tableMeets_congr {paddr : Ptr} (same : s'.proc = s.proc) (meets : TableMeets env paddr s) :
    TableMeets env paddr s' := by
  refine ⟨meets.1, fun hdr s1 mapped large => ?_⟩
  obtain ⟨res, proc, call, value, rfl⟩ := acpiMap_ok.mp mapped
  rw [same] at call
  exact meets.2 hdr { s with proc := proc } (acpiMap_ok.mpr ⟨res, proc, call, value, rfl⟩) large

theorem acpiLoadEntry_at (ready : DmaReady env.kimg env.mems heap s.proc)
    (at_ : RsdtAt env s rsdt len) (entry : 36 + 4 * i + 4 ≤ len.toNat) :
    ∃ hdrPaddr s', acpiLoadLong env rsdt (rsdt.vaddr + BitVec.ofNat 32 (36 + 4 * i)) s =
        .ok (hdrPaddr, s') ∧ s'.proc = s.proc ∧
      AcpiGoes env heap s { s' with entryReads := s'.entryReads ++ [⟨len, 36 + 4 * i⟩] } := by
  have fits := at_.inside
  have mapped : ∀ k < 4, (translate env.kimg s.proc.pagingStruct.toPagingState
      (rsdt.vaddr + BitVec.ofNat 32 (36 + 4 * i) + BitVec.ofNat 32 k)).isSome := by
    intro k small
    rw [BitVec.add_assoc, ← BitVec.ofNat_add]
    exact at_.here (36 + 4 * i + k) (by omega)
  obtain ⟨bytes, load⟩ := acpiLoad_mapped rsdt mapped
  have goes := acpiGoes_load ready (by omega : 36 + 4 * i + 4 ≤ rsdt.bytes) at_.bounded
  refine ⟨_, _, Exec.bind_ok.mpr ⟨_, load, rfl⟩, rfl, goes.ready, goes.stays, goes.reads, ?_⟩
  intro read member
  rcases List.mem_append.mp member with before | new
  · exact .inl before
  · rw [List.mem_singleton.mp new]
    exact .inr entry

/-- Once its table is mapped, or failed to be, the turn ends well. -/
theorem acpiEnumerateTurn_mapped (aligned : PageAligned heap.vaddr) {hdrPaddr : Ptr}
    {s1 s2 : AcpiState} {res : Except Int MappedTable}
    (load : acpiLoadLong env rsdt (rsdt.vaddr + BitVec.ofNat 32 (36 + 4 * i)) s = .ok (hdrPaddr, s1))
    (goes : AcpiGoes env heap s { s1 with entryReads := s1.entryReads ++ [⟨len, 36 + 4 * i⟩] })
    (mapped : acpiMapTable env hdrPaddr
      { s1 with entryReads := s1.entryReads ++ [⟨len, 36 + 4 * i⟩] } = .ok (res, s2)) :
    ∃ stop s', acpiEnumerateTurn env rsdt len i s = .ok (stop, s') ∧ AcpiGoes env heap s s' := by
  obtain ⟨goes2, made⟩ := acpiMapTable_ok aligned goes.ready mapped
  have until_ := goes.trans goes2
  unfold acpiEnumerateTurn
  dsimp only
  rw [load]
  dsimp only [Exec.ok_bind]
  rw [mapped]
  dsimp only [Exec.ok_bind]
  cases res with
  | error st => exact ⟨some st, s2, rfl, until_⟩
  | ok hdr =>
    have at2 := made hdr rfl
    obtain ⟨valid, s3, check, goes3, same⟩ := acpiIsSdtHeaderValid_at at2 goes2.ready
    dsimp only
    rw [check]
    dsimp only [Exec.ok_bind]
    cases valid with
    | false => exact ⟨none, s3, rfl, until_.trans goes3⟩
    | true =>
      obtain ⟨st, s4, register, goes4⟩ :=
        acpiRegisterTable_at (env.tableMemory i) (at2.same same) goes3.ready
      exact ⟨none, s4, Exec.bind_ok.mpr ⟨_, register, rfl⟩, (until_.trans goes3).trans goes4⟩

/-- A turn returns exactly if its entry meets the condition, and then its reads are safe. -/
theorem acpiEnumerateTurn_at (aligned : PageAligned heap.vaddr)
    (ready : DmaReady env.kimg env.mems heap s.proc) (at_ : RsdtAt env s rsdt len)
    (entry : 36 + 4 * i + 4 ≤ len.toNat) :
    ((∃ r, acpiEnumerateTurn env rsdt len i s = .ok r) ↔ EntryMeets env rsdt i s) ∧
      ∀ stop s', acpiEnumerateTurn env rsdt len i s = .ok (stop, s') → AcpiGoes env heap s s' := by
  obtain ⟨hdrPaddr, s1, load, same, goes⟩ := acpiLoadEntry_at ready at_ entry
  have returns := @acpiMapTable_returns_iff env heap
    { s1 with entryReads := s1.entryReads ++ [⟨len, 36 + 4 * i⟩] } hdrPaddr aligned goes.ready
  have maps : ∀ {r}, acpiEnumerateTurn env rsdt len i s = .ok r → ∃ m, acpiMapTable env hdrPaddr
      { s1 with entryReads := s1.entryReads ++ [⟨len, 36 + 4 * i⟩] } = .ok m := by
    intro r turn
    obtain ⟨first, load', rest⟩ := Exec.bind_ok.mp turn
    cases load.symm.trans load'
    obtain ⟨m, mapped, -⟩ := Exec.bind_ok.mp rest
    exact ⟨m, mapped⟩
  constructor
  · constructor
    · rintro ⟨r, turn⟩ paddr s' load'
      cases load.symm.trans load'
      exact tableMeets_congr (by rfl) (returns.mp (maps turn))
    · intro meets
      obtain ⟨⟨res, s2⟩, mapped⟩ := returns.mpr (tableMeets_congr (by rfl) (meets hdrPaddr s1 load))
      obtain ⟨stop, s', turn, -⟩ := acpiEnumerateTurn_mapped aligned load goes mapped
      exact ⟨_, turn⟩
  · intro stop s' turn
    obtain ⟨⟨res, s2⟩, mapped⟩ := maps turn
    obtain ⟨stop', s'', turn', goes'⟩ := acpiEnumerateTurn_mapped aligned load goes mapped
    cases turn.symm.trans turn'
    exact goes'

theorem acpiEnumerateLoop_at {left : Nat} (aligned : PageAligned heap.vaddr)
    (ready : DmaReady env.kimg env.mems heap s.proc) (at_ : RsdtAt env s rsdt len)
    (entries : 36 + 4 * (i + left) ≤ len.toNat) :
    ((∃ r, acpiEnumerateLoop env rsdt len left i s = .ok r) ↔ LoopMeets env rsdt len left i s) ∧
      ∀ st s', acpiEnumerateLoop env rsdt len left i s = .ok (st, s') → AcpiGoes env heap s s' := by
  induction left generalizing i s with
  | zero =>
    refine ⟨iff_of_true ⟨_, rfl⟩ trivial, fun st s' call => ?_⟩
    cases call
    exact acpiGoes_refl ready
  | succ left ih =>
    have turn := @acpiEnumerateTurn_at env heap s rsdt len i aligned ready at_ (by omega)
    have later : ∀ s1, acpiEnumerateTurn env rsdt len i s = .ok (none, s1) →
        ((∃ r, acpiEnumerateLoop env rsdt len left (i + 1) s1 = .ok r) ↔
          LoopMeets env rsdt len left (i + 1) s1) ∧
        ∀ st s', acpiEnumerateLoop env rsdt len left (i + 1) s1 = .ok (st, s') →
          AcpiGoes env heap s1 s' :=
      fun s1 here => ih (turn.2 none s1 here).ready (at_.goes (turn.2 none s1 here)) (by omega)
    refine ⟨⟨?_, ?_⟩, ?_⟩
    · rintro ⟨r, call⟩
      obtain ⟨⟨stop, s1⟩, here, rest⟩ := Exec.bind_ok.mp call
      refine ⟨turn.1.mp ⟨_, here⟩, fun s2 again => ?_⟩
      cases here.symm.trans again
      exact (later s1 here).1.mp ⟨r, rest⟩
    · rintro ⟨entry, meets⟩
      obtain ⟨⟨stop, s1⟩, here⟩ := turn.1.mpr entry
      cases stop with
      | some st => exact ⟨(st, s1), Exec.bind_ok.mpr ⟨_, here, rfl⟩⟩
      | none =>
        obtain ⟨r, rest⟩ := (later s1 here).1.mpr (meets s1 here)
        exact ⟨r, Exec.bind_ok.mpr ⟨_, here, rest⟩⟩
    · intro st s' call
      obtain ⟨⟨stop, s1⟩, here, rest⟩ := Exec.bind_ok.mp call
      have goes := turn.2 stop s1 here
      cases stop with
      | some st =>
        cases rest
        exact goes
      | none => exact goes.trans ((later s1 here).2 st s' rest)

end Entries

section Init

variable {env : AcpiEnv} {heap : Heap} {s s1 : AcpiState} {rsdt : MappedTable} {paddr : Ptr}

theorem rsdtTables_toNat (len : BitVec 32) :
    ((len - 36) / 4).toNat = (2 ^ 32 - 36 + len.toNat) % 2 ^ 32 / 4 := by
  rw [BitVec.toNat_udiv, BitVec.toNat_sub]
  rfl

/-- An RSDT that is shorter than its header still has an entry. -/
theorem rsdtTables_short {len : BitVec 32} (short : ¬36 ≤ len) :
    ∃ left, ((len - 36) / 4).toNat = left + 1 := by
  have small := BitVec.lt_def.mp (BitVec.not_le.mp short)
  have header : (36 : BitVec 32).toNat = 36 := rfl
  refine Nat.exists_eq_add_one.mpr ?_
  rw [rsdtTables_toNat]
  omega

theorem rsdtTables_inside {len : BitVec 32} (header : 36 ≤ len) :
    36 + 4 * (0 + ((len - 36) / 4).toNat) ≤ len.toNat := by
  have large := BitVec.le_def.mp header
  have bound := len.isLt
  have header : (36 : BitVec 32).toNat = 36 := rfl
  rw [rsdtTables_toNat]
  omega

theorem acpiRsdt_mapped (aligned : PageAligned heap.vaddr)
    (ready : DmaReady env.kimg env.mems heap s.proc)
    (mapped : acpiMapTable env paddr s = .ok (.ok rsdt, s1)) :
    ∃ valid s2 s3, acpiIsSdtHeaderValid env rsdt s1 = .ok (valid, s2) ∧
      acpiLoadLen env rsdt s2 = .ok (env.longAt (paddr + 4), s3) ∧ AcpiGoes env heap s s2 ∧
      AcpiGoes env heap s s3 ∧ MappedAt env s3 rsdt paddr := by
  obtain ⟨goes1, made⟩ := acpiMapTable_ok aligned ready mapped
  have at1 := made rsdt rfl
  obtain ⟨valid, s2, check, goes2, same2⟩ := acpiIsSdtHeaderValid_at at1 goes1.ready
  have at2 := at1.same same2
  obtain ⟨s3, load, goes3, same3⟩ := acpiLoadLen_at at2.shows at2.page at2.bounded goes2.ready
  have until_ := goes1.trans goes2
  exact ⟨valid, s2, s3, check, load, until_, until_.trans goes3, at2.same same3⟩

/-- An RSDT whose entries are all read within its length holds its header. -/
theorem acpiEnumerateLoop_header {len : BitVec 32} {st : Int} {s' : AcpiState}
    (loop : acpiEnumerateLoop env rsdt len ((len - 36) / 4).toNat 0 s = .ok (st, s'))
    (safe : AcpiSafe s') : 36 ≤ len := by
  by_contra short
  obtain ⟨left, entries⟩ := rsdtTables_short short
  rw [entries] at loop
  have inside := safe.entries _ (acpiEnumerateLoop_first loop)
  have small := BitVec.lt_def.mp (BitVec.not_le.mp short)
  have header : (36 : BitVec 32).toNat = 36 := rfl
  dsimp only at inside
  omega

theorem acpiInitMeets_of_right (aligned : PageAligned heap.vaddr)
    (ready : DmaReady env.kimg env.mems heap s.proc) (right : AcpiInitRight env s) :
    AcpiInitMeets env s := by
  intro rsdp found
  obtain ⟨st, s', call, safe⟩ := right
  unfold acpiInitRsdt at call
  rw [found] at call
  obtain ⟨m, here, rest⟩ := Exec.bind_ok.mp call
  refine ⟨(acpiMapTable_returns_iff aligned ready).mp ⟨m, here⟩,
    fun rsdt s1 s2 s3 mapped check load => ?_⟩
  cases mapped.symm.trans here
  obtain ⟨valid, s2', s3', check', load', -, goes, at3⟩ := acpiRsdt_mapped aligned ready mapped
  cases check.symm.trans check'
  cases load.symm.trans load'
  -- the loop over the entries was reached
  obtain ⟨r, checked, enumerated⟩ := Exec.bind_ok.mp rest
  cases check.symm.trans checked
  obtain ⟨r, loaded, loop⟩ := Exec.bind_ok.mp enumerated
  cases load.symm.trans loaded
  have header := acpiEnumerateLoop_header loop safe
  have whole := acpiEnumerateLoop_at aligned goes.ready at3.entries (rsdtTables_inside header)
  exact ⟨header, whole.1.mp ⟨_, loop⟩⟩

theorem acpiInitRight_of_meets (aligned : PageAligned heap.vaddr)
    (ready : DmaReady env.kimg env.mems heap s.proc) (safe : AcpiSafe s)
    (meets : AcpiInitMeets env s) : AcpiInitRight env s := by
  unfold AcpiInitRight acpiInitRsdt
  cases found : (acpiFindRsdp env).filter (acpiIsRsdpValid env) with
  | none => exact ⟨-22, s, rfl, safe⟩
  | some rsdp =>
    obtain ⟨table, entries⟩ := meets rsdp found
    obtain ⟨⟨res, s1⟩, mapped⟩ := (acpiMapTable_returns_iff aligned ready).mpr table
    cases res with
    | error st =>
      have goes := (acpiMapTable_ok aligned ready mapped).1
      exact ⟨st, s1, Exec.bind_ok.mpr ⟨_, mapped, rfl⟩, goes.safe safe⟩
    | ok rsdt =>
      obtain ⟨valid, s2, s3, check, load, goes2, goes3, at3⟩ := acpiRsdt_mapped aligned ready mapped
      cases valid with
      | false =>
        exact ⟨-22, s2, Exec.bind_ok.mpr ⟨_, mapped, Exec.bind_ok.mpr ⟨_, check, rfl⟩⟩,
          goes2.safe safe⟩
      | true =>
        obtain ⟨header, loop⟩ := entries rsdt s1 s2 s3 mapped check load
        have whole := acpiEnumerateLoop_at aligned goes3.ready at3.entries (rsdtTables_inside header)
        obtain ⟨⟨st, s'⟩, enumerated⟩ := whole.1.mpr loop
        exact ⟨st, s', Exec.bind_ok.mpr ⟨_, mapped, Exec.bind_ok.mpr ⟨_, check,
          Exec.bind_ok.mpr ⟨_, load, enumerated⟩⟩⟩,
          (goes3.trans (whole.2 st s' enumerated)).safe safe⟩

/-- The call returns without a page fault or a failed assertion, and reads the tables within their
    mappings and the entries within the length of the RSDT, exactly under its condition. -/
theorem acpi_init_rsdt_right_iff (aligned : PageAligned heap.vaddr)
    (ready : DmaReady env.kimg env.mems heap s.proc) (safe : AcpiSafe s) :
    AcpiInitRight env s ↔ AcpiInitMeets env s :=
  ⟨acpiInitMeets_of_right aligned ready, acpiInitRight_of_meets aligned ready safe⟩

/-- A table of at most a page needs no more than its alignment. -/
theorem tableMeets_page (frames : PageAligned paddr) (small : env.longAt (paddr + 4) ≤ 4096) :
    TableMeets env paddr s :=
  ⟨frames, fun _ _ _ large => absurd large (BitVec.not_lt.mpr small)⟩

theorem acpiLoadLong_at {value : BitVec 32} {offset : Nat} (at_ : MappedAt env s rsdt paddr)
    (fits : offset + 4 ≤ rsdt.bytes)
    (load : acpiLoadLong env rsdt (rsdt.vaddr + BitVec.ofNat 32 offset) s = .ok (value, s1)) :
    value = env.longAt (paddr + BitVec.ofNat 32 offset) ∧ s1.proc = s.proc := by
  have here := acpiLoad_shows rsdt (at_.shows.part fits)
  cases load.symm.trans (Exec.bind_ok.mpr ⟨_, here, rfl⟩)
  exact ⟨rfl, rfl⟩

end Init

/-- Ranges of memory with zeros between them. -/
def memoryOf (ranges : List (Ptr × List Byte)) (x : Ptr) : Byte :=
  match ranges.find? fun range => (x - range.1).toNat < range.2.length with
  | some range => range.2.getD (x - range.1).toNat 0
  | none => 0

/-- An RSDP in the EBDA for an RSDT at 0x5000 or a few bytes later. The RSDT at 0x5000 gives the
    length `len`, and its first entry is an HPET table at 0x6000. -/
def hpetMemory (later len : Byte) : Ptr → Byte :=
  memoryOf [(0x40E, [0xC0, 0x9F]),
    (0x9FC00, rsdpSignature ++ [0x91 - later, 0, 0, 0, 0, 0, 0, 0, later, 0x50, 0, 0]),
    (0x5000, [0x52, 0x53, 0x44, 0x54, len, 0, 0, 0, 0, 0x3B] ++ List.replicate 26 0 ++
      [0, 0x60, 0, 0]),
    (0x6000, [0x48, 0x50, 0x45, 0x54, 36, 0, 0, 0, 0, 0xAB])]

def hpetEnv (later len : Byte) : AcpiEnv where
  kimg := ⟨0xc0000000⟩
  phys := hpetMemory later len
  mems n := if n = 0 then ⟨some 0xe0001000, some 0xe0002000⟩ else ⟨none, none⟩
  bitmapMemory := true
  tableMemory _ := true

/-- The heap of the process of the kernel has 24 pages. -/
def bootAcpi : AcpiState :=
  ⟨{ freshDmaProc with dmaHeap := heapOf24 }, [], [], []⟩

theorem bootAcpi_ready : DmaReady (hpetEnv 0 40).kimg (hpetEnv 0 40).mems bootAcpi.proc.dmaHeap
    bootAcpi.proc := by
  refine ⟨⟨rfl, nofun⟩, walkInv_init _ _, MapMem.Fresh.supply ⟨?_, ?_, ?_⟩⟩
  · rintro b ⟨⟩
    exact ⟨⟨by decide, by decide⟩, List.not_mem_nil⟩
  · rintro b ⟨⟩
    exact ⟨⟨by decide, by decide⟩, List.not_mem_nil⟩
  · rintro b ⟨⟩
    decide

theorem hpet_meets : AcpiInitMeets (hpetEnv 0 40) bootAcpi := by
  intro rsdp found
  have there : (acpiFindRsdp (hpetEnv 0 40)).filter (acpiIsRsdpValid (hpetEnv 0 40)) =
      some 0x9FC00 := by decide
  have base : rsdtBase (hpetEnv 0 40) 0x9FC00 = 0x5000 := by decide
  have length : (hpetEnv 0 40).longAt 0x5004 = 40 := by decide
  have entry : (hpetEnv 0 40).longAt 0x5024 = 0x6000 := by decide
  have aligned : PageAligned bootAcpi.proc.dmaHeap.vaddr := by decide
  cases there.symm.trans found
  rw [base]
  refine ⟨tableMeets_page (by decide) (by decide), fun rsdt s1 s2 s3 mapped check load => ?_⟩
  obtain ⟨valid, s2', s3', check', load', -, -, at3⟩ :=
    acpiRsdt_mapped aligned bootAcpi_ready mapped
  cases check.symm.trans check'
  cases load.symm.trans load'
  have page := at3.page
  have small : (hpetEnv 0 40).longAt (0x5000 + 4) = 40 := length
  rw [small]
  refine ⟨by decide, fun hdrPaddr s' read => ?_, fun _ _ => trivial⟩
  obtain ⟨value, -⟩ := acpiLoadLong_at at3 (by omega) read
  rw [value.trans entry]
  exact tableMeets_page (by decide) (by decide)

/-- The HPET table is found. -/
theorem acpi_init_rsdt_right_hpet : AcpiInitRight (hpetEnv 0 40) bootAcpi ∧
    (acpiInitRsdt (hpetEnv 0 40) bootAcpi).map (fun r => (r.1, r.2.tables)) =
      .ok (0, [⟨.hpet, 0xf0001000⟩]) :=
  ⟨(acpi_init_rsdt_right_iff (by decide) bootAcpi_ready ⟨nofun, nofun⟩).mpr hpet_meets,
    by decide +kernel⟩

/-- A base that is no multiple of the page size fails the assertion of `dma_map_range`. An RSDT that
    says it has no bytes has the right checksum, and its entries are read all the same. -/
theorem acpi_init_rsdt_panics_or_overreads :
    ¬AcpiInitRight (hpetEnv 4 40) bootAcpi ∧ ¬AcpiInitRight (hpetEnv 0 0) bootAcpi := by
  constructor
  · rintro ⟨st, s', call, -⟩
    have panics : (acpiInitRsdt (hpetEnv 4 40) bootAcpi).map Prod.fst = .error .panic := by
      decide
    rw [call] at panics
    cases panics
  · rintro ⟨st, s', call, safe⟩
    have first : (acpiInitRsdt (hpetEnv 0 0) bootAcpi).map
        (fun r => r.2.entryReads.head?.map fun read => (read.len, read.offset)) =
          .ok (some (0, 36)) := by
      decide +kernel
    rw [call] at first
    obtain ⟨read, head, value⟩ := Option.map_eq_some_iff.mp (Except.ok.inj first)
    obtain ⟨len, offset⟩ := Prod.mk.inj value
    have inside := safe.entries read (List.mem_of_mem_head? head)
    rw [len, offset] at inside
    exact absurd inside (by decide)

end Dxgmx
