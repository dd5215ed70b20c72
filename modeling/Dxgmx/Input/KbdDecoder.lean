import Dxgmx.Input.Ps2kbd
import Dxgmx.Library.Exec

open Library

namespace Dxgmx

/-- The entries of `g_keycode_map`: a scan code and its key. -/
def keycodes : List (Nat × BitVec 8) :=
  [(0x76, 0x01), (0x05, 0x02), (0x06, 0x03), (0x04, 0x04), (0x0C, 0x05), (0x03, 0x06),
   (0x0B, 0x07), (0x83, 0x08), (0x0A, 0x09), (0x01, 0x0A), (0x09, 0x0B), (0x78, 0x0C),
   (0x07, 0x0D), (0x0E, 0x10), (0x16, 0x11), (0x1E, 0x12), (0x26, 0x13), (0x25, 0x14),
   (0x2E, 0x15), (0x36, 0x16), (0x3D, 0x17), (0x3E, 0x18), (0x46, 0x19), (0x45, 0x1A),
   (0x4E, 0x1B), (0x55, 0x1C), (0x66, 0x1D), (0x0D, 0x1F), (0x15, 0x20), (0x1D, 0x21),
   (0x24, 0x22), (0x2D, 0x23), (0x2C, 0x24), (0x35, 0x25), (0x3C, 0x26), (0x43, 0x27),
   (0x44, 0x28), (0x4D, 0x29), (0x54, 0x2A), (0x5B, 0x2B), (0x5D, 0x2C), (0x58, 0x2E),
   (0x1C, 0x2F), (0x1B, 0x30), (0x23, 0x31), (0x2B, 0x32), (0x34, 0x33), (0x33, 0x34),
   (0x3B, 0x35), (0x42, 0x36), (0x4B, 0x37), (0x4C, 0x38), (0x52, 0x39), (0x5A, 0x3A),
   (0x12, 0x3C), (0x1A, 0x3D), (0x22, 0x3E), (0x21, 0x3F), (0x2A, 0x40), (0x32, 0x41),
   (0x31, 0x42), (0x3A, 0x43), (0x41, 0x44), (0x49, 0x45), (0x4A, 0x46), (0x59, 0x47),
   (0x14, 0x4A), (0x11, 0x4C), (0x29, 0x4D), (0x7E, 0x54), (0x77, 0x55), (0x7C, 0x56),
   (0x7B, 0x57), (0x6C, 0x58), (0x75, 0x59), (0x7D, 0x5A), (0x79, 0x5B), (0x6B, 0x5C),
   (0x73, 0x5D), (0x74, 0x5E), (0x69, 0x5F), (0x72, 0x60), (0x7A, 0x61), (0x70, 0x62),
   (0x71, 0x63)]

/-- The entries of `g_special_keycode_map`. -/
def specialKeycodes : List (Nat × BitVec 8) :=
  [(0x1F, 0x4B), (0x11, 0x4E), (0x27, 0x53), (0x2F, 0xFF), (0x14, 0x4F), (0x70, 0xFF),
   (0x6C, 0x3B), (0x7D, 0x1E), (0x71, 0x0F), (0x69, 0x49), (0x7A, 0x2D), (0x75, 0x48),
   (0x6B, 0x50), (0x72, 0x51), (0x74, 0x52), (0x4A, 0x64), (0x5A, 0x65)]

/-- A table goes up to its largest scan code. What has no entry is zero. -/
def keyTable (entries : List (Nat × BitVec 8)) : List (BitVec 8) :=
  (List.range ((entries.map Prod.fst).foldl max 0 + 1)).map fun code => (entries.lookup code).getD 0

def keycodeMap : List (BitVec 8) := keyTable keycodes

def specialKeycodeMap : List (BitVec 8) := keyTable specialKeycodes

/-- What the handler keeps of the bytes so far. -/
structure KbdFlags where
  specialKey : Bool
  releaseModif : Bool
  ongoingSequence : Bool
  sequenceCount : BitVec 8
  deriving DecidableEq, Repr

structure KbdDecoder where
  flags : KbdFlags
  kbd : Ps2kbd

def KbdDecoder.cache (time : Timespec) (action : BitVec 8) (value : BitVec 8) (s : KbdDecoder) :
    KbdDecoder :=
  { s with kbd := ps2kbdCacheEvent ⟨time, action, value.setWidth 32⟩ s.kbd }

def keyTableAt (table : List (BitVec 8)) (data : BitVec 8) : Exec (BitVec 8) :=
  match table[data.toNat]? with
  | none => .error .fault
  | some key => .ok key

/-- A byte inside a sequence. The keys are `KEY_BREAK` and `KEY_SS`. -/
def kbdSequence (time : Timespec) (data : BitVec 8) (s : KbdDecoder) : KbdDecoder :=
  let count := s.flags.sequenceCount + 1
  if count = 8 then
    let s := { s with flags := { s.flags with sequenceCount := 0, ongoingSequence := false } }
    if data = 0x77 then (s.cache time 1 0x66).cache time 2 0x66 else s
  else if count = 6 ∧ data = 0x12 then
    KbdDecoder.cache time 2 0x0E { s with flags := ⟨false, false, false, 0⟩ }
  else if count = 4 ∧ data = 0x7C then
    KbdDecoder.cache time 1 0x0E { s with flags := ⟨false, s.flags.releaseModif, false, 0⟩ }
  else { s with flags := { s.flags with sequenceCount := count } }

/-- The handler for one byte. `0x12` falls through to `0x7C`. -/
def kbdIsr (time : Timespec) (data : BitVec 8) (s : KbdDecoder) : Exec KbdDecoder :=
  if s.flags.ongoingSequence then .ok (kbdSequence time data s)
  else if data = 0xE1 then
    .ok { s with flags := { s.flags with ongoingSequence := true, sequenceCount := 1 } }
  else if data = 0xE0 then .ok { s with flags := { s.flags with specialKey := true } }
  else if data = 0xF0 then .ok { s with flags := { s.flags with releaseModif := true } }
  else if data = 0x12 ∧ s.flags.specialKey then
    .ok { s with flags := { s.flags with ongoingSequence := true, sequenceCount := 2 } }
  else if (data = 0x12 ∨ data = 0x7C) ∧ s.flags.specialKey ∧ s.flags.releaseModif then
    .ok { s with flags := { s.flags with ongoingSequence := true, sequenceCount := 3 } }
  else do
    let key ← keyTableAt (if s.flags.specialKey then specialKeycodeMap else keycodeMap) data
    let s := s.cache time (if s.flags.releaseModif then 2 else 1) key
    pure { s with flags := { s.flags with specialKey := false, releaseModif := false } }

/-- The bytes of a stream one after the other, each with the time it is handled. -/
def kbdRun (s : KbdDecoder) (stream : List (Timespec × BitVec 8)) : Exec KbdDecoder :=
  stream.foldlM (fun s byte => kbdIsr byte.1 byte.2 s) s

/-- What the flags become, whatever the tables hold. -/
def KbdFlags.next (flags : KbdFlags) (data : BitVec 8) : KbdFlags :=
  if flags.ongoingSequence then
    let count := flags.sequenceCount + 1
    if count = 8 then { flags with sequenceCount := 0, ongoingSequence := false }
    else if count = 6 ∧ data = 0x12 then ⟨false, false, false, 0⟩
    else if count = 4 ∧ data = 0x7C then ⟨false, flags.releaseModif, false, 0⟩
    else { flags with sequenceCount := count }
  else if data = 0xE1 then { flags with ongoingSequence := true, sequenceCount := 1 }
  else if data = 0xE0 then { flags with specialKey := true }
  else if data = 0xF0 then { flags with releaseModif := true }
  else if data = 0x12 ∧ flags.specialKey then
    { flags with ongoingSequence := true, sequenceCount := 2 }
  else if (data = 0x12 ∨ data = 0x7C) ∧ flags.specialKey ∧ flags.releaseModif then
    { flags with ongoingSequence := true, sequenceCount := 3 }
  else { flags with specialKey := false, releaseModif := false }

def KbdFlags.after (flags : KbdFlags) (bytes : List (BitVec 8)) : KbdFlags :=
  bytes.foldl KbdFlags.next flags

structure KbdFlags.Idle (flags : KbdFlags) : Prop where
  special : flags.specialKey = false
  release : flags.releaseModif = false
  sequence : flags.ongoingSequence = false

/-- A byte that is taken for a key lies below the end of its table. -/
def KbdFlags.InTable (flags : KbdFlags) (data : BitVec 8) : Prop :=
  flags.ongoingSequence = true ∨ data = 0xE1 ∨ data = 0xE0 ∨ data = 0xF0 ∨
    data.toNat < if flags.specialKey then 0x7E else 0x84

/-- A byte that stands for a key. -/
structure KeyByte (data : BitVec 8) : Prop where
  pause : data ≠ 0xE1
  special : data ≠ 0xE0
  release : data ≠ 0xF0

/-- The make codes and break codes of the keys, with those of Print Screen and Pause. -/
inductive CompleteCode : List (BitVec 8) → Prop
  | make {data : BitVec 8} (key : KeyByte data) : CompleteCode [data]
  | makeSpecial {data : BitVec 8} (key : KeyByte data) (shift : data ≠ 0x12) :
      CompleteCode [0xE0, data]
  | release {data : BitVec 8} (key : KeyByte data) : CompleteCode [0xF0, data]
  | releaseSpecial {data : BitVec 8} (key : KeyByte data) (shift : data ≠ 0x12)
      (asterisk : data ≠ 0x7C) : CompleteCode [0xE0, 0xF0, data]
  | printScreen : CompleteCode [0xE0, 0x12, 0xE0, 0x7C]
  | releasePrintScreen : CompleteCode [0xE0, 0xF0, 0x7C, 0xE0, 0xF0, 0x12]
  | pause : CompleteCode [0xE1, 0x14, 0x77, 0xE1, 0xF0, 0x14, 0xF0, 0x77]

/-- A make code with a shift code before it, or a break code with one behind it. A keyboard sends these
    for the keys behind `0xE0` under Num Lock or with a shift key held. -/
inductive ShiftedCode : List (BitVec 8) → Prop
  | make {data : BitVec 8} (key : KeyByte data) (asterisk : data ≠ 0x7C) :
      ShiftedCode [0xE0, 0x12, 0xE0, data]
  | release {data : BitVec 8} (key : KeyByte data) (shift : data ≠ 0x12) (asterisk : data ≠ 0x7C) :
      ShiftedCode [0xE0, 0xF0, data, 0xE0, 0xF0, 0x12]
  | makeHeld {data : BitVec 8} (key : KeyByte data) (asterisk : data ≠ 0x7C) :
      ShiftedCode [0xE0, 0xF0, 0x12, 0xE0, data]
  | releaseHeld {data : BitVec 8} (key : KeyByte data) (shift : data ≠ 0x12)
      (asterisk : data ≠ 0x7C) : ShiftedCode [0xE0, 0xF0, data, 0xE0, 0x12]

theorem keycodeMap_length : keycodeMap.length = 0x84 ∧ specialKeycodeMap.length = 0x7E := by
  decide +kernel

/-- The ring of the events: the index inside it or at its end, and nothing stored behind it. -/
structure KbdDecoder.RingFrom (start s : KbdDecoder) : Prop where
  idx : s.kbd.cachedEventIdx ≤ 64
  behind : ∀ i, 64 ≤ i → s.kbd.cachedEvents i = start.kbd.cachedEvents i

section Ring

variable {start s : KbdDecoder}

theorem KbdDecoder.RingFrom.cache (ring : KbdDecoder.RingFrom start s) (time : Timespec)
    (action value : BitVec 8) : KbdDecoder.RingFrom start (s.cache time action value) := by
  have idx := ring.idx
  unfold KbdDecoder.cache ps2kbdCacheEvent cachedEventCount
  by_cases full : 64 ≤ s.kbd.cachedEventIdx
  · rw [if_pos full]
    refine ⟨by dsimp only; omega, fun i outside => ?_⟩
    dsimp only
    rw [Function.update_of_ne (by omega), ring.behind i outside]
  · rw [if_neg full]
    refine ⟨by dsimp only; omega, fun i outside => ?_⟩
    dsimp only
    rw [Function.update_of_ne (by omega), ring.behind i outside]

theorem KbdDecoder.RingFrom.flags (ring : KbdDecoder.RingFrom start s) (flags : KbdFlags) :
    KbdDecoder.RingFrom start { s with flags := flags } := ⟨ring.idx, ring.behind⟩

theorem kbdSequence_spec (ring : KbdDecoder.RingFrom start s)
    (ongoing : s.flags.ongoingSequence = true) (time : Timespec) (data : BitVec 8) :
    (kbdSequence time data s).flags = s.flags.next data ∧
      KbdDecoder.RingFrom start (kbdSequence time data s) := by
  unfold kbdSequence KbdFlags.next
  rw [if_pos ongoing]
  dsimp only
  split
  · split
    · exact ⟨rfl, ((ring.flags _).cache _ _ _).cache _ _ _⟩
    · exact ⟨rfl, ring.flags _⟩
  split
  · exact ⟨rfl, (ring.flags _).cache _ _ _⟩
  split
  · exact ⟨rfl, (ring.flags _).cache _ _ _⟩
  · exact ⟨rfl, ring.flags _⟩

/-- A byte that has its place in the tables. -/
theorem kbdIsr_inTable (ring : KbdDecoder.RingFrom start s) (time : Timespec) {data : BitVec 8}
    (inTable : s.flags.InTable data) :
    ∃ s', kbdIsr time data s = .ok s' ∧ s'.flags = s.flags.next data ∧
      KbdDecoder.RingFrom start s' := by
  by_cases ongoing : s.flags.ongoingSequence = true
  · obtain ⟨flags, ring'⟩ := kbdSequence_spec ring ongoing time data
    exact ⟨kbdSequence time data s, if_pos ongoing, flags, ring'⟩
  unfold kbdIsr KbdFlags.next
  rw [if_neg ongoing, if_neg ongoing]
  by_cases pause : data = 0xE1
  · rw [if_pos pause, if_pos pause]
    exact ⟨_, rfl, rfl, ring.flags _⟩
  by_cases special : data = 0xE0
  · rw [if_neg pause, if_neg pause, if_pos special, if_pos special]
    exact ⟨_, rfl, rfl, ring.flags _⟩
  by_cases release : data = 0xF0
  · rw [if_neg pause, if_neg pause, if_neg special, if_neg special, if_pos release, if_pos release]
    exact ⟨_, rfl, rfl, ring.flags _⟩
  rw [if_neg pause, if_neg pause, if_neg special, if_neg special, if_neg release, if_neg release]
  have inside : data.toNat < if s.flags.specialKey then 0x7E else 0x84 :=
    (((inTable.resolve_left ongoing).resolve_left pause).resolve_left special).resolve_left release
  split
  · exact ⟨_, rfl, rfl, ring.flags _⟩
  split
  · exact ⟨_, rfl, rfl, ring.flags _⟩
  · have place : data.toNat <
        (if s.flags.specialKey then specialKeycodeMap else keycodeMap).length := by
      split
      · rename_i is
        rwa [if_pos is, ← keycodeMap_length.2] at inside
      · rename_i is
        rwa [if_neg is, ← keycodeMap_length.1] at inside
    unfold keyTableAt
    rw [List.getElem?_eq_getElem place]
    exact ⟨_, rfl, rfl, (ring.cache _ _ _).flags _⟩

/-- A byte without a place in the tables makes the handler read behind one of them. -/
theorem kbdIsr_ok {time : Timespec} {data : BitVec 8} {s' : KbdDecoder}
    (handled : kbdIsr time data s = .ok s') : s.flags.InTable data := by
  by_contra outside
  unfold KbdFlags.InTable at outside
  simp only [not_or] at outside
  obtain ⟨ongoing, pause, special, release, size⟩ := outside
  have shift : data ≠ 0x12 := by
    rintro rfl
    revert size
    split <;> decide
  have asterisk : data ≠ 0x7C := by
    rintro rfl
    revert size
    split <;> decide
  have place : (if s.flags.specialKey then specialKeycodeMap else keycodeMap)[data.toNat]? = none := by
    rw [List.getElem?_eq_none_iff]
    split
    · rename_i is
      rw [if_pos is] at size
      rw [keycodeMap_length.2]
      exact Nat.not_lt.mp size
    · rename_i is
      rw [if_neg is] at size
      rw [keycodeMap_length.1]
      exact Nat.not_lt.mp size
  unfold kbdIsr keyTableAt at handled
  rw [if_neg ongoing, if_neg pause, if_neg special, if_neg release, if_neg fun both => shift both.1,
    if_neg fun both => both.1.elim shift asterisk, place] at handled
  cases handled

end Ring

section Stream

variable {start s : KbdDecoder} {stream : List (Timespec × BitVec 8)}

/-- Every byte of the stream has its place, in the state that it comes in. -/
def KbdFlags.AllInTable (flags : KbdFlags) (stream : List (Timespec × BitVec 8)) : Prop :=
  ∀ before byte after, stream = before ++ byte :: after →
    (flags.after (before.map Prod.snd)).InTable byte.2

theorem KbdFlags.AllInTable.tail {flags : KbdFlags} {byte : Timespec × BitVec 8}
    (all : flags.AllInTable (byte :: stream)) : (flags.next byte.2).AllInTable stream :=
  fun before other after same => all (byte :: before) other after (by rw [same, List.cons_append])

theorem KbdFlags.AllInTable.prefix_ {flags : KbdFlags} {before after : List (Timespec × BitVec 8)}
    (all : flags.AllInTable (before ++ after)) : flags.AllInTable before :=
  fun first byte rest same => all first byte (rest ++ after) (by rw [same]; simp)

theorem kbdRun_cons (byte : Timespec × BitVec 8) :
    kbdRun s (byte :: stream) = kbdIsr byte.1 byte.2 s >>= fun s => kbdRun s stream := by
  unfold kbdRun
  rw [List.foldlM_cons]

theorem kbdRun_inTable (ring : KbdDecoder.RingFrom start s) (all : s.flags.AllInTable stream) :
    ∃ s', kbdRun s stream = .ok s' ∧ s'.flags = s.flags.after (stream.map Prod.snd) ∧
      KbdDecoder.RingFrom start s' := by
  induction stream generalizing s with
  | nil => exact ⟨s, rfl, rfl, ring⟩
  | cons byte stream ih =>
    obtain ⟨s₁, handled, flags, ring₁⟩ := kbdIsr_inTable ring byte.1 (all [] byte stream rfl)
    have tail := all.tail
    rw [← flags] at tail
    obtain ⟨s', run, flags', ring'⟩ := ih ring₁ tail
    refine ⟨s', ?_, ?_, ring'⟩
    · rw [kbdRun_cons, handled]
      exact run
    · rw [flags', flags]
      rfl

theorem kbdRun_ok {s' : KbdDecoder} (ring : KbdDecoder.RingFrom start s)
    (run : kbdRun s stream = .ok s') : s.flags.AllInTable stream := by
  induction stream generalizing s with
  | nil =>
    intro before byte after same
    cases before <;> cases same
  | cons byte stream ih =>
    rw [kbdRun_cons] at run
    obtain ⟨s₁, handled, rest⟩ := Exec.bind_ok.mp run
    have first := kbdIsr_ok handled
    obtain ⟨s₂, handled₂, flags, ring₁⟩ := kbdIsr_inTable ring byte.1 first
    rw [handled₂] at handled
    cases handled
    intro before other after same
    cases before with
    | nil =>
      cases same
      exact first
    | cons head before =>
      cases same
      have later := ih ring₁ rest before other after rfl
      rw [flags] at later
      exact later

end Stream

/-- A byte for a key that starts no sequence clears the flags. -/
theorem KbdFlags.next_key {flags : KbdFlags} (ongoing : flags.ongoingSequence = false)
    {data : BitVec 8} (key : KeyByte data) (shift : flags.specialKey = true → data ≠ 0x12)
    (asterisk : flags.specialKey = true → flags.releaseModif = true → data ≠ 0x7C) :
    (flags.next data).Idle := by
  unfold KbdFlags.next
  rw [if_neg (by rw [ongoing]; decide), if_neg key.pause, if_neg key.special, if_neg key.release,
    if_neg fun both => shift both.2 both.1, if_neg]
  · exact ⟨rfl, rfl, ongoing⟩
  · rintro ⟨is | is, special, release⟩
    · exact shift special is
    · exact asterisk special release is

theorem KbdFlags.after_append (flags : KbdFlags) (before code : List (BitVec 8)) :
    flags.after (before ++ code) = (flags.after before).after code := List.foldl_append

theorem KbdFlags.idle_of_after {flags inside : KbdFlags} {before code : List (BitVec 8)}
    (first : flags.after before = inside) (rest : inside.after code = ⟨false, false, false, 0⟩) :
    (flags.after (before ++ code)).Idle := by
  rw [KbdFlags.after_append, first, rest]
  exact ⟨rfl, rfl, rfl⟩

theorem CompleteCode.idle {flags : KbdFlags} (idle : flags.Idle) {code : List (BitVec 8)}
    (complete : CompleteCode code) : (flags.after code).Idle := by
  obtain ⟨special, release, ongoing, count⟩ := flags
  obtain ⟨rfl, rfl, rfl⟩ := idle
  cases complete with
  | make key => exact @KbdFlags.next_key ⟨false, false, false, count⟩ rfl _ key nofun nofun
  | makeSpecial key shift =>
    exact @KbdFlags.next_key ⟨true, false, false, count⟩ rfl _ key (fun _ => shift) nofun
  | release key => exact @KbdFlags.next_key ⟨false, true, false, count⟩ rfl _ key nofun nofun
  | releaseSpecial key shift asterisk =>
    exact @KbdFlags.next_key ⟨true, true, false, count⟩ rfl _ key (fun _ => shift)
      fun _ _ => asterisk
  | printScreen =>
    exact @KbdFlags.idle_of_after _ ⟨true, false, true, 2⟩ [0xE0, 0x12] [0xE0, 0x7C] rfl (by decide)
  | releasePrintScreen =>
    exact @KbdFlags.idle_of_after _ ⟨true, true, true, 3⟩ [0xE0, 0xF0, 0x7C] [0xE0, 0xF0, 0x12] rfl
      (by decide)
  | pause =>
    exact @KbdFlags.idle_of_after _ ⟨false, false, true, 1⟩ [0xE1]
      [0x14, 0x77, 0xE1, 0xF0, 0x14, 0xF0, 0x77] rfl (by decide)

/-- The shift code is taken for the start of Print Screen. -/
theorem ShiftedCode.busy {flags : KbdFlags} (idle : flags.Idle) {code : List (BitVec 8)}
    (shifted : ShiftedCode code) : (flags.after code).ongoingSequence = true := by
  obtain ⟨special, release, ongoing, count⟩ := flags
  obtain ⟨rfl, rfl, rfl⟩ := idle
  have waits : ∀ release data, data ≠ 0x7C →
      (KbdFlags.next ⟨true, release, true, 3⟩ data).ongoingSequence = true := by
    intro release data asterisk
    unfold KbdFlags.next
    rw [if_pos rfl]
    dsimp only
    rw [if_neg (by decide), if_neg fun both => absurd both.1 (by decide),
      if_neg fun both => asterisk both.2]
  have cleared : ∀ data, KeyByte data → data ≠ 0x12 → data ≠ 0x7C →
      (KbdFlags.next ⟨true, true, false, count⟩ data) = ⟨false, false, false, count⟩ := by
    intro data key shift asterisk
    unfold KbdFlags.next
    rw [if_neg Bool.false_ne_true, if_neg key.pause, if_neg key.special, if_neg key.release,
      if_neg fun both => shift both.1, if_neg fun both => both.1.elim shift asterisk]
  cases shifted with
  | make key asterisk => exact waits false _ asterisk
  | makeHeld key asterisk => exact waits true _ asterisk
  | @release data key shift asterisk =>
    have first : KbdFlags.after ⟨false, false, false, count⟩ [0xE0, 0xF0, data, 0xE0, 0xF0, 0x12] =
        KbdFlags.after (KbdFlags.next ⟨true, true, false, count⟩ data) [0xE0, 0xF0, 0x12] := rfl
    rw [first, cleared data key shift asterisk]
    rfl
  | @releaseHeld data key shift asterisk =>
    have first : KbdFlags.after ⟨false, false, false, count⟩ [0xE0, 0xF0, data, 0xE0, 0x12] =
        KbdFlags.after (KbdFlags.next ⟨true, true, false, count⟩ data) [0xE0, 0x12] := rfl
    rw [first, cleared data key shift asterisk]
    rfl

/-- The decoder as it is set up. -/
def bootDecoder : KbdDecoder := ⟨⟨false, false, false, 0⟩, bootKbd.kbd⟩

/-- No prefix of the stream reads behind a table or stores behind the events, and the decoder is idle
    again after every complete code that it takes up idle. -/
structure KbdRight (stream : List (Timespec × BitVec 8)) : Prop where
  inside : ∀ before, before <+: stream →
    ∃ s, kbdRun bootDecoder before = .ok s ∧ KbdDecoder.RingFrom bootDecoder s
  idle : ∀ before code after s, stream = before ++ (code ++ after) →
    kbdRun bootDecoder before = .ok s → s.flags.Idle →
    CompleteCode (code.map Prod.snd) ∨ ShiftedCode (code.map Prod.snd) →
    ∃ s', kbdRun bootDecoder (before ++ code) = .ok s' ∧ s'.flags.Idle

/-- A byte that is taken for a key has to lie below the end of its table: `0x84`, or `0x7E` behind
    `0xE0`. No code with a shift code may come to an idle decoder. -/
theorem kbdIsr_right_iff (stream : List (Timespec × BitVec 8)) :
    KbdRight stream ↔
      bootDecoder.flags.AllInTable stream ∧
        ∀ before code after, stream = before ++ (code ++ after) →
          (bootDecoder.flags.after (before.map Prod.snd)).Idle → ¬ ShiftedCode (code.map Prod.snd) := by
  have ring : KbdDecoder.RingFrom bootDecoder bootDecoder := ⟨Nat.zero_le 64, fun _ _ => rfl⟩
  have flagsAfter : ∀ {before after s}, bootDecoder.flags.AllInTable (before ++ after) →
      kbdRun bootDecoder before = .ok s → s.flags = bootDecoder.flags.after (before.map Prod.snd) := by
    intro before after s all run
    obtain ⟨s', run', flags, -⟩ := kbdRun_inTable ring all.prefix_
    rw [run] at run'
    cases run'
    exact flags
  constructor
  · intro right
    obtain ⟨s, run, -⟩ := right.inside stream List.prefix_rfl
    have all := kbdRun_ok ring run
    refine ⟨all, ?_⟩
    rintro before code after rfl idle shifted
    obtain ⟨s₁, run₁, flags₁, -⟩ := kbdRun_inTable ring all.prefix_
    rw [← flags₁] at idle
    obtain ⟨s', run', idle'⟩ := right.idle before code after s₁ rfl run₁ idle (.inr shifted)
    have busy := shifted.busy idle
    rw [flags₁, ← KbdFlags.after_append, ← List.map_append] at busy
    rw [← List.append_assoc] at all
    have flags' := flagsAfter all run'
    rw [← flags', idle'.sequence] at busy
    cases busy
  · rintro ⟨all, unshifted⟩
    refine ⟨?_, ?_⟩
    · rintro before ⟨after, rfl⟩
      obtain ⟨s, run, -, ring'⟩ := kbdRun_inTable ring all.prefix_
      exact ⟨s, run, ring'⟩
    · rintro before code after s rfl run idle code_
      rw [flagsAfter all run] at idle
      have complete := code_.resolve_right (unshifted before code after rfl idle)
      rw [← List.append_assoc] at all
      obtain ⟨s', run', flags', -⟩ := kbdRun_inTable ring all.prefix_
      refine ⟨s', run', ?_⟩
      rw [flags', List.map_append, KbdFlags.after_append]
      exact complete.idle idle

def atStart : Timespec := ⟨0, 0, Nat.succ_pos _⟩

/-- The keyboard acknowledges a command with `0xFA`. -/
theorem not_kbdIsr_right : ¬ ∀ stream : List (Timespec × BitVec 8), KbdRight stream := by
  intro claim
  obtain ⟨s, run, -⟩ := (claim [(atStart, 0xFA)]).inside _ List.prefix_rfl
  rw [kbdRun_cons] at run
  obtain ⟨s₁, handled, -⟩ := Exec.bind_ok.mp run
  rcases kbdIsr_ok handled with ongoing | pause | special | release | size
  · cases ongoing
  · revert pause
    decide
  · revert special
    decide
  · revert release
    decide
  · revert size
    decide

end Dxgmx
