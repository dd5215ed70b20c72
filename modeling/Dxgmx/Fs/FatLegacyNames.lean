import Dxgmx.Fs.FatDirMemory
import Dxgmx.Kstdlib.StdioText

open Library

namespace Dxgmx

def isupper (c : Int) : Bool := 0x41 ≤ c ∧ c ≤ 0x5a

def tolower (c : Int) : Int := c + 32

/-- A character is signed where it is passed on, and a byte again where it is stored. -/
def lowered (c : Byte) : Byte :=
  if isupper c.toInt then BitVec.ofInt 8 (tolower c.toInt) else c

def strcat (dest : Nat → Byte) (src : List Byte) : Exec (Nat → Byte) := do
  let text ← cstring src
  strncat dest src text.length

/-- A loop of `fat_copy_legacy_name`. It also says whether anything was copied. -/
def copyLowered : (part : List Byte) → (i : Nat) → (buf : List Byte) → (found : Bool) →
    Exec (List Byte × Bool)
  | [], _, buf, found => .ok (buf, found)
  | c :: part, i, buf, found =>
    if c = 0x20 then .ok (buf, found)
    else do
      let buf ← put buf i (lowered c)
      copyLowered part (i + 1) buf true

/-- `fat_copy_legacy_name` into `dest`. -/
def fatCopyLegacyNameTo (entry : FatEntry) (dest : Nat → Byte) : Exec (Nat → Byte) := do
  let (name, _) ← copyLowered entry.name 0 (List.replicate 9 0) false
  let (ext, hasExt) ← copyLowered entry.ext 0 (List.replicate 4 0) false
  let dest ← strcpy dest 0 name
  if hasExt = true then do
    let dest ← strcat dest [dot, 0]
    strcat dest ext
  else pure dest

/-- A part of a name up to its first blank. -/
def upToBlank (part : List Byte) : List Byte := part.takeWhile (· ≠ 0x20)

variable {dest : Nat → Byte} {text read src part before : List Byte}

theorem lowered_eq (c : Byte) : lowered c = if 0x41 ≤ c ∧ c ≤ 0x5a then c + 32 else c := by
  revert c
  decide

theorem fatLegacyPart_eq (part : List Byte) :
    fatLegacyPart part = ((upToBlank part).map lowered).takeWhile (· ≠ 0) := by
  unfold fatLegacyPart upToBlank
  dsimp only
  congr 2
  funext c
  exact (lowered_eq c).symm

theorem copyLowered_ok (part before : List Byte) (n : Nat) (found : Bool) (room : part.length ≤ n) :
    copyLowered part before.length (before ++ List.replicate n 0) found =
      .ok (before ++ ((upToBlank part).map lowered ++
        List.replicate (n - (upToBlank part).length) 0), found || decide (upToBlank part ≠ [])) := by
  induction part generalizing before n found with
  | nil =>
    rw [copyLowered]
    simp [upToBlank]
  | cons c part ih =>
    obtain ⟨n, rfl⟩ : ∃ more, n = more + 1 := ⟨n - 1, by rw [List.length_cons] at room; omega⟩
    rw [copyLowered]
    by_cases blank : c = 0x20
    · rw [if_pos blank]
      simp [upToBlank, blank]
    · have cut : upToBlank (c :: part) = c :: upToBlank part :=
        List.takeWhile_cons_of_pos (by simpa using blank)
      have later := ih (before ++ [lowered c]) n true (Nat.le_of_succ_le_succ room)
      rw [List.length_append, List.length_singleton, List.append_assoc, List.singleton_append]
        at later
      rw [if_neg blank, List.replicate_succ, put_append, Exec.ok_bind, later, cut]
      simp

/-- The local buffers are longer than what is copied, so their zeros end the string. -/
theorem cstring_padded (text : List Byte) (n : Nat) :
    cstring (text ++ List.replicate (n + 1) 0) = .ok (text.takeWhile (· ≠ 0)) := by
  unfold cstring
  rw [if_pos (by simp), List.takeWhile_append]
  split_ifs with whole
  · have same : text.takeWhile (· ≠ 0) = text :=
      (List.takeWhile_prefix _).eq_of_length whole
    rw [same, List.replicate_succ, List.takeWhile_cons_of_neg (by simp), List.append_nil]
  · rfl

theorem strcpy_textAt (dest : Nat → Byte) (reads : cstring src = .ok text) :
    ∃ dest', strcpy dest 0 src = .ok dest' ∧ TextAt dest' text ∧
      ∀ m, text.length < m → dest' m = dest m := by
  unfold strcpy
  rw [reads, Exec.ok_bind]
  refine ⟨_, rfl, ⟨?_, fun zero => cstring_nonzero reads 0 zero rfl⟩, fun m after => ?_⟩
  · apply List.ext_getElem
    · simp
    · intro i left right
      have stored := storeBytes_inside dest 0 (text ++ [0]) i right
      rw [Nat.zero_add] at stored
      rw [List.getElem_map, List.getElem_range, stored]
  · apply storeBytes_after
    rw [List.length_append, List.length_singleton]
    omega

theorem TextAt.strcat (there : TextAt dest text) (bound : text.length < 2 ^ 32)
    (reads : Dxgmx.cstring src = .ok read) :
    ∃ dest', Dxgmx.strcat dest src = .ok dest' ∧ TextAt dest' (text ++ read) ∧
      ∀ m, (text ++ read).length < m → dest' m = dest m := by
  obtain ⟨dest', appended, string⟩ := there.strncat bound reads read.length
  rw [List.take_length] at string
  have frame := (strncat_spec there.string bound appended).2
  refine ⟨dest', ?_, string, fun m after => frame m ?_⟩
  · unfold Dxgmx.strcat
    rw [reads, Exec.ok_bind, appended]
  · rw [← cstring_ok reads, Nat.min_self, ← List.length_append]
    exact after

theorem upToBlank_length (part : List Byte) : (upToBlank part).length ≤ part.length :=
  (List.takeWhile_sublist _).length_le

theorem upToBlank_ext (entry : FatEntry) : upToBlank entry.ext ≠ [] ↔ entry.bytes 8 ≠ 0x20 := by
  have parts : entry.ext = [entry.bytes 8, entry.bytes 9, entry.bytes 10] := rfl
  rw [parts, upToBlank]
  simp [List.takeWhile_cons]

/-- What a loop leaves in its local buffer, read as a string. -/
theorem copyLowered_reads (part : List Byte) (n : Nat) (room : part.length ≤ n) :
    ∃ buf, copyLowered part 0 (List.replicate (n + 1) 0) false =
        .ok (buf, decide (upToBlank part ≠ [])) ∧ cstring buf = .ok (fatLegacyPart part) := by
  have copied := copyLowered_ok part [] (n + 1) false (Nat.le_succ_of_le room)
  have short := Nat.le_trans (upToBlank_length part) room
  rw [List.length_nil, List.nil_append, List.nil_append, Bool.false_or] at copied
  refine ⟨_, copied, ?_⟩
  rw [Nat.succ_sub short, cstring_padded, fatLegacyPart_eq]

theorem fatLegacyPart_short (part : List Byte) : (fatLegacyPart part).length ≤ part.length :=
  Nat.le_trans (fatLegacyPart_length part) (upToBlank_length part)

/-- The name is left in `dest` as `fatCopyLegacyName` says, and nothing behind it is written. -/
theorem fatCopyLegacyNameTo_ok (entry : FatEntry) (dest : Nat → Byte) :
    ∃ dest', fatCopyLegacyNameTo entry dest = .ok dest' ∧
      TextAt dest' (fatCopyLegacyName entry) ∧
      ∀ m, (fatCopyLegacyName entry).length < m → dest' m = dest m := by
  have nameShort := fatLegacyPart_short entry.name
  have nameSize : entry.name.length = 8 := rfl
  obtain ⟨name, nameDone, nameReads⟩ := copyLowered_reads entry.name 8 (Nat.le_refl _)
  obtain ⟨ext, extDone, extReads⟩ := copyLowered_reads entry.ext 3 (Nat.le_refl _)
  obtain ⟨dest₁, copied, there₁, same₁⟩ := strcpy_textAt dest nameReads
  unfold fatCopyLegacyNameTo fatCopyLegacyName
  rw [nameDone, Exec.ok_bind]
  dsimp only
  rw [extDone, Exec.ok_bind]
  dsimp only
  rw [copied, Exec.ok_bind]
  simp only [decide_eq_true_eq, upToBlank_ext]
  by_cases blank : entry.bytes 8 = 0x20
  · rw [if_neg (not_not.mpr blank), if_pos blank]
    exact ⟨dest₁, rfl, there₁, same₁⟩
  · have dotted : cstring [dot, 0] = .ok [dot] := rfl
    obtain ⟨dest₂, second, there₂, same₂⟩ := there₁.strcat (by omega) dotted
    obtain ⟨dest₃, third, there₃, same₃⟩ := there₂.strcat (by simp; omega) extReads
    rw [if_pos blank, if_neg blank, second, Exec.ok_bind, List.append_cons]
    refine ⟨dest₃, third, there₃, fun m after => ?_⟩
    have behind : (fatLegacyPart entry.name ++ [dot]).length < m := by
      rw [List.length_append] at after
      omega
    have behindName : (fatLegacyPart entry.name).length < m := by
      rw [List.length_append] at behind
      omega
    rw [same₃ m after, same₂ m behind, same₁ m behindName]

theorem lowered_zero {c : Byte} (zero : lowered c = 0) : c = 0 := by
  revert c
  decide

theorem fatLegacyPart_nonzero (clean : 0 ∉ part) :
    fatLegacyPart part = (upToBlank part).map lowered := by
  rw [fatLegacyPart_eq, List.takeWhile_eq_self_iff]
  intro c member
  obtain ⟨byte, inside, rfl⟩ := List.mem_map.mp member
  refine decide_eq_true fun zero => clean ?_
  rw [← lowered_zero zero]
  exact (List.takeWhile_sublist _).subset inside

/-- The size that the allocation has is what the copy needs, terminator included, and without zero
bytes in the name it is all used. -/
theorem fat_legacy_name_fills_its_size (entry : FatEntry) (dest : Nat → Byte) :
    ∃ dest' text, fatCopyLegacyNameTo entry dest = .ok dest' ∧ TextAt dest' text ∧
      text.length + 1 ≤ fatLegacyNameSize entry ∧ (∀ m, text.length < m → dest' m = dest m) ∧
      (0 ∉ entry.name → 0 ∉ entry.ext →
        text.length + 1 = fatLegacyNameSize entry ∧
        text = (upToBlank entry.name).map lowered ++
          if entry.bytes 8 = 0x20 then [] else dot :: (upToBlank entry.ext).map lowered) := by
  obtain ⟨dest', done, there, same⟩ := fatCopyLegacyNameTo_ok entry dest
  have fits := fatCopyLegacyName_fits entry
  rw [List.length_append, List.length_singleton] at fits
  refine ⟨dest', _, done, there, fits, same, fun cleanName cleanExt => ?_⟩
  have some_ := upToBlank_ext entry
  unfold fatCopyLegacyName fatLegacyNameSize
  rw [fatLegacyPart_nonzero cleanName, fatLegacyPart_nonzero cleanExt]
  by_cases blank : entry.bytes 8 = 0x20
  · have none : upToBlank entry.ext = [] := by
      by_contra nonempty
      exact some_.mp nonempty blank
    unfold upToBlank at none ⊢
    simp only [blank, none, ↓reduceIte, List.append_nil, List.length_map, List.length_nil, and_self]
  · have nonempty := some_.mpr blank
    unfold upToBlank at nonempty ⊢
    simp only [blank, ↓reduceIte, List.length_append, List.length_map, List.length_cons,
      List.length_eq_zero_iff, nonempty, and_true]
    omega

theorem legacy_name_of_readme :
    ∃ dest' text, fatCopyLegacyNameTo ⟨fun i => [0x52, 0x45, 0x41, 0x44, 0x4d, 0x45, 0x20, 0x20,
        0x54, 0x58, 0x20].getD i 0⟩ (fun _ => 0xff) = .ok dest' ∧ TextAt dest' text ∧
      text = [0x72, 0x65, 0x61, 0x64, 0x6d, 0x65, 0x2e, 0x74, 0x78] := by
  obtain ⟨dest', text, done, there, -, -, exact_⟩ := fat_legacy_name_fills_its_size
    ⟨fun i => [0x52, 0x45, 0x41, 0x44, 0x4d, 0x45, 0x20, 0x20, 0x54, 0x58, 0x20].getD i 0⟩
    (fun _ => 0xff)
  exact ⟨dest', text, done, there, (exact_ (by decide) (by decide)).2.trans (by decide)⟩

end Dxgmx
