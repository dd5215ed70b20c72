import Dxgmx.Kstdlib.String

open Library

namespace Dxgmx

abbrev slash : Byte := 0x2f

abbrev dot : Byte := 0x2e

def pathMax : Nat := 512

def pathMakeRelative (path mntpoint : List Byte) : Except Int (List Byte) :=
  if path.length < mntpoint.length then .error (-22)
  else if mntpoint = [slash] then .ok path
  else if (path.zip mntpoint).countP (fun pair => pair.1 = pair.2) ≠ mntpoint.length then
    .error (-36)
  else .ok (path.drop mntpoint.length)

/-- Without a slash the name is read from an address that is no string's. -/
def pathMakeFilename (path : List Byte) : Exec (List Byte) :=
  match strrchr path slash with
  | none => .error .fault
  | some off => .ok (path.drop (off + 1))

/-- The first pass of `path_make_canonical`. -/
def pathDropSlashes (hitDel : Bool) : List Byte → List Byte
  | [] => []
  | c :: rest =>
    if c = slash then
      if hitDel then pathDropSlashes true rest else c :: pathDropSlashes true rest
    else c :: pathDropSlashes false rest

/-- The second pass. What moves to the place of a deleted dot is not looked at. -/
def pathDropDots : List Byte → List Byte
  | [] => []
  | c :: rest =>
    if c ≠ dot then c :: pathDropDots rest
    else
      match rest with
      | [] => []
      | [next] => if next = slash then [] else c :: pathDropDots [next]
      | next :: moved :: rest =>
        if next = slash then moved :: pathDropDots rest
        else c :: pathDropDots (next :: moved :: rest)

attribute [grind =] pathDropSlashes pathDropDots

def pathStripSlash (path : List Byte) : List Byte :=
  if 1 < path.length ∧ path.getLast? = some slash then path.dropLast else path

def pathMakeCanonical (path : List Byte) : List Byte :=
  pathStripSlash (pathDropDots (pathDropSlashes false path))

theorem countP_zip_eq_length {path mntpoint : List Byte} (short : mntpoint.length ≤ path.length) :
    (path.zip mntpoint).countP (fun pair => pair.1 = pair.2) = mntpoint.length ↔
      mntpoint <+: path := by
  induction mntpoint generalizing path with
  | nil => simp
  | cons byte rest ih =>
    cases path with
    | nil => simp at short
    | cons first path =>
      rw [List.zip_cons_cons, List.countP_cons, List.cons_prefix_cons, List.length_cons]
      have inside : rest.length ≤ path.length := by simpa using short
      have most : (path.zip rest).countP (fun pair => pair.1 = pair.2) ≤ rest.length := by
        refine Nat.le_trans List.countP_le_length ?_
        rw [List.length_zip]
        exact Nat.min_le_right _ _
      rw [← ih inside]
      by_cases same : first = byte
      · simp [same]
      · simp [same, Ne.symm same]
        omega

theorem pathMakeRelative_root {path : List Byte} (some : path ≠ []) :
    pathMakeRelative path [slash] = .ok path := by
  unfold pathMakeRelative
  rw [if_neg, if_pos rfl]
  have := List.length_pos_iff.mpr some
  show ¬ path.length < 1
  omega

/-- Below any other mountpoint the relative path is the rest of the string. -/
theorem pathMakeRelative_append {mntpoint : List Byte} (below : mntpoint ≠ [slash])
    (relative : List Byte) : pathMakeRelative (mntpoint ++ relative) mntpoint = .ok relative := by
  unfold pathMakeRelative
  rw [if_neg (by simp), if_neg below, if_neg]
  · rw [List.drop_left]
  · rw [not_not]
    exact (countP_zip_eq_length (by simp)).mpr (List.prefix_append _ _)

theorem pathMakeRelative_ok {path mntpoint relative : List Byte} (below : mntpoint ≠ [slash])
    (h : pathMakeRelative path mntpoint = .ok relative) : path = mntpoint ++ relative := by
  unfold pathMakeRelative at h
  by_cases short : path.length < mntpoint.length
  · rw [if_pos short] at h
    cases h
  · rw [if_neg short, if_neg below] at h
    split at h
    · cases h
    · rename_i matching
      rw [not_not, countP_zip_eq_length (Nat.le_of_not_lt short)] at matching
      obtain ⟨rest, rfl⟩ := matching
      rw [List.drop_left] at h
      cases h
      rfl

end Dxgmx
