import Dxgmx.Fs.SoundMounts
import Dxgmx.Fs.PathSpelling
import Dxgmx.Fs.VnodeTree
import Mathlib.Data.List.Chain

open Library

namespace Dxgmx

/-- No slash follows a slash. -/
def SingleSlashes (path : List Byte) : Prop := path.IsChain fun a b => ¬ (a = slash ∧ b = slash)

theorem singleSlashes_cons {a b : Byte} {rest : List Byte} :
    SingleSlashes (a :: b :: rest) ↔ ¬ (a = slash ∧ b = slash) ∧ SingleSlashes (b :: rest) :=
  List.isChain_cons_cons

theorem SingleSlashes.tail {a : Byte} {rest : List Byte} (single : SingleSlashes (a :: rest)) :
    SingleSlashes rest := List.IsChain.tail single

theorem singleSlashes_pathDropSlashes {first : Byte} {hitDel : Bool} (path : List Byte)
    (hit : first = slash → hitDel = true) : SingleSlashes (first :: pathDropSlashes hitDel path) := by
  induction path generalizing first hitDel with
  | nil => exact List.isChain_singleton _
  | cons c rest ih =>
    by_cases here : c = slash
    · rw [here]
      cases hitDel with
      | true =>
        rw [pathDropSlashes_cons_slash]
        exact ih fun _ => rfl
      | false =>
        rw [pathDropSlashes_slash, singleSlashes_cons]
        refine ⟨fun both => ?_, ih fun _ => rfl⟩
        cases hit both.1
    · rw [pathDropSlashes_cons here, singleSlashes_cons]
      exact ⟨fun both => here both.2, ih fun same => absurd same here⟩

/-- What takes the place of a deleted dot and slash is not a slash. -/
theorem singleSlashes_pathDropDots {first : Byte} {path : List Byte}
    (single : SingleSlashes (first :: path)) : SingleSlashes (first :: pathDropDots path) := by
  fun_induction pathDropDots path generalizing first with
  | case1 => exact single
  | case2 c rest other ih =>
    rw [singleSlashes_cons] at single ⊢
    exact ⟨single.1, ih single.2⟩
  | case3 c => exact List.isChain_singleton _
  | case4 c next => exact List.isChain_singleton _
  | case5 c kept next other ih =>
    rw [singleSlashes_cons] at single ⊢
    exact ⟨single.1, ih single.2⟩
  | case6 c kept moved rest ih =>
    rw [singleSlashes_cons, singleSlashes_cons, singleSlashes_cons] at single
    rw [singleSlashes_cons]
    exact ⟨fun both => single.2.2.1 ⟨rfl, both.2⟩, ih single.2.2.2⟩
  | case7 c kept next moved rest other ih =>
    rw [singleSlashes_cons] at single ⊢
    exact ⟨single.1, ih single.2⟩

/-- A canonical path has no double slash and ends in a slash only where it is nothing else. -/
theorem singleSlashes_pathMakeCanonical (path : List Byte) :
    SingleSlashes (pathMakeCanonical path) ∧
      ((pathMakeCanonical path).getLast? = some slash → pathMakeCanonical path = [slash]) := by
  have single : SingleSlashes (pathDropDots (pathDropSlashes false path)) :=
    (singleSlashes_pathDropDots (@singleSlashes_pathDropSlashes 0 false path nofun)).tail
  unfold pathMakeCanonical
  generalize pathDropDots (pathDropSlashes false path) = dropped at single
  unfold pathStripSlash
  rcases List.eq_nil_or_concat dropped with rfl | ⟨init, last, rfl⟩
  · exact ⟨single, nofun⟩
  · rw [List.concat_eq_append] at single ⊢
    rw [List.getLast?_concat, List.dropLast_concat]
    by_cases strip : 1 < (init ++ [last]).length ∧ some last = some slash
    · rw [if_pos strip]
      refine ⟨List.IsChain.left_of_append single, fun ends => ?_⟩
      obtain ⟨before, rfl⟩ := List.getLast?_eq_some_iff.mp ends
      rw [List.append_assoc] at single
      have pair := List.IsChain.right_of_append single
      exact absurd ⟨rfl, Option.some.inj strip.2⟩ (singleSlashes_cons.mp pair).1
    · rw [if_neg strip, List.getLast?_concat]
      refine ⟨single, fun ends => ?_⟩
      have short : ¬ 1 < (init ++ [last]).length := fun long => strip ⟨long, ends⟩
      rw [List.length_append, List.length_singleton] at short
      have none : init = [] := List.length_eq_zero_iff.mp (by omega)
      rw [none, Option.some.inj ends]
      rfl

theorem pathMakeRelative_suffix {path mntpoint relative : List Byte}
    (h : pathMakeRelative path mntpoint = .ok relative) : relative <:+ path := by
  unfold pathMakeRelative at h
  split at h
  · cases h
  · split at h
    · cases h
      exact List.suffix_refl _
    · split at h
      · cases h
      · cases h
        exact List.drop_suffix _ _

theorem exists_last_slash {path : List Byte} (member : slash ∈ path) :
    ∃ before name, path = before ++ slash :: name ∧ slash ∉ name := by
  induction path with
  | nil => cases member
  | cons c rest ih =>
    by_cases later : slash ∈ rest
    · obtain ⟨before, name, rfl, last⟩ := ih later
      exact ⟨c :: before, name, rfl, last⟩
    · rcases List.mem_cons.mp member with rfl | inside
      · exact ⟨[], rest, rfl, later⟩
      · exact absurd inside later

/-- The directory part of a path, of which the root keeps its slash. -/
def directoryPart (before : List Byte) : List Byte := if before = [] then [slash] else before

theorem fsGetDirVnodeForFile_append {before name : List Byte} (last : slash ∉ name)
    (fs : FileSystem) : fsGetDirVnodeForFile (before ++ slash :: name) fs =
      fsLookupVnodeCachedRelative (directoryPart before) fs := by
  unfold fsGetDirVnodeForFile directoryPart
  rw [strrchr_append (by decide) last]
  cases before with
  | nil => rfl
  | cons c rest =>
    rw [if_neg (List.cons_ne_nil c rest)]
    dsimp only
    rw [if_pos (by simp), List.take_left]

theorem pathMakeFilename_append {before name : List Byte} (last : slash ∉ name) :
    pathMakeFilename (before ++ slash :: name) = .ok name := by
  unfold pathMakeFilename
  rw [strrchr_append (by decide) last]
  dsimp only
  rw [← List.singleton_append, ← List.append_assoc, List.drop_left' (by simp)]

/-- A directory and a name below it spell the path that was looked for. -/
theorem treePath_below {fs : FileSystem} (sound : fs.Sound) {before name : List Byte}
    (single : SingleSlashes (before ++ slash :: name)) {dir : VirtualNode}
    (inside : dir ∈ fs.vnodeLl) (tree : TreePath fs dir (directoryPart before)) :
    directoryPart before ++ List.replicate dir.parent.isSome.toNat slash ++ name =
      before ++ slash :: name := by
  unfold directoryPart at tree ⊢
  cases before with
  | nil =>
    rw [if_pos rfl] at tree ⊢
    -- only a root has this path: below it there is a name after what is above
    have top : dir.parent = none := by
      generalize same : [slash] = path at tree
      cases tree with
      | root top => exact top
      | child member below isDir above =>
        have some := List.length_pos_iff.mpr (above.ne_nil sound member)
        have named := List.length_pos_iff.mpr (sound.named dir inside)
        have long := congrArg List.length same
        rw [List.length_append, List.length_append, List.length_singleton] at long
        omega
    rw [top]
    rfl
  | cons c rest =>
    rw [if_neg (List.cons_ne_nil c rest)] at tree ⊢
    have deep : dir.parent.isSome = true := by
      cases top : dir.parent with
      | some parent => rfl
      | none =>
        exfalso
        have name := (sound.roots dir inside top).1
        generalize same : c :: rest = path at tree single
        cases tree with
        | root _ =>
          rw [name] at single
          exact (singleSlashes_cons.mp single).1 ⟨rfl, rfl⟩
        | child _ below =>
          rw [top] at below
          cases below
    rw [deep]
    show (c :: rest) ++ [slash] ++ name = _
    rw [List.append_assoc]
    rfl

/-- What the second pass leaves of a name. -/
def trimDot (name : List Byte) : List Byte :=
  if name.getLast? = some dot then name.dropLast else name

/-- A name that is one component of a path. -/
structure SingleComponent (name : List Byte) : Prop where
  named : name ≠ []
  plain : slash ∉ name
  notDot : name ≠ [dot]

/-- A mountpoint that `path_make_canonical` does not change. -/
structure CanonicalMountpoint (mntpoint : List Byte) : Prop where
  absolute : Absolute mntpoint
  fixed : pathMakeCanonical mntpoint = mntpoint

variable {name mntpoint : List Byte}

theorem SingleComponent.trim_ne_nil (single : SingleComponent name) : trimDot name ≠ [] := by
  unfold trimDot
  rcases List.eq_nil_or_concat name with rfl | ⟨init, last, rfl⟩
  · exact absurd rfl single.named
  · rw [List.concat_eq_append, List.getLast?_concat, List.dropLast_concat]
    by_cases here : some last = some dot
    · rw [if_pos here]
      rintro rfl
      apply single.notDot
      rw [Option.some.inj here]
      rfl
    · rw [if_neg here]
      simp

theorem slash_not_mem_trimDot (plain : slash ∉ name) : slash ∉ trimDot name := by
  unfold trimDot
  split
  · exact fun inside => plain (List.mem_of_mem_dropLast inside)
  · exact plain

theorem trimDot_length (name : List Byte) : (trimDot name).length ≤ name.length := by
  unfold trimDot
  split
  · rw [List.length_dropLast]
    omega
  · exact Nat.le_refl _

theorem pathDropSlashes_plain (plain : slash ∉ name) (hitDel : Bool) :
    pathDropSlashes hitDel name = name := by
  induction name generalizing hitDel with
  | nil => rfl
  | cons c rest ih =>
    rw [List.mem_cons, not_or] at plain
    rw [pathDropSlashes_cons (Ne.symm plain.1), ih plain.2]

theorem pathDropDots_plain (plain : slash ∉ name) : pathDropDots name = trimDot name := by
  rcases List.eq_nil_or_concat name with rfl | ⟨init, last, rfl⟩
  · rfl
  · rw [List.concat_eq_append] at plain ⊢
    rw [List.mem_append, not_or, List.mem_singleton] at plain
    unfold trimDot
    rw [pathDropDots_append plain.1 (Ne.symm plain.2), List.getLast?_concat, List.dropLast_concat]
    by_cases here : last = dot
    · rw [here, if_pos rfl]
      exact List.append_nil init
    · rw [if_neg (fun same => here (Option.some.inj same)), pathDropDots_cons here]
      rfl

theorem pathDropSlashes_append {path : List Byte} (nonempty : path ≠ []) (single : SingleSlashes path)
    (ends : path.getLast? ≠ some slash) {hitDel : Bool}
    (starts : hitDel = true → path.head? ≠ some slash) (rest : List Byte) :
    pathDropSlashes hitDel (path ++ rest) = path ++ pathDropSlashes false rest := by
  induction path generalizing hitDel with
  | nil => exact absurd rfl nonempty
  | cons c path ih =>
    rw [List.cons_append]
    cases path with
    | nil =>
      have other : c ≠ slash := fun same => ends (congrArg Option.some same)
      rw [List.nil_append, pathDropSlashes_cons other]
      rfl
    | cons d path =>
      have later := @ih (List.cons_ne_nil _ _) single.tail ends
      by_cases here : c = slash
      · subst here
        cases hitDel with
        | true => exact absurd rfl (starts rfl)
        | false =>
          rw [pathDropSlashes_slash, later]
          · rfl
          · intro _ same
            exact (singleSlashes_cons.mp single).1 ⟨rfl, Option.some.inj same⟩
      · rw [pathDropSlashes_cons here, later fun hit => absurd hit Bool.false_ne_true]
        rfl

/-- Where the second pass deletes nothing before a slash, it starts anew behind it. -/
theorem pathDropDots_fixed_append {path : List Byte} (fixed : pathDropDots path = path)
    (rest : List Byte) : pathDropDots (path ++ slash :: rest) = path ++ slash :: pathDropDots rest := by
  induction path with
  | nil => exact pathDropDots_cons (by decide) rest
  | cons c path ih =>
    rw [List.cons_append]
    by_cases here : c = dot
    · subst here
      cases path with
      | nil => cases fixed
      | cons next path =>
        have other : next ≠ slash := by
          rintro rfl
          have length := congrArg List.length fixed
          cases path with
          | nil => cases fixed
          | cons moved path =>
            have shorter := (pathDropDots_sublist path).length_le
            rw [pathDropDots_dot_slash] at length
            simp only [List.length_cons] at length
            omega
        rw [pathDropDots_dot other] at fixed
        rw [List.cons_append, pathDropDots_dot other, ← List.cons_append, ih (List.cons.inj fixed).2]
        rfl
    · rw [pathDropDots_cons here] at fixed ⊢
      rw [ih (List.cons.inj fixed).2]
      rfl

theorem pathStripSlash_append (path : List Byte) (some : name ≠ []) (plain : slash ∉ name) :
    pathStripSlash (path ++ slash :: name) = path ++ slash :: name := by
  unfold pathStripSlash
  rcases List.eq_nil_or_concat name with rfl | ⟨init, last, rfl⟩
  · exact absurd rfl some
  · rw [List.concat_eq_append] at plain ⊢
    rw [List.mem_append, not_or, List.mem_singleton] at plain
    rw [if_neg]
    rintro ⟨-, ends⟩
    rw [← List.cons_append, ← List.append_assoc, List.getLast?_concat] at ends
    exact plain.2 (Option.some.inj ends).symm

theorem CanonicalMountpoint.ne_nil (canonical : CanonicalMountpoint mntpoint) : mntpoint ≠ [] := by
  rintro rfl
  cases canonical.absolute

theorem CanonicalMountpoint.pathDropSlashes_below (canonical : CanonicalMountpoint mntpoint)
    (below : mntpoint ≠ [slash]) (rest : List Byte) :
    pathDropSlashes false (mntpoint ++ rest) = mntpoint ++ pathDropSlashes false rest := by
  obtain ⟨apart, ends⟩ := singleSlashes_pathMakeCanonical mntpoint
  rw [canonical.fixed] at apart ends
  exact pathDropSlashes_append canonical.ne_nil apart (fun last => below (ends last))
    (fun hit => absurd hit Bool.false_ne_true) rest

/-- The second pass deletes nothing of a canonical mountpoint. -/
theorem CanonicalMountpoint.pathDropDots_eq (canonical : CanonicalMountpoint mntpoint)
    (below : mntpoint ≠ [slash]) : pathDropDots mntpoint = mntpoint := by
  have same := (canonical.pathDropSlashes_below below []).trans (List.append_nil _)
  rw [List.append_nil] at same
  have fixed := canonical.fixed
  unfold pathMakeCanonical pathStripSlash at fixed
  rw [same] at fixed
  have shorter := (pathDropDots_sublist mntpoint).length_le
  split at fixed
  · rename_i strip
    have length := congrArg List.length fixed
    rw [List.length_dropLast] at length
    omega
  · exact fixed

theorem CanonicalMountpoint.relative (canonical : CanonicalMountpoint mntpoint)
    (single : SingleComponent name) {more : List Byte} (shape : more = [] ∨ more = [slash]) :
    pathMakeRelative (pathMakeCanonical (mntpoint ++ slash :: (more ++ name))) mntpoint =
      .ok (slash :: trimDot name) := by
  have after : pathDropSlashes true (more ++ name) = name := by
    rcases shape with rfl | rfl
    · exact pathDropSlashes_plain single.plain true
    · exact (pathDropSlashes_cons_slash name).trans (pathDropSlashes_plain single.plain true)
  have plain := slash_not_mem_trimDot single.plain
  unfold pathMakeCanonical
  by_cases root : mntpoint = [slash]
  · subst root
    rw [List.singleton_append, pathDropSlashes_slash, pathDropSlashes_cons_slash, after,
      pathDropDots_cons (by decide), pathDropDots_plain single.plain, ← List.nil_append (slash :: _),
      pathStripSlash_append [] single.trim_ne_nil plain]
    exact pathMakeRelative_root (List.cons_ne_nil _ _)
  · rw [canonical.pathDropSlashes_below root, pathDropSlashes_slash, after,
      pathDropDots_fixed_append (canonical.pathDropDots_eq root), pathDropDots_plain single.plain,
      pathStripSlash_append mntpoint single.trim_ne_nil plain]
    exact pathMakeRelative_append root _

end Dxgmx
