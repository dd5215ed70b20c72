import Mathlib.Data.List.Chain
import Dxgmx.Fs.PathSpelling
import Dxgmx.Library.InPlace

open Library

namespace Dxgmx

/-- The first pass of `path_make_canonical` in the memory of the string. After a slash is deleted the
    same index is looked at again. -/
def dropSlashesIn : (fuel i pathlen : Nat) → (hitDel : Bool) → List Byte → Exec (List Byte × Nat)
  | 0, _, _, _, _ => .error .fuel
  | fuel + 1, i, pathlen, hitDel, path =>
    if pathlen ≤ i then .ok (path, pathlen)
    else do
      let c ← fetch path i
      if c = slash then
        if hitDel then do
          let path ← moveDown 1 (pathlen - i) i path
          dropSlashesIn fuel i (pathlen - 1) true path
        else dropSlashesIn fuel (i + 1) pathlen true path
      else dropSlashesIn fuel (i + 1) pathlen false path

/-- The second pass. -/
def dropDotsIn : (fuel i pathlen : Nat) → List Byte → Exec (List Byte × Nat)
  | 0, _, _, _ => .error .fuel
  | fuel + 1, i, pathlen, path =>
    if pathlen ≤ i then .ok (path, pathlen)
    else do
      let c ← fetch path i
      if c ≠ dot then dropDotsIn fuel (i + 1) pathlen path
      else if i < pathlen - 1 then do
        let next ← fetch path (i + 1)
        if next = slash then do
          let path ← moveDown 2 (pathlen - 1 - i) i path
          dropDotsIn fuel (i + 1) (pathlen - 2) path
        else dropDotsIn fuel (i + 1) pathlen path
      else do
        let path ← put path (pathlen - 1) 0
        dropDotsIn fuel (i + 1) (pathlen - 1) path

/-- `path_make_canonical` on the bytes from `path` on that it may use. Every round of a pass leaves
    less of the string ahead. -/
def pathMakeCanonicalIn (path : List Byte) : Exec (List Byte) := do
  let text ← cstring path
  let (path, pathlen) ← dropSlashesIn (text.length + 1) 0 text.length false path
  let (path, pathlen) ← dropDotsIn (pathlen + 1) 0 pathlen path
  if 1 < pathlen then do
    let last ← fetch path (pathlen - 1)
    if last = slash then put path (pathlen - 1) 0 else pure path
  else pure path

section Passes

theorem moveDown_terminated (done gap rest junk : List Byte) :
    ∃ junk', moveDown gap.length (rest.length + 1) done.length
        (done ++ (gap ++ (rest ++ 0 :: junk))) = .ok (done ++ (rest ++ 0 :: junk')) ∧
      junk'.length = gap.length + junk.length := by
  have moved := @moveDown_append Byte done gap (rest ++ 0 :: junk) (rest.length + 1) (by simp)
  have text : (rest ++ 0 :: junk).take (rest.length + 1) = rest ++ [0] := by
    rw [List.append_cons, List.take_left' (by simp)]
  rw [text] at moved
  refine ⟨(gap ++ (rest ++ 0 :: junk)).drop (rest.length + 1), ?_, ?_⟩
  · rw [moved]
    simp only [List.append_assoc, List.singleton_append]
  · simp only [List.length_drop, List.length_append, List.length_cons]
    omega

theorem dropSlashesIn_ok (done todo junk : List Byte) {fuel : Nat} (hitDel : Bool)
    (enough : todo.length < fuel) :
    ∃ junk', dropSlashesIn fuel done.length (done ++ todo).length hitDel
        (done ++ (todo ++ 0 :: junk)) =
        .ok (done ++ (pathDropSlashes hitDel todo ++ 0 :: junk'),
          (done ++ pathDropSlashes hitDel todo).length) ∧
      (pathDropSlashes hitDel todo).length + junk'.length = todo.length + junk.length := by
  induction todo generalizing done junk fuel hitDel with
  | nil =>
    obtain ⟨fuel, rfl⟩ : ∃ left, fuel = left + 1 := ⟨fuel - 1, by omega⟩
    refine ⟨junk, ?_, rfl⟩
    unfold dropSlashesIn
    rw [List.append_nil, if_pos (Nat.le_refl _), pathDropSlashes, List.append_nil]
  | cons c rest ih =>
    rw [List.length_cons] at enough
    obtain ⟨fuel, rfl⟩ : ∃ left, fuel = left + 1 := ⟨fuel - 1, by omega⟩
    have ahead : ¬ (done ++ c :: rest).length ≤ done.length := by
      rw [List.length_append, List.length_cons]
      omega
    have next : (done ++ [c]).length = done.length + 1 := by simp
    have later := @ih (done ++ [c]) junk fuel
    rw [next] at later
    simp only [List.append_assoc, List.singleton_append] at later
    unfold dropSlashesIn pathDropSlashes
    rw [if_neg ahead, List.cons_append, fetch_append, Exec.ok_bind]
    by_cases here : c = slash
    · rw [if_pos here, if_pos here]
      cases hitDel with
      | true =>
        obtain ⟨junk1, moved, width⟩ := moveDown_terminated done [c] rest junk
        obtain ⟨junk2, call, length⟩ := @ih done junk1 fuel true (by omega)
        have span : (done ++ c :: rest).length - done.length = rest.length + 1 := by simp
        have short : (done ++ c :: rest).length - 1 = (done ++ rest).length := by simp
        rw [if_pos rfl, if_pos rfl, span, short]
        refine ⟨junk2, ?_, ?_⟩
        · change moveDown 1 _ _ (done ++ (c :: (rest ++ 0 :: junk))) = _ at moved
          rw [moved, Exec.ok_bind]
          exact call
        · rw [List.length_cons]
          rw [List.length_singleton] at width
          omega
      | false =>
        obtain ⟨junk1, call, length⟩ := later true (by omega)
        refine ⟨junk1, ?_, ?_⟩
        · rw [if_neg Bool.false_ne_true, if_neg Bool.false_ne_true]
          exact call
        · rw [if_neg Bool.false_ne_true, List.length_cons, List.length_cons]
          omega
    · rw [if_neg here, if_neg here]
      obtain ⟨junk1, call, length⟩ := later false (by omega)
      refine ⟨junk1, ?_, ?_⟩
      · exact call
      · rw [List.length_cons, List.length_cons]
        omega

theorem dropDotsIn_nil (fuel : Nat) (done junk : List Byte) :
    dropDotsIn (fuel + 1) done.length done.length (done ++ 0 :: junk) =
      .ok (done ++ 0 :: junk, done.length) := if_pos (Nat.le_refl _)

theorem dropDotsIn_past (fuel : Nat) (done path : List Byte) :
    dropDotsIn (fuel + 1) (done.length + 1) done.length path = .ok (path, done.length) :=
  if_pos (Nat.le_succ _)

theorem dropDotsIn_cons (fuel : Nat) {c : Byte} (other : c ≠ dot) (done rest junk : List Byte) :
    dropDotsIn (fuel + 1) done.length (done ++ c :: rest).length
        (done ++ (c :: rest ++ 0 :: junk)) =
      dropDotsIn fuel (done.length + 1) (done ++ c :: rest).length
        (done ++ (c :: rest ++ 0 :: junk)) := by
  rw [dropDotsIn, if_neg (by simp), List.cons_append, fetch_append, Exec.ok_bind, if_pos other]

theorem dropDotsIn_dot (fuel : Nat) (done : List Byte) (next : Byte) (rest junk : List Byte) :
    dropDotsIn (fuel + 1) done.length (done ++ dot :: next :: rest).length
        (done ++ (dot :: next :: rest ++ 0 :: junk)) =
      if next = slash then do
        let path ← moveDown 2 (rest.length + 1) done.length
          (done ++ (dot :: next :: rest ++ 0 :: junk))
        dropDotsIn fuel (done.length + 1) (done ++ rest).length path
      else dropDotsIn fuel (done.length + 1) (done ++ dot :: next :: rest).length
        (done ++ (dot :: next :: rest ++ 0 :: junk)) := by
  have left : (done ++ dot :: next :: rest).length - 1 - done.length = rest.length + 1 := by
    simp only [List.length_append, List.length_cons]
    omega
  have short : (done ++ dot :: next :: rest).length - 2 = (done ++ rest).length := by
    simp only [List.length_append, List.length_cons]
    omega
  have second : fetch (done ++ (dot :: next :: rest ++ 0 :: junk)) (done.length + 1) = .ok next := by
    have found := fetch_append (done ++ [dot]) next (rest ++ 0 :: junk)
    rw [List.length_append, List.length_singleton, List.append_assoc] at found
    exact found
  rw [dropDotsIn, if_neg (by simp), second, left, short, List.cons_append, fetch_append,
    Exec.ok_bind, if_neg (not_not.mpr rfl), if_pos (by simp), Exec.ok_bind]

theorem dropDotsIn_last (fuel : Nat) (done junk : List Byte) :
    dropDotsIn (fuel + 1) done.length (done ++ [dot]).length (done ++ ([dot] ++ 0 :: junk)) =
      dropDotsIn fuel (done.length + 1) done.length (done ++ 0 :: 0 :: junk) := by
  have short : (done ++ [dot]).length - 1 = done.length := by simp
  rw [dropDotsIn, if_neg (by simp), List.singleton_append, fetch_append, Exec.ok_bind,
    if_neg (not_not.mpr rfl), if_neg (by simp), short, put_append, Exec.ok_bind]

theorem dropDotsIn_kept {c : Byte} {rest dropped done junk : List Byte} {fuel : Nat}
    (later : ∃ junk', dropDotsIn fuel (done ++ [c]).length (done ++ [c] ++ rest).length
        (done ++ [c] ++ (rest ++ 0 :: junk)) =
        .ok (done ++ [c] ++ (dropped ++ 0 :: junk'), (done ++ [c] ++ dropped).length) ∧
      dropped.length + junk'.length = rest.length + junk.length) :
    ∃ junk', dropDotsIn fuel (done.length + 1) (done ++ c :: rest).length
        (done ++ (c :: rest ++ 0 :: junk)) =
        .ok (done ++ (c :: dropped ++ 0 :: junk'), (done ++ c :: dropped).length) ∧
      (c :: dropped).length + junk'.length = (c :: rest).length + junk.length := by
  obtain ⟨junk', call, length⟩ := later
  have next : (done ++ [c]).length = done.length + 1 := by simp
  rw [next] at call
  simp only [List.append_assoc, List.singleton_append] at call
  refine ⟨junk', call, ?_⟩
  rw [List.length_cons, List.length_cons]
  omega

theorem dropDotsIn_ok (done todo junk : List Byte) {fuel : Nat} (enough : todo.length < fuel) :
    ∃ junk', dropDotsIn fuel done.length (done ++ todo).length (done ++ (todo ++ 0 :: junk)) =
        .ok (done ++ (pathDropDots todo ++ 0 :: junk'), (done ++ pathDropDots todo).length) ∧
      (pathDropDots todo).length + junk'.length = todo.length + junk.length := by
  obtain ⟨fuel, rfl⟩ : ∃ left, fuel = left + 1 := ⟨fuel - 1, by omega⟩
  fun_induction pathDropDots todo generalizing done junk fuel with
  | case1 =>
    rw [List.append_nil]
    exact ⟨junk, dropDotsIn_nil fuel done junk, rfl⟩
  | case2 c rest other ih =>
    rw [List.length_cons] at enough
    obtain ⟨fuel, rfl⟩ : ∃ left, fuel = left + 1 := ⟨fuel - 1, by omega⟩
    rw [dropDotsIn_cons _ other]
    exact dropDotsIn_kept (ih (done ++ [c]) junk fuel (by omega))
  | case3 c kept =>
    rw [not_not] at kept
    obtain ⟨fuel, rfl⟩ : ∃ left, fuel = left + 1 := ⟨fuel - 1, by simp at enough; omega⟩
    rw [kept, dropDotsIn_last, dropDotsIn_past, List.append_nil]
    exact ⟨0 :: junk, rfl, by simp [Nat.add_comm]⟩
  | case4 c kept =>
    rw [not_not] at kept
    obtain ⟨fuel, rfl⟩ : ∃ left, fuel = left + 1 := ⟨fuel - 1, by simp at enough; omega⟩
    obtain ⟨junk', moved, length⟩ := moveDown_terminated done [dot, slash] [] junk
    rw [kept, dropDotsIn_dot, if_pos rfl]
    change moveDown 2 _ _ (done ++ ([dot, slash] ++ 0 :: junk)) = _ at moved
    rw [moved, Exec.ok_bind, List.append_nil, dropDotsIn_past]
    exact ⟨junk', rfl, by simpa using length⟩
  | case5 c kept next other ih =>
    rw [not_not] at kept
    obtain ⟨fuel, rfl⟩ : ∃ left, fuel = left + 1 := ⟨fuel - 1, by simp at enough; omega⟩
    rw [kept, dropDotsIn_dot, if_neg other]
    exact dropDotsIn_kept (ih (done ++ [dot]) junk fuel (by simp at enough ⊢; omega))
  | case6 c kept moved rest ih =>
    rw [not_not] at kept
    simp only [List.length_cons] at enough
    obtain ⟨fuel, rfl⟩ : ∃ left, fuel = left + 1 := ⟨fuel - 1, by omega⟩
    obtain ⟨junk1, down, width⟩ := moveDown_terminated done [dot, slash] (moved :: rest) junk
    obtain ⟨junk2, call, length⟩ :=
      dropDotsIn_kept (c := moved) (ih (done ++ [moved]) junk1 fuel (by omega))
    rw [kept, dropDotsIn_dot, if_pos rfl]
    change moveDown 2 _ _ (done ++ (dot :: slash :: moved :: rest ++ 0 :: junk)) = _ at down
    rw [down, Exec.ok_bind]
    refine ⟨junk2, call, ?_⟩
    simp only [List.length_cons, List.length_nil] at width length ⊢
    omega
  | case7 c kept next moved rest other ih =>
    rw [not_not] at kept
    obtain ⟨fuel, rfl⟩ : ∃ left, fuel = left + 1 := ⟨fuel - 1, by simp at enough; omega⟩
    rw [kept, dropDotsIn_dot, if_neg other]
    exact dropDotsIn_kept (ih (done ++ [dot]) junk fuel (by simp at enough ⊢; omega))

theorem pathStripSlash_in (path junk : List Byte) :
    ∃ junk', (if 1 < path.length then do
          let last ← fetch (path ++ 0 :: junk) (path.length - 1)
          if last = slash then put (path ++ 0 :: junk) (path.length - 1) 0
          else pure (path ++ 0 :: junk)
        else pure (path ++ 0 :: junk)) = .ok (pathStripSlash path ++ 0 :: junk') ∧
      (pathStripSlash path).length + junk'.length = path.length + junk.length := by
  unfold pathStripSlash
  rcases List.eq_nil_or_concat path with rfl | ⟨init, last, rfl⟩
  · exact ⟨junk, rfl, rfl⟩
  · rw [List.concat_eq_append, List.getLast?_concat, List.dropLast_concat]
    have place : (init ++ [last]).length - 1 = init.length := by simp
    rw [place, List.append_assoc, List.singleton_append, fetch_append, put_append, Exec.ok_bind]
    by_cases long : 1 < (init ++ [last]).length
    · rw [if_pos long]
      by_cases ends : last = slash
      · rw [if_pos ends, if_pos ⟨long, congrArg some ends⟩]
        refine ⟨0 :: junk, rfl, ?_⟩
        simp only [List.length_append, List.length_cons, List.length_nil]
        omega
      · rw [if_neg ends, if_neg fun both => ends (Option.some.inj both.2)]
        exact ⟨junk, by rw [List.append_assoc]; rfl, rfl⟩
    · rw [if_neg long, if_neg fun both => long both.1]
      exact ⟨junk, by rw [List.append_assoc]; rfl, rfl⟩

end Passes

/-- The string is made canonical where it stands, and nothing behind it is read or written. -/
theorem pathMakeCanonicalIn_ok {path : List Byte} (text : 0 ∉ path) (junk : List Byte) :
    ∃ junk', pathMakeCanonicalIn (path ++ 0 :: junk) =
        .ok (pathMakeCanonical path ++ 0 :: junk') ∧
      (pathMakeCanonical path).length + junk'.length = path.length + junk.length := by
  obtain ⟨junk1, first, length1⟩ := dropSlashesIn_ok [] path junk false (Nat.lt_add_one _)
  obtain ⟨junk2, second, length2⟩ :=
    dropDotsIn_ok [] (pathDropSlashes false path) junk1 (Nat.lt_add_one _)
  obtain ⟨junk3, third, length3⟩ := pathStripSlash_in (pathDropDots (pathDropSlashes false path)) junk2
  refine ⟨junk3, ?_, ?_⟩
  · unfold pathMakeCanonicalIn
    rw [cstring_terminated text, Exec.ok_bind]
    change dropSlashesIn _ 0 _ _ _ = _ at first
    change dropDotsIn _ 0 _ _ = _ at second
    simp only [List.nil_append] at first second
    rw [first, Exec.ok_bind]
    dsimp only
    rw [second, Exec.ok_bind]
    exact third
  · unfold pathMakeCanonical
    omega

/-- No component but `.` ends in a dot, and no `.` follows another one. -/
structure PlainDots (comps : List (List Byte)) : Prop where
  ends : ∀ comp ∈ comps, comp.getLast? = some dot → comp = [dot]
  apart : comps.IsChain fun comp next => comp = [dot] → next ≠ [dot]

/-- The path is made canonical in its memory, and stays as it is when that is done again. -/
def CanonicalInPlace (path : List Byte) : Prop :=
  ∃ junk junk', pathMakeCanonicalIn (path ++ [0]) = .ok (canonicalPath path ++ 0 :: junk) ∧
    pathMakeCanonicalIn (canonicalPath path ++ 0 :: junk) = .ok (canonicalPath path ++ 0 :: junk')

section Canonical

variable {path : List Byte} {comps : List (List Byte)}

theorem PlainDots.spelled (plain : PlainDots (components slash path)) : Spelled path := by
  refine ⟨fun up => absurd (plain.ends _ up rfl) (by decide), ?_⟩
  apply plain.apart.imp_of_mem_imp
  intro comp next member _ other ends
  exact other (plain.ends comp member ends)

theorem squash_eq_separated (plain : ∀ comp ∈ comps, comp.getLast? ≠ some dot) :
    squash [] false comps = separated slash comps := by
  induction comps with
  | nil => rfl
  | cons comp rest ih =>
    rw [squash_not_ends (plain comp List.mem_cons_self), separated_cons,
      ih fun other member => plain other (List.mem_cons_of_mem _ member)]
    rfl

theorem count_separated (comps : List (List Byte)) :
    (separated slash comps).count dot = (comps.map (List.count dot)).sum := by
  induction comps with
  | nil => rfl
  | cons comp rest ih =>
    rw [separated_cons, List.count_cons_of_ne (by decide), List.count_append, ih, List.map_cons,
      List.sum_cons]

theorem dotWeights_le (comps : List (List Byte)) :
    dotWeights comps ≤ (comps.map (List.count dot)).sum := by
  induction comps with
  | nil => exact Nat.le_refl _
  | cons comp rest ih =>
    have first := dotWeight_le comp
    rw [dotWeights_cons, List.map_cons, List.sum_cons]
    omega

/-- A component that ends in a dot weighs one dot less than it has. -/
theorem dotWeights_lt {comp : List Byte} (member : comp ∈ comps) (ends : comp.getLast? = some dot) :
    dotWeights comps < (comps.map (List.count dot)).sum := by
  have weight : dotWeight comp < comp.count dot := by
    unfold dotWeight
    rw [if_pos ends]
    obtain ⟨init, rfl⟩ := List.getLast?_eq_some_iff.mp ends
    rw [List.dropLast_concat, List.count_append]
    simp
  obtain ⟨before, after, rfl⟩ := List.append_of_mem member
  have first := dotWeights_le before
  have last := dotWeights_le after
  rw [dotWeights_append, dotWeights_cons, List.map_append, List.sum_append, List.map_cons,
    List.sum_cons]
  omega

/-- The canonical spelling stays as it is exactly when no component of it ends in a dot. -/
theorem pathMakeCanonical_canonical_iff (path : List Byte) :
    pathMakeCanonical (canonicalPath path) = canonicalPath path ↔
      ∀ comp ∈ resolveComponents (components slash path), comp.getLast? ≠ some dot := by
  have plain := not_mem_resolveComponents (components slash path)
  have again : (resolveComponents (components slash path)).filter (· ≠ [dot]) =
      resolveComponents (components slash path) := by
    rw [List.filter_eq_self]
    intro comp member
    exact decide_eq_true (mem_resolveComponents member).2.1
  rw [pathMakeCanonical_spelled (canonicalPath_absolute path) (spelled_canonicalPath path),
    components_canonicalPath, again]
  unfold canonicalPath joinComponents
  by_cases none : resolveComponents (components slash path) = []
  · rw [if_pos none, if_pos none, none]
    exact iff_of_true rfl fun comp member => absurd member List.not_mem_nil
  · rw [if_neg none, if_neg none]
    constructor
    · intro same comp member ends
      have dots := congrArg (List.count dot) same
      rw [count_squash_eq (.inl rfl) false plain.1, count_separated] at dots
      have less := dotWeights_lt member ends
      omega
    · exact squash_eq_separated

theorem pathMakeCanonical_right_iff (absolute : Absolute path) :
    pathMakeCanonical path = canonicalPath path ∧
        pathMakeCanonical (canonicalPath path) = canonicalPath path ↔
      PlainDots (components slash path) := by
  constructor
  · rintro ⟨once, twice⟩
    have spelled := (pathMakeCanonical_canonicalPath absolute).mp (once.trans twice.symm)
    rw [pathMakeCanonical_canonical_iff] at twice
    have resolved : resolveComponents (components slash path) = (components slash path).filter (· ≠ [dot]) :=
      foldl_resolveStep_eq_filter spelled.1 []
    refine ⟨fun comp member ends => ?_, ?_⟩
    · by_contra other
      apply twice comp _ ends
      rw [resolved]
      exact List.mem_filter.mpr ⟨member, decide_eq_true other⟩
    · apply spelled.2.imp
      rintro comp next other rfl
      exact other rfl
  · intro plain
    have kept : pathMakeCanonical (canonicalPath path) = canonicalPath path := by
      rw [pathMakeCanonical_canonical_iff]
      intro comp member ends
      obtain ⟨inside, other, -⟩ := mem_resolveComponents member
      exact other (plain.ends comp inside ends)
    exact ⟨((pathMakeCanonical_canonicalPath absolute).mpr plain.spelled).trans kept, kept⟩

theorem text_canonicalPath (text : 0 ∉ path) : 0 ∉ canonicalPath path := by
  intro zero
  unfold canonicalPath joinComponents at zero
  split at zero
  · exact absurd (List.mem_singleton.mp zero) (by decide)
  · obtain ⟨comp, member, inside⟩ := List.mem_flatMap.mp zero
    rcases List.mem_cons.mp inside with same | inside
    · exact absurd same (by decide)
    · exact text (mem_of_mem_components (mem_resolveComponents member).1 inside)

theorem terminated_inj {text text' junk junk' : List Byte} (clean : 0 ∉ text) (clean' : 0 ∉ text')
    (same : text ++ 0 :: junk = text' ++ 0 :: junk') : text = text' := by
  have first := cstring_terminated clean junk
  rw [same, cstring_terminated clean' junk'] at first
  exact (Except.ok.inj first).symm

/-- `path_make_canonical` is right about a path exactly when no component but `.` ends in a dot and
    no `.` follows another one. -/
theorem canonicalInPlace_iff (absolute : Absolute path) (text : 0 ∉ path) :
    CanonicalInPlace path ↔ PlainDots (components slash path) := by
  have text' := text_canonicalPath text
  have short : 0 ∉ pathMakeCanonical path := fun zero => text ((pathMakeCanonical_sublist path).mem zero)
  have short' : 0 ∉ pathMakeCanonical (canonicalPath path) :=
    fun zero => text' ((pathMakeCanonical_sublist _).mem zero)
  rw [← pathMakeCanonical_right_iff absolute]
  obtain ⟨junk, first, -⟩ := pathMakeCanonicalIn_ok text []
  constructor
  · rintro ⟨junk1, junk2, once, twice⟩
    obtain ⟨junk3, second, -⟩ := pathMakeCanonicalIn_ok text' junk1
    rw [first] at once
    rw [second] at twice
    exact ⟨terminated_inj short text' (Except.ok.inj once),
      terminated_inj short' text' (Except.ok.inj twice)⟩
  · rintro ⟨once, twice⟩
    obtain ⟨junk3, second, -⟩ := pathMakeCanonicalIn_ok text' junk
    rw [once] at first
    rw [twice] at second
    exact ⟨junk, junk3, first, second⟩

end Canonical

/-- `/usr/./lib//a.b/` -/
def plainPath : List Byte :=
  [slash, 0x75, 0x73, 0x72, slash, dot, slash, 0x6c, 0x69, 0x62, slash, slash, 0x61, dot, 0x62, slash]

theorem canonicalInPlace_plain : CanonicalInPlace plainPath := by
  have absolute : Absolute plainPath := rfl
  refine (canonicalInPlace_iff absolute (by decide)).mpr ⟨by decide, ?_⟩
  have comps : components slash plainPath =
      [[0x75, 0x73, 0x72], [dot], [0x6c, 0x69, 0x62], [0x61, dot, 0x62]] := by decide
  rw [comps]
  decide

/-- `/a/../b` becomes `/a/.b`. -/
theorem not_canonicalInPlace_up :
    Absolute [slash, 0x61, slash, dot, dot, slash, 0x62] ∧
      pathMakeCanonicalIn [slash, 0x61, slash, dot, dot, slash, 0x62, 0] =
        .ok [slash, 0x61, slash, dot, 0x62, 0, 0x62, 0] ∧
      canonicalPath [slash, 0x61, slash, dot, dot, slash, 0x62] = [slash, 0x62] ∧
      ¬ CanonicalInPlace [slash, 0x61, slash, dot, dot, slash, 0x62] := by
  have call : pathMakeCanonicalIn ([slash, 0x61, slash, dot, dot, slash, 0x62] ++ [0]) =
      .ok [slash, 0x61, slash, dot, 0x62, 0, 0x62, 0] := by decide
  have right : canonicalPath [slash, 0x61, slash, dot, dot, slash, 0x62] = [slash, 0x62] := by
    decide
  refine ⟨rfl, call, right, ?_⟩
  rintro ⟨junk, junk', once, -⟩
  rw [call, right] at once
  have wrong := congrArg (List.take 3) (Except.ok.inj once)
  exact absurd wrong (by simp)

end Dxgmx
