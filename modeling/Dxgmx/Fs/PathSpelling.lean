import Dxgmx.Fs.Path
import Dxgmx.Library.Components

open Library

namespace Dxgmx

def resolveStep (resolved : List (List Byte)) (comp : List Byte) : List (List Byte) :=
  if comp = [dot] then resolved
  else if comp = [dot, dot] then resolved.dropLast
  else resolved ++ [comp]

/-- The components of a path without `.` and with each `..` resolved. -/
def resolveComponents (comps : List (List Byte)) : List (List Byte) := comps.foldl resolveStep []

def joinComponents (comps : List (List Byte)) : List Byte :=
  if comps = [] then [slash] else separated slash comps

/-- The canonical spelling of an absolute path, as the header of the path functions describes it. -/
def canonicalPath (path : List Byte) : List Byte :=
  joinComponents (resolveComponents (components slash path))

def Canonical (path : List Byte) : Prop := canonicalPath path = path

def Absolute (path : List Byte) : Prop := path.head? = some slash

/-- A component that ends in a dot is not followed by the component `.`. -/
def DotsApart (comps : List (List Byte)) : Prop :=
  comps.IsChain fun comp next => comp.getLast? = some dot → next ≠ [dot]

/-- No component is `..`, and no component `.` stands behind one that ends in a dot. -/
def Spelled (path : List Byte) : Prop :=
  [dot, dot] ∉ components slash path ∧ DotsApart (components slash path)

/-- What the second pass makes of components. A component that ends in a dot loses it together with
    the slash behind it, and the next one merges with it. -/
def squash (trailing : List Byte) : (merged : Bool) → List (List Byte) → List Byte
  | merged, [] => if merged then [] else trailing
  | merged, comp :: rest =>
    let lead := if merged then [] else [slash]
    if comp.getLast? = some dot ∧ ¬ (merged ∧ comp = [dot]) then
      lead ++ (comp.dropLast ++ squash trailing true rest)
    else lead ++ (comp ++ squash trailing false rest)

attribute [grind =] squash

section DropSlashes

theorem pathDropSlashes_cons_slash (rest : List Byte) :
    pathDropSlashes true (slash :: rest) = pathDropSlashes true rest := by
  rw [pathDropSlashes, if_pos rfl, if_pos rfl]

theorem pathDropSlashes_slash (rest : List Byte) :
    pathDropSlashes false (slash :: rest) = slash :: pathDropSlashes true rest := by
  rw [pathDropSlashes, if_pos rfl, if_neg Bool.false_ne_true]

theorem pathDropSlashes_cons {c : Byte} (other : c ≠ slash) (hitDel : Bool) (rest : List Byte) :
    pathDropSlashes hitDel (c :: rest) = c :: pathDropSlashes false rest := by
  rw [pathDropSlashes, if_neg other]

/-- The first pass leaves one slash before each component, and perhaps one at the end. -/
theorem slash_pathDropSlashes (piece rest : List Byte) :
    ∃ trailing, (trailing = [] ∨ trailing = [slash]) ∧
      (componentsFrom slash piece rest = [] → trailing = [slash]) ∧
      slash :: (piece ++ pathDropSlashes (decide (piece = [])) rest) =
        separated slash (componentsFrom slash piece rest) ++ trailing := by
  induction rest generalizing piece with
  | nil =>
    by_cases none : piece = []
    · subst none
      exact ⟨[slash], .inr rfl, fun _ => rfl, rfl⟩
    · refine ⟨[], .inl rfl, ?_, ?_⟩
      · rw [componentsFrom, if_neg none]
        exact fun empty => absurd empty (List.cons_ne_nil _ _)
      · rw [componentsFrom, if_neg none, separated_cons, pathDropSlashes]
        simp [separated]
  | cons c rest ih =>
    by_cases here : c = slash
    · subst here
      obtain ⟨trailing, shape, alone, same⟩ := ih []
      have tail : slash :: pathDropSlashes true rest =
          separated slash (componentsFrom slash [] rest) ++ trailing := same
      by_cases none : piece = []
      · subst none
        rw [componentsFrom, if_pos rfl, if_pos rfl]
        refine ⟨trailing, shape, alone, ?_⟩
        show slash :: pathDropSlashes true (slash :: rest) = _
        rw [pathDropSlashes_cons_slash, tail]
      · rw [componentsFrom, if_pos rfl, if_neg none, decide_eq_false none]
        refine ⟨trailing, shape, fun empty => absurd empty (List.cons_ne_nil _ _), ?_⟩
        rw [pathDropSlashes_slash, tail, separated_cons]
        simp
    · obtain ⟨trailing, shape, alone, same⟩ := ih (piece ++ [c])
      rw [componentsFrom, if_neg here, pathDropSlashes_cons here]
      refine ⟨trailing, shape, alone, ?_⟩
      rw [decide_eq_false (by simp)] at same
      rw [← same]
      simp

theorem pathDropSlashes_absolute {path : List Byte} (absolute : Absolute path) :
    ∃ trailing, (trailing = [] ∨ trailing = [slash]) ∧
      (components slash path = [] → trailing = [slash]) ∧
      pathDropSlashes false path = separated slash (components slash path) ++ trailing := by
  obtain ⟨rest, rfl⟩ := List.head?_eq_some_iff.mp absolute
  obtain ⟨trailing, shape, alone, same⟩ := slash_pathDropSlashes [] rest
  unfold components
  rw [componentsFrom, if_pos rfl, if_pos rfl, pathDropSlashes_slash]
  exact ⟨trailing, shape, alone, same⟩

end DropSlashes

section DropDots

theorem pathDropDots_cons {c : Byte} (other : c ≠ dot) (rest : List Byte) :
    pathDropDots (c :: rest) = c :: pathDropDots rest := by
  rw [pathDropDots.eq_def]
  exact if_pos other

theorem pathDropDots_dot {next : Byte} (other : next ≠ slash) (rest : List Byte) :
    pathDropDots (dot :: next :: rest) = dot :: pathDropDots (next :: rest) := by
  rw [pathDropDots.eq_def]
  cases rest with
  | nil =>
    show (if dot ≠ dot then _ else if next = slash then _ else _) = _
    rw [if_neg (not_not.mpr rfl), if_neg other]
  | cons moved rest =>
    show (if dot ≠ dot then _ else if next = slash then _ else _) = _
    rw [if_neg (not_not.mpr rfl), if_neg other]

theorem pathDropDots_dot_slash (moved : Byte) (rest : List Byte) :
    pathDropDots (dot :: slash :: moved :: rest) = moved :: pathDropDots rest := by
  rw [pathDropDots.eq_def]
  show (if dot ≠ dot then _ else if slash = slash then _ else _) = _
  rw [if_neg (not_not.mpr rfl), if_pos rfl]

/-- Inside a component nothing is deleted before its last byte. -/
theorem pathDropDots_append {text : List Byte} (clean : slash ∉ text) {last : Byte}
    (other : last ≠ slash) (rest : List Byte) :
    pathDropDots (text ++ last :: rest) = text ++ pathDropDots (last :: rest) := by
  induction text with
  | nil => rfl
  | cons c text ih =>
    rw [List.mem_cons, not_or] at clean
    rw [List.cons_append, List.cons_append, ← ih clean.2]
    by_cases here : c = dot
    · subst here
      cases text with
      | nil => exact pathDropDots_dot other rest
      | cons next text =>
        rw [List.mem_cons, not_or] at clean
        exact pathDropDots_dot (Ne.symm clean.2.1) _
    · exact pathDropDots_cons here _

variable {trailing : List Byte}

theorem squash_cons (merged : Bool) (comp : List Byte) (rest : List (List Byte)) :
    squash trailing merged (comp :: rest) =
      (if merged then [] else [slash]) ++
        if comp.getLast? = some dot ∧ ¬ (merged ∧ comp = [dot]) then
          comp.dropLast ++ squash trailing true rest
        else comp ++ squash trailing false rest := by
  rw [squash]
  split <;> rfl

theorem squash_ends {comp : List Byte} (ends : comp.getLast? = some dot) (other : comp ≠ [dot])
    (merged : Bool) (rest : List (List Byte)) :
    squash trailing merged (comp :: rest) =
      (if merged then [] else [slash]) ++ (comp.dropLast ++ squash trailing true rest) := by
  rw [squash]
  exact if_pos ⟨ends, fun both => other both.2⟩

theorem squash_not_ends {comp : List Byte} (ends : comp.getLast? ≠ some dot) (merged : Bool)
    (rest : List (List Byte)) :
    squash trailing merged (comp :: rest) =
      (if merged then [] else [slash]) ++ (comp ++ squash trailing false rest) := by
  rw [squash]
  exact if_neg fun both => ends both.1

theorem squash_concat (merged : Bool) (init : List Byte) (last : Byte) (rest : List (List Byte)) :
    squash trailing merged ((init ++ [last]) :: rest) =
      (if merged then [] else [slash]) ++
        if last = dot ∧ ¬ (merged ∧ init = []) then init ++ squash trailing true rest
        else init ++ (last :: squash trailing false rest) := by
  have ends : ((init ++ [last]).getLast? = some dot ∧ ¬ (merged = true ∧ init ++ [last] = [dot])) ↔
      last = dot ∧ ¬ (merged = true ∧ init = []) := by
    rw [List.getLast?_concat, Option.some_inj]
    by_cases here : last = dot
    · rw [here]
      simp
    · exact iff_of_false (fun both => here both.1) fun both => here both.1
  rw [squash_cons, List.dropLast_concat]
  simp only [ends, List.append_assoc, List.singleton_append]

theorem pathDropDots_end (shape : trailing = [] ∨ trailing = [slash]) :
    pathDropDots (dot :: trailing) = [] := by
  rcases shape with rfl | rfl
  · rw [pathDropDots.eq_def]
    exact if_neg (not_not.mpr rfl)
  · rw [pathDropDots.eq_def]
    show (if dot ≠ dot then _ else if slash = slash then _ else _) = _
    rw [if_neg (not_not.mpr rfl), if_pos rfl]

/-- The second pass on what the first one leaves, from a component on and from the byte behind the
    first one of a component on. -/
theorem pathDropDots_separated (shape : trailing = [] ∨ trailing = [slash])
    {comps : List (List Byte)} (wf : ∀ comp ∈ comps, IsComponent slash comp) :
    pathDropDots (separated slash comps ++ trailing) = squash trailing false comps ∧
      ∀ first text rest, comps = (first :: text) :: rest →
        first :: pathDropDots (text ++ (separated slash rest ++ trailing)) =
          squash trailing true comps := by
  induction comps with
  | nil =>
    constructor
    · rcases shape with rfl | rfl
      · rfl
      · exact pathDropDots_cons (by decide) []
    · exact nofun
  | cons comp rest ih =>
    obtain ⟨normal, moved⟩ := ih fun other inside => wf other (List.mem_cons_of_mem _ inside)
    obtain ⟨some, clean⟩ := wf comp List.mem_cons_self
    -- from the last byte of a component on
    have atLast (last : Byte) (other : last ≠ slash) :
        pathDropDots (last :: (separated slash rest ++ trailing)) =
          if last = dot then squash trailing true rest else last :: squash trailing false rest := by
      by_cases here : last = dot
      · subst here
        rw [if_pos rfl]
        cases rest with
        | nil => exact pathDropDots_end shape
        | cons next rest =>
          obtain ⟨nonempty, -⟩ := wf next (by simp)
          obtain ⟨first, text, rfl⟩ := List.exists_cons_of_ne_nil nonempty
          rw [← moved first text rest rfl, separated_cons, List.cons_append, List.append_assoc,
            List.cons_append, pathDropDots_dot_slash]
      · rw [if_neg here, pathDropDots_cons here, normal]
    obtain ⟨init, last, rfl⟩ : ∃ init last, comp = init ++ [last] :=
      ⟨comp.dropLast, comp.getLast some, (List.dropLast_append_getLast some).symm⟩
    rw [List.mem_append, not_or, List.mem_singleton] at clean
    obtain ⟨clean, other⟩ := clean
    have wholly (init : List Byte) (clean : slash ∉ init) :
        pathDropDots (init ++ last :: (separated slash rest ++ trailing)) =
          if last = dot then init ++ squash trailing true rest
          else init ++ (last :: squash trailing false rest) := by
      rw [pathDropDots_append clean (Ne.symm other), atLast last (Ne.symm other)]
      split <;> rfl
    constructor
    · rw [separated_cons, List.cons_append, pathDropDots_cons (by decide), squash_concat,
        List.append_assoc, List.append_assoc, List.singleton_append, wholly init clean,
        if_neg Bool.false_ne_true]
      by_cases here : last = dot
      · rw [if_pos here, if_pos ⟨here, fun both => Bool.false_ne_true both.1⟩]
        rfl
      · rw [if_neg here, if_neg fun both => here both.1]
        rfl
    · intro first text rest' same
      rw [List.cons.injEq] at same
      obtain ⟨same, rfl⟩ := same
      rw [squash_concat, if_pos rfl]
      cases init with
      | nil =>
        cases same
        rw [List.nil_append, normal, if_neg fun both => both.2 ⟨rfl, rfl⟩]
        rfl
      | cons first' init =>
        rw [List.cons_append, List.cons.injEq] at same
        obtain ⟨rfl, rfl⟩ := same
        rw [List.mem_cons, not_or] at clean
        rw [List.append_assoc, List.singleton_append, wholly init clean.2]
        by_cases here : last = dot
        · rw [if_pos here, if_pos ⟨here, fun both => List.cons_ne_nil _ _ both.2⟩]
          rfl
        · rw [if_neg here, if_neg fun both => here both.1]
          rfl

end DropDots

theorem pathMakeCanonical_absolute {path : List Byte} (absolute : Absolute path) :
    ∃ trailing, (trailing = [] ∨ trailing = [slash]) ∧
      (components slash path = [] → trailing = [slash]) ∧
      pathMakeCanonical path =
        pathStripSlash (squash trailing false (components slash path)) := by
  obtain ⟨trailing, shape, alone, same⟩ := pathDropSlashes_absolute absolute
  refine ⟨trailing, shape, alone, ?_⟩
  unfold pathMakeCanonical
  rw [same, (pathDropDots_separated shape fun comp => isComponent_of_mem_components).1]

section Spelled

variable {trailing : List Byte}

/-- What a component without its last dot keeps of its dots. -/
def dotWeight (comp : List Byte) : Nat :=
  if comp.getLast? = some dot then comp.dropLast.count dot else comp.count dot

def dotWeights (comps : List (List Byte)) : Nat := (comps.map dotWeight).sum

theorem dotWeight_le (comp : List Byte) : dotWeight comp ≤ comp.count dot := by
  unfold dotWeight
  split
  · exact (List.dropLast_sublist comp).count_le dot
  · exact Nat.le_refl _

theorem dotWeights_cons (comp : List Byte) (rest : List (List Byte)) :
    dotWeights (comp :: rest) = dotWeight comp + dotWeights rest := by
  unfold dotWeights
  rw [List.map_cons, List.sum_cons]

theorem count_lead (merged : Bool) (text : List Byte) :
    ((if merged then [] else [slash]) ++ text).count dot = text.count dot := by
  cases merged
  · rw [List.count_append]
    simp
  · rfl

/-- The dots of what the second pass leaves: the weights of the components and one for each
    component `.` that it does not look at. -/
theorem count_squash (trailing : List Byte) (merged : Bool)
    (comps : List (List Byte)) :
    dotWeights comps ≤ (squash trailing merged comps).count dot := by
  induction comps generalizing merged with
  | nil => exact Nat.zero_le _
  | cons comp rest ih =>
    rw [squash_cons, count_lead, dotWeights_cons]
    split
    · rename_i ends
      rw [List.count_append]
      have later := ih true
      unfold dotWeight
      rw [if_pos ends.1]
      omega
    · rw [List.count_append]
      have later := ih false
      have first := dotWeight_le comp
      omega

/-- A component `.` right behind one that ends in a dot leaves a dot too many. -/
theorem count_squash_of_not_dotsApart (trailing : List Byte) (merged : Bool)
    {comps : List (List Byte)} (close : ¬ DotsApart comps) :
    dotWeights comps < (squash trailing merged comps).count dot := by
  induction comps generalizing merged with
  | nil => exact absurd .nil close
  | cons comp rest ih =>
    rw [squash_cons, count_lead, dotWeights_cons]
    cases rest with
    | nil => exact absurd (.singleton _) close
    | cons next rest =>
      unfold DotsApart at close ih
      rw [List.isChain_cons_cons, not_and_or] at close
      have first := dotWeight_le comp
      split
      · rename_i ends
        rw [List.count_append]
        have weight : dotWeight comp = comp.dropLast.count dot := if_pos ends.1
        rcases close with here | later
        · push Not at here
          obtain ⟨-, rfl⟩ := here
          have kept := count_squash trailing false rest
          rw [squash_cons, count_lead, if_neg fun both => both.2 ⟨rfl, rfl⟩, List.count_append,
            dotWeights_cons]
          have light : dotWeight [dot] = 0 := by decide
          have one : ([dot] : List Byte).count dot = 1 := by decide
          omega
        · have more := ih true later
          omega
      · rename_i kept
        rw [List.count_append]
        rcases close with here | later
        · -- the component itself is a dot that is not looked at
          push Not at here
          rw [not_and_not_right] at kept
          obtain ⟨-, rfl⟩ := kept here.1
          have later := count_squash trailing false (next :: rest)
          have light : dotWeight [dot] = 0 := by decide
          have one : ([dot] : List Byte).count dot = 1 := by decide
          omega
        · have more := ih false later
          omega

theorem count_squash_eq (shape : trailing = [] ∨ trailing = [slash]) (merged : Bool)
    {comps : List (List Byte)} (plain : [dot] ∉ comps) :
    (squash trailing merged comps).count dot = dotWeights comps := by
  induction comps generalizing merged with
  | nil =>
    rw [squash]
    rcases shape with rfl | rfl
    · cases merged <;> rfl
    · cases merged <;> rfl
  | cons comp rest ih =>
    rw [List.mem_cons, not_or] at plain
    rw [dotWeights_cons]
    unfold dotWeight
    by_cases ends : comp.getLast? = some dot
    · rw [squash_ends ends (Ne.symm plain.1), count_lead, if_pos ends, List.count_append,
        ih true plain.2]
    · rw [squash_not_ends ends, count_lead, if_neg ends, List.count_append, ih false plain.2]

theorem count_pathStripSlash (path : List Byte) :
    (pathStripSlash path).count dot = path.count dot := by
  unfold pathStripSlash
  split
  · rename_i strip
    obtain ⟨init, rfl⟩ := List.getLast?_eq_some_iff.mp strip.2
    rw [List.dropLast_concat, List.count_append]
    rfl
  · rfl

theorem dotWeights_append (comps rest : List (List Byte)) :
    dotWeights (comps ++ rest) = dotWeights comps + dotWeights rest := by
  unfold dotWeights
  rw [List.map_append, List.sum_append]

theorem dotWeights_dropLast (comps : List (List Byte)) :
    dotWeights comps.dropLast ≤ dotWeights comps := by
  rcases List.eq_nil_or_concat comps with rfl | ⟨init, last, rfl⟩
  · exact Nat.le_refl _
  · rw [List.concat_eq_append, List.dropLast_concat, dotWeights_append]
    exact Nat.le_add_right _ _

/-- Each `..` weighs a dot that resolving takes away. -/
theorem dotWeights_foldl (comps resolved : List (List Byte)) :
    dotWeights (comps.foldl resolveStep resolved) + comps.count [dot, dot] ≤
      dotWeights resolved + dotWeights comps := by
  induction comps generalizing resolved with
  | nil => exact Nat.le_refl _
  | cons comp rest ih =>
    rw [List.foldl_cons, List.count_cons, dotWeights_cons]
    have later := ih (resolveStep resolved comp)
    unfold resolveStep at later ⊢
    by_cases one : comp = [dot]
    · subst one
      rw [if_pos rfl] at later ⊢
      have other : (([dot] : List Byte) == [dot, dot]) = false := by decide
      rw [other, if_neg Bool.false_ne_true]
      omega
    · rw [if_neg one] at later ⊢
      by_cases two : comp = [dot, dot]
      · subst two
        have fewer := dotWeights_dropLast resolved
        have weight : dotWeight [dot, dot] = 1 := by decide
        rw [if_pos rfl] at later ⊢
        rw [beq_self_eq_true, if_pos rfl]
        omega
      · rw [if_neg two] at later ⊢
        rw [beq_eq_false_iff_ne.mpr two, if_neg Bool.false_ne_true]
        have grown := dotWeights_append resolved [comp]
        rw [dotWeights_cons] at grown
        have none : dotWeights [] = 0 := rfl
        omega

theorem mem_foldl_resolveStep {comps resolved : List (List Byte)} {comp : List Byte}
    (member : comp ∈ comps.foldl resolveStep resolved) :
    comp ∈ resolved ∨ comp ∈ comps ∧ comp ≠ [dot] ∧ comp ≠ [dot, dot] := by
  induction comps generalizing resolved with
  | nil => exact .inl member
  | cons first rest ih =>
    rcases ih member with inside | ⟨later, plain⟩
    · unfold resolveStep at inside
      split at inside
      · exact .inl inside
      · split at inside
        · exact .inl (List.mem_of_mem_dropLast inside)
        · rename_i one two
          rcases List.mem_append.mp inside with before | here
          · exact .inl before
          · cases List.mem_singleton.mp here
            exact .inr ⟨List.mem_cons_self, one, two⟩
    · exact .inr ⟨List.mem_cons_of_mem _ later, plain⟩

theorem mem_resolveComponents {comps : List (List Byte)} {comp : List Byte}
    (member : comp ∈ resolveComponents comps) :
    comp ∈ comps ∧ comp ≠ [dot] ∧ comp ≠ [dot, dot] := by
  rcases mem_foldl_resolveStep member with inside | found
  · cases inside
  · exact found

/-- Without `..` resolving only drops the components `.`. -/
theorem foldl_resolveStep_eq_filter {comps : List (List Byte)} (up : [dot, dot] ∉ comps)
    (resolved : List (List Byte)) :
    comps.foldl resolveStep resolved = resolved ++ comps.filter (· ≠ [dot]) := by
  induction comps generalizing resolved with
  | nil => exact (List.append_nil _).symm
  | cons comp rest ih =>
    rw [List.mem_cons, not_or] at up
    rw [List.foldl_cons, ih up.2, List.filter_cons]
    unfold resolveStep
    by_cases one : comp = [dot]
    · rw [if_pos one, if_neg (by simpa using one)]
    · rw [if_neg one, if_neg (Ne.symm up.1), if_pos (by simpa using one), List.append_assoc,
        List.singleton_append]

theorem squash_merge {comp : List Byte} (other : comp ≠ [dot]) (rest : List (List Byte)) :
    squash trailing false (comp :: rest) = slash :: squash trailing true (comp :: rest) := by
  by_cases ends : comp.getLast? = some dot
  · rw [squash_ends ends other, squash_ends ends other]
    rfl
  · rw [squash_not_ends ends, squash_not_ends ends]
    rfl

/-- Where the dots are apart the second pass makes the same of the components with and without the
    components `.`, but for a slash at the end. -/
theorem squash_filter (shape : trailing = [] ∨ trailing = [slash]) {comps : List (List Byte)}
    (apart : DotsApart comps) (merged : Bool) (start : merged → comps.head? ≠ some [dot]) :
    ∃ rest, (rest = [] ∨ rest = [slash]) ∧
      (merged = false → comps.filter (· ≠ [dot]) = [] → (comps = [] → trailing = [slash]) →
        rest = [slash]) ∧
      squash trailing merged comps = squash [] merged (comps.filter (· ≠ [dot])) ++ rest := by
  induction comps generalizing merged with
  | nil =>
    cases merged with
    | false => exact ⟨trailing, shape, fun _ _ alone => alone rfl, rfl⟩
    | true => exact ⟨[], .inl rfl, nofun, rfl⟩
  | cons comp comps ih =>
    have later : DotsApart comps := by
      cases comps with
      | nil => exact .nil
      | cons next comps => exact (List.isChain_cons_cons.mp apart).2
    by_cases one : comp = [dot]
    · subst one
      cases merged with
      | true => exact absurd rfl (start rfl)
      | false =>
        have dropped : squash trailing false ([dot] :: comps) = slash :: squash trailing true comps :=
          rfl
        rw [List.filter_cons, if_neg (by decide), dropped]
        cases comps with
        | nil => exact ⟨[slash], .inr rfl, fun _ _ _ => rfl, rfl⟩
        | cons next comps =>
          have other : next ≠ [dot] := (List.isChain_cons_cons.mp apart).1 rfl
          obtain ⟨rest, form, alone, same⟩ := ih later false nofun
          rw [← squash_merge other, same]
          exact ⟨rest, form, fun merged none _ => alone merged none nofun, rfl⟩
    · rw [List.filter_cons, if_pos (by simpa using one)]
      by_cases ends : comp.getLast? = some dot
      · have start : comps.head? ≠ some [dot] := by
          cases comps with
          | nil => exact nofun
          | cons next comps =>
            intro here
            cases here
            exact (List.isChain_cons_cons.mp apart).1 ends rfl
        obtain ⟨rest, form, -, same⟩ := ih later true fun _ => start
        rw [squash_ends ends one, squash_ends ends one, same]
        exact ⟨rest, form, nofun, by simp only [List.append_assoc]⟩
      · obtain ⟨rest, form, -, same⟩ := ih later false nofun
        rw [squash_not_ends ends, squash_not_ends ends, same]
        exact ⟨rest, form, nofun, by simp only [List.append_assoc]⟩

theorem getLast?_squash {comps : List (List Byte)}
    (wf : ∀ comp ∈ comps, IsComponent slash comp) (plain : [dot] ∉ comps) (merged : Bool) :
    (squash [] merged comps).getLast? ≠ some slash := by
  induction comps generalizing merged with
  | nil => cases merged <;> exact nofun
  | cons comp rest ih =>
    rw [List.mem_cons, not_or] at plain
    obtain ⟨nonempty, clean⟩ := wf comp List.mem_cons_self
    have later := ih (fun other inside => wf other (List.mem_cons_of_mem _ inside)) plain.2
    have behind (body : List Byte) (nonempty : body ≠ []) (clean : slash ∉ body)
        (tail : List Byte) (ended : tail.getLast? ≠ some slash) (lead : List Byte) :
        (lead ++ (body ++ tail)).getLast? ≠ some slash := by
      obtain ⟨last, found⟩ := Option.isSome_iff_exists.mp (List.getLast?_isSome.mpr nonempty)
      rw [List.getLast?_append, List.getLast?_append, found]
      cases here : tail.getLast? with
      | none =>
        rintro same
        cases same
        exact clean (List.mem_of_getLast? found)
      | some byte =>
        rintro same
        cases same
        exact ended here
    by_cases ends : comp.getLast? = some dot
    · rw [squash_ends ends (Ne.symm plain.1)]
      refine behind _ ?_ (fun inside => clean (List.mem_of_mem_dropLast inside)) _ (later true) _
      intro none
      obtain ⟨init, rfl⟩ := List.getLast?_eq_some_iff.mp ends
      rw [List.dropLast_concat] at none
      rw [none] at plain
      exact plain.1 rfl
    · rw [squash_not_ends ends]
      exact behind _ nonempty clean _ (later false) _

theorem squash_ne_nil {comps : List (List Byte)} (some : comps ≠ []) :
    squash trailing false comps ≠ [] := by
  obtain ⟨comp, rest, rfl⟩ := List.exists_cons_of_ne_nil some
  rw [squash_cons]
  exact nofun

/-- Where the dots are apart the canonical path of the code is that of the components other than
    `.`. -/
theorem pathStripSlash_squash (shape : trailing = [] ∨ trailing = [slash])
    {comps : List (List Byte)} (wf : ∀ comp ∈ comps, IsComponent slash comp)
    (alone : comps = [] → trailing = [slash]) (apart : DotsApart comps) :
    pathStripSlash (squash trailing false comps) =
      if comps.filter (· ≠ [dot]) = [] then [slash]
      else squash [] false (comps.filter (· ≠ [dot])) := by
  obtain ⟨rest, form, bare, same⟩ := squash_filter shape apart false nofun
  rw [same]
  by_cases none : comps.filter (· ≠ [dot]) = []
  · rw [if_pos none, none, bare rfl none alone]
    rfl
  · rw [if_neg none]
    have long := List.length_pos_iff.mpr (@squash_ne_nil [] _ none)
    have unended : (squash [] false (comps.filter (· ≠ [dot]))).getLast? ≠ some slash := by
      apply getLast?_squash
      · exact fun comp member => wf comp (List.mem_of_mem_filter member)
      · simp
    unfold pathStripSlash
    rcases form with rfl | rfl
    · rw [List.append_nil, if_neg fun both => unended both.2]
    · rw [if_pos, List.dropLast_concat]
      refine ⟨?_, List.getLast?_concat⟩
      rw [List.length_append, List.length_singleton]
      omega

theorem dotsApart_of_plain {comps : List (List Byte)} (plain : [dot] ∉ comps) :
    DotsApart comps := by
  induction comps with
  | nil => exact .nil
  | cons comp rest ih =>
    rw [List.mem_cons, not_or] at plain
    cases rest with
    | nil => exact .singleton _
    | cons next rest =>
      refine List.isChain_cons_cons.mpr ⟨?_, ih plain.2⟩
      rintro - rfl
      exact plain.2 List.mem_cons_self

end Spelled

section Canonical

variable {path : List Byte}

theorem joinComponents_absolute (comps : List (List Byte)) : Absolute (joinComponents comps) := by
  unfold joinComponents
  split
  · rfl
  · rename_i some
    obtain ⟨comp, rest, same⟩ := List.exists_cons_of_ne_nil some
    rw [same]
    rfl

theorem canonicalPath_absolute (path : List Byte) : Absolute (canonicalPath path) :=
  joinComponents_absolute _

theorem components_joinComponents {comps : List (List Byte)}
    (wf : ∀ comp ∈ comps, IsComponent slash comp) :
    components slash (joinComponents comps) = comps := by
  unfold joinComponents
  split
  · rename_i none
    rw [none]
    rfl
  · exact components_separated wf

theorem components_canonicalPath (path : List Byte) :
    components slash (canonicalPath path) = resolveComponents (components slash path) :=
  components_joinComponents fun _ member =>
    isComponent_of_mem_components (mem_resolveComponents member).1

theorem Canonical.join (canonical : Canonical path) :
    joinComponents (components slash path) = path := by
  have same := components_canonicalPath path
  rw [canonical] at same
  unfold Canonical canonicalPath at canonical
  rw [← same] at canonical
  exact canonical

theorem not_mem_resolveComponents (comps : List (List Byte)) :
    [dot] ∉ resolveComponents comps ∧ [dot, dot] ∉ resolveComponents comps :=
  ⟨fun member => (mem_resolveComponents member).2.1 rfl,
    fun member => (mem_resolveComponents member).2.2 rfl⟩

theorem pathMakeCanonical_spelled (absolute : Absolute path) (spelled : Spelled path) :
    pathMakeCanonical path =
      if (components slash path).filter (· ≠ [dot]) = [] then [slash]
      else squash [] false ((components slash path).filter (· ≠ [dot])) := by
  obtain ⟨trailing, shape, alone, same⟩ := pathMakeCanonical_absolute absolute
  rw [same]
  exact pathStripSlash_squash shape (fun _ => isComponent_of_mem_components) alone spelled.2

theorem spelled_canonicalPath (path : List Byte) : Spelled (canonicalPath path) := by
  have plain := not_mem_resolveComponents (components slash path)
  unfold Spelled
  rw [components_canonicalPath]
  exact ⟨plain.2, dotsApart_of_plain plain.1⟩

/-- The code takes a path and its canonical spelling to the same string exactly where the path has
    no `..` and no `.` behind a dot: each of the others leaves a dot too many. -/
theorem pathMakeCanonical_canonicalPath (absolute : Absolute path) :
    pathMakeCanonical path = pathMakeCanonical (canonicalPath path) ↔ Spelled path := by
  have plain := not_mem_resolveComponents (components slash path)
  constructor
  · intro same
    obtain ⟨trailing, -, -, left⟩ := pathMakeCanonical_absolute absolute
    obtain ⟨trailing', shape, -, right⟩ := pathMakeCanonical_absolute (canonicalPath_absolute path)
    have dots := congrArg (List.count dot) same
    rw [left, right, count_pathStripSlash, count_pathStripSlash, components_canonicalPath,
      count_squash_eq shape false plain.1] at dots
    have resolved := dotWeights_foldl (components slash path) []
    have least := count_squash trailing false (components slash path)
    have none : dotWeights [] = 0 := rfl
    unfold resolveComponents at dots
    refine ⟨fun up => ?_, ?_⟩
    · have some := List.count_pos_iff.mpr up
      omega
    · by_contra close
      have more := count_squash_of_not_dotsApart trailing false close
      omega
  · intro spelled
    have same : resolveComponents (components slash path) =
        (components slash path).filter (· ≠ [dot]) :=
      foldl_resolveStep_eq_filter spelled.1 []
    have again : (resolveComponents (components slash path)).filter (· ≠ [dot]) =
        resolveComponents (components slash path) := by
      rw [List.filter_eq_self]
      intro comp member
      exact decide_eq_true (mem_resolveComponents member).2.1
    rw [pathMakeCanonical_spelled absolute spelled,
      pathMakeCanonical_spelled (canonicalPath_absolute path) (spelled_canonicalPath path),
      components_canonicalPath, again, same]

theorem pathDropSlashes_sublist (hitDel : Bool) (path : List Byte) :
    (pathDropSlashes hitDel path).Sublist path := by
  induction path generalizing hitDel with
  | nil => exact .slnil
  | cons c rest ih =>
    rw [pathDropSlashes]
    split
    · split
      · exact (ih true).cons c
      · exact (ih true).cons_cons c
    · exact (ih false).cons_cons c

theorem pathDropDots_sublist (path : List Byte) : (pathDropDots path).Sublist path := by
  fun_induction pathDropDots path with
  | case1 => exact .slnil
  | case2 c rest other ih => exact ih.cons_cons c
  | case3 c => exact List.nil_sublist _
  | case4 c => exact List.nil_sublist _
  | case5 c kept next other ih => exact ih.cons_cons c
  | case6 c kept moved rest ih => exact ((ih.cons_cons moved).cons slash).cons c
  | case7 c kept next moved rest other ih => exact ih.cons_cons c

/-- Making a path canonical only takes bytes away. -/
theorem pathMakeCanonical_sublist (path : List Byte) : (pathMakeCanonical path).Sublist path := by
  have last (path : List Byte) : (pathStripSlash path).Sublist path := by
    unfold pathStripSlash
    split
    · exact List.dropLast_sublist path
    · exact .refl path
  exact ((last _).trans (pathDropDots_sublist _)).trans (pathDropSlashes_sublist false path)

theorem pathMakeCanonical_length (path : List Byte) :
    (pathMakeCanonical path).length ≤ path.length := (pathMakeCanonical_sublist path).length_le

theorem absolute_pathStripSlash (absolute : Absolute path) : Absolute (pathStripSlash path) := by
  obtain ⟨rest, rfl⟩ := List.head?_eq_some_iff.mp absolute
  unfold pathStripSlash
  split
  · rename_i strip
    cases rest with
    | nil => simp at strip
    | cons c rest => rfl
  · rfl

theorem absolute_pathMakeCanonical (absolute : Absolute path) :
    Absolute (pathMakeCanonical path) := by
  obtain ⟨trailing, -, alone, same⟩ := pathMakeCanonical_absolute absolute
  rw [same]
  apply absolute_pathStripSlash
  cases here : components slash path with
  | nil =>
    rw [alone here]
    rfl
  | cons comp rest =>
    rw [squash_cons]
    rfl

end Canonical

end Dxgmx
