import Dxgmx.Tools.ConfigMenus

open Library

namespace Dxgmx

/-- A key that the loader can read. -/
structure PlainName (name : List Byte) : Prop where
  some_ : name ≠ []
  plain : ∀ c ∈ name, isspace c = false ∧ c ≠ 0x3d
  comment : name.head? ≠ some 0x23
  directive : ¬ascii "include" <+: name

structure PlainValue (value : List Byte) : Prop where
  some_ : value ≠ []
  plain : ∀ c ∈ value, isspace c = false

theorem PlainValue.strip {value : List Byte} (plain : PlainValue value) :
    value.filter (fun c => !isspace c) = value := by
  rw [List.filter_eq_self]
  intro c member
  rw [plain.plain c member]
  rfl

theorem PlainName.strip {name : List Byte} (plain : PlainName name) :
    name.filter (fun c => !isspace c) = name := by
  rw [List.filter_eq_self]
  intro c member
  rw [(plain.plain c member).1]
  rfl

theorem parseConfLine_plain {line key value : List Byte}
    (parsed : parseConfLine line = .option key value) : PlainName key ∧ PlainValue value := by
  unfold parseConfLine at parsed
  have stripped : ∀ c ∈ line.filter fun c => !isspace c, isspace c = false := by
    intro c member
    simpa using (List.mem_filter.mp member).2
  generalize line.filter (fun c => !isspace c) = text at parsed stripped
  dsimp only at parsed
  split at parsed
  · cases parsed
  · split at parsed
    · cases parsed
    · rename_i comment
      split at parsed
      · cases parsed
      · rename_i directive
        split at parsed
        · cases parsed
        · rename_i member
          split at parsed
          · cases parsed
          · rename_i some_
            obtain ⟨absent, split⟩ := split_at_sep (by simpa using member)
            rcases ConfLine.option.inj parsed with ⟨rfl, rfl⟩
            generalize text.takeWhile (· ≠ 0x3d) = key at *
            generalize (text.dropWhile (· ≠ 0x3d)).drop 1 = value at *
            subst split
            rcases not_or.mp some_ with ⟨key_, value_⟩
            refine ⟨⟨key_, fun c inside => ⟨?_, ?_⟩, ?_, ?_⟩, value_, fun c inside => ?_⟩
            · exact stripped c (List.mem_append_left _ inside)
            · rintro rfl
              exact absent inside
            · rw [List.head?_append_of_ne_nil _ key_] at comment
              exact comment
            · exact fun starts => directive (starts.trans (List.prefix_append _ _))
            · exact stripped c (List.mem_append_right _ (List.mem_cons_of_mem _ inside))

theorem parseConfLine_definition {name value : List Byte} (plain : PlainName name)
    (plain' : PlainValue value) :
    parseConfLine (name ++ ascii " = " ++ value) = .option name value := by
  have middle : (ascii " = ").filter (fun c => !isspace c) = [0x3d] := by decide
  have absent : 0x3d ∉ name := fun member => (plain.plain _ member).2 rfl
  rcases takeWhile_sep absent value with ⟨taken, dropped⟩
  unfold parseConfLine
  rw [List.filter_append, List.filter_append, plain.strip, plain'.strip, middle,
    List.append_assoc, List.singleton_append]
  dsimp only
  rw [taken, dropped, if_neg (by simp), if_neg, if_neg, if_neg (by simp)]
  · exact if_neg (not_or.mpr ⟨plain.some_, plain'.some_⟩)
  · exact fun starts => plain.directive (prefix_before_sep (by decide) starts)
  · rw [List.head?_append_of_ne_nil _ plain.some_]
    exact plain.comment

/-- The key and the value that a line gives. -/
def confAssignment (line : List Byte) : Option (List Byte × List Byte) :=
  match parseConfLine line with
  | .option key value => some (key, value)
  | _ => none

theorem confAssignment_some {line key value : List Byte} :
    confAssignment line = some (key, value) ↔ parseConfLine line = .option key value := by
  unfold confAssignment
  split
  · rename_i parsed
    simp [parsed]
  · rename_i other
    simp only [reduceCtorEq, false_iff]
    exact other key value

def confAssignments (lines : List (List Byte)) : List (List Byte × List Byte) :=
  lines.filterMap confAssignment

theorem mem_confAssignments {lines : List (List Byte)} {key value : List Byte} :
    (key, value) ∈ confAssignments lines ↔ ∃ line ∈ lines, parseConfLine line = .option key value := by
  simp [confAssignments, List.mem_filterMap, confAssignment_some]

/-- An element after the assignments, of which the last counts. -/
def assigned (pairs : List (List Byte × List Byte)) (elem : ConfigInteractable) :
    ConfigInteractable :=
  match lastOf elem.name pairs with
  | none => elem
  | some value => { elem with set := true, value := value }

theorem assigned_name (pairs : List (List Byte × List Byte)) (elem : ConfigInteractable) :
    (assigned pairs elem).name = elem.name := by
  unfold assigned
  split <;> rfl

def ConfigTree.assignAll (pairs : List (List Byte × List Byte)) (tree : ConfigTree) :
    ConfigTree where
  optionsMap := tree.optionsMap.map (assigned pairs)
  keys := by
    rw [List.map_map, show ConfigInteractable.name ∘ assigned pairs = ConfigInteractable.name from
      funext (assigned_name pairs)]
    exact tree.keys

theorem assigned_cons (key value : List Byte) (pairs : List (List Byte × List Byte))
    (elem : ConfigInteractable) :
    assigned pairs (ConfigTree.setOption key value elem) = assigned ((key, value) :: pairs) elem := by
  unfold assigned
  rw [ConfigTree.setOption_name, lastOf]
  unfold ConfigTree.setOption
  cases lastOf elem.name pairs with
  | none =>
    by_cases same : elem.name = key
    · simp [same]
    · simp [same, Ne.symm same]
  | some last => by_cases same : elem.name = key <;> simp [same]

theorem ConfigTree.ext {tree other : ConfigTree} (same : tree.optionsMap = other.optionsMap) :
    tree = other := by
  cases tree
  cases other
  cases same
  rfl

/-- Loading answers 0 where every line is read and every key is known. -/
theorem loadLines_ok (lines : List (List Byte)) (tree loaded : ConfigTree) :
    ConfigTree.loadLines lines tree = (0, loaded) ↔
      (∀ line ∈ lines, parseConfLine line ≠ .bad) ∧
      (∀ pair ∈ confAssignments lines, pair.1 ∈ tree.optionsMap.map ConfigInteractable.name) ∧
      loaded.optionsMap = tree.optionsMap.map (assigned (confAssignments lines)) := by
  induction lines generalizing tree with
  | nil =>
    have unchanged : assigned (confAssignments []) = id := rfl
    rw [unchanged, List.map_id]
    constructor
    · intro done
      cases done
      exact ⟨nofun, nofun, rfl⟩
    · rintro ⟨-, -, same⟩
      rw [ConfigTree.ext same]
      rfl
  | cons line rest ih =>
    unfold ConfigTree.loadLines confAssignments
    cases parsed : parseConfLine line with
    | skip =>
      have none : confAssignment line = none := by simp [confAssignment, parsed]
      rw [List.filterMap_cons_none none, List.forall_mem_cons, parsed]
      exact (ih tree).trans (by simp [confAssignments])
    | bad =>
      rw [List.forall_mem_cons, parsed]
      simp
    | option key value =>
      have here := confAssignment_some.mpr parsed
      rw [List.filterMap_cons_some here, List.forall_mem_cons, List.forall_mem_cons, parsed]
      by_cases known : key ∈ tree.optionsMap.map ConfigInteractable.name
      · have names : (tree.assign key value).optionsMap.map ConfigInteractable.name =
            tree.optionsMap.map ConfigInteractable.name := by
          unfold ConfigTree.assign
          rw [List.map_map]
          apply List.map_congr_left
          intro elem _
          exact ConfigTree.setOption_name key value elem
        have elements : (tree.assign key value).optionsMap.map (assigned (confAssignments rest)) =
            tree.optionsMap.map (assigned ((key, value) :: confAssignments rest)) := by
          unfold ConfigTree.assign
          rw [List.map_map]
          apply List.map_congr_left
          intro elem _
          exact assigned_cons key value _ elem
        dsimp only
        rw [if_pos known, ih, names, elements]
        simp [known, confAssignments]
      · dsimp only
        rw [if_neg known]
        simp [known]

/-- The value that an element's own line gives it. -/
def ConfigInteractable.own (elem : ConfigInteractable) : List Byte :=
  if elem.inputType = .input then elem.value else ascii "y"

def moduleLines (mod : List Byte) : List (List Byte) := getLines newline (moduleInclude mod)

/-- The lines that a module has behind its first one. -/
def ConfigInteractable.strayLines (elem : ConfigInteractable) : List (List Byte) :=
  if elem.set = false then [] else elem.modules.flatMap fun mod => (moduleLines mod).tail

namespace ConfigTree

def strayLines (tree : ConfigTree) : List (List Byte) :=
  tree.optionsMap.flatMap ConfigInteractable.strayLines

/-- The lines behind the first of a module's are skipped, or give a set option what it has. -/
structure ModulesKeep (tree : ConfigTree) : Prop where
  read : ∀ line ∈ tree.strayLines, parseConfLine line ≠ .bad
  known : ∀ pair ∈ confAssignments tree.strayLines,
    ∃ elem ∈ tree.optionsMap, elem.name = pair.1 ∧ elem.set = true
  same : ∀ elem ∈ tree.optionsMap, elem.inputType = .input → ∀ value,
    lastOf elem.name (confAssignments tree.strayLines) = some value → value = elem.value

end ConfigTree

theorem definition_ended (elem : ConfigInteractable) : Ended newline elem.definition := by
  unfold ConfigInteractable.definition
  split
  · exact .inl rfl
  · split
    · exact .inr ⟨_, rfl⟩
    · exact .inr ⟨_, rfl⟩

theorem moduleInclude_ended (mod : List Byte) : Ended newline (moduleInclude mod) := .inr ⟨_, rfl⟩

theorem includes_ended (elem : ConfigInteractable) : Ended newline elem.includes := by
  unfold ConfigInteractable.includes
  split
  · exact .inl rfl
  · exact .flatMap fun mod _ => moduleInclude_ended mod

/-- The first line of a module is skipped. -/
theorem moduleLines_first (mod : List Byte) :
    ∃ line rest, moduleLines mod = line :: rest ∧ parseConfLine line = .skip := by
  have some_ : getLines newline (mod ++ ascii "/module.mk" ++ [newline]) ≠ [] := by
    rw [List.append_assoc]
    intro none
    cases mod with
    | nil => exact absurd none (by decide)
    | cons c mod =>
      rw [List.cons_append, getLines] at none
      split at none
      · cases none
      · split at none <;> cases none
  cases read : getLines newline (mod ++ ascii "/module.mk" ++ [newline]) with
  | nil => exact absurd read some_
  | cons line rest =>
    refine ⟨ascii "include " ++ line, rest, ?_, ?_⟩
    · unfold moduleLines moduleInclude
      rw [List.append_assoc, List.append_assoc, ← List.append_assoc mod]
      exact getLines_whole (by decide) read
    · have stripped : (ascii "include ").filter (fun c => !isspace c) = ascii "include" := by decide
      unfold parseConfLine
      rw [List.filter_append, stripped]
      dsimp only
      rw [if_neg (by simp [ascii]), if_neg (by simp [ascii]), if_pos (List.prefix_append _ _)]

/-- What is read of some lines, without those that are skipped. -/
def effects (lines : List (List Byte)) : List ConfLine :=
  (lines.map parseConfLine).filter (· ≠ .skip)

theorem effects_append (first second : List (List Byte)) :
    effects (first ++ second) = effects first ++ effects second := by
  simp [effects]

theorem effects_flatMap {β : Type} (xs : List β) (f : β → List (List Byte)) :
    effects (xs.flatMap f) = xs.flatMap fun x => effects (f x) := by
  induction xs with
  | nil => rfl
  | cons x rest ih => rw [List.flatMap_cons, effects_append, ih, List.flatMap_cons]

theorem effects_bad {lines : List (List Byte)} :
    (∀ line ∈ lines, parseConfLine line ≠ .bad) ↔ .bad ∉ effects lines := by
  simp [effects]

theorem confAssignments_effects (lines : List (List Byte)) :
    confAssignments lines = (effects lines).filterMap fun
      | .option key value => some (key, value)
      | _ => none := by
  unfold confAssignments effects
  rw [List.filterMap_filter, List.filterMap_map]
  apply List.filterMap_congr
  intro line _
  unfold confAssignment Function.comp
  cases parseConfLine line <;> rfl

theorem includes_effects (elem : ConfigInteractable) :
    effects (getLines newline elem.includes) = effects elem.strayLines := by
  unfold ConfigInteractable.includes ConfigInteractable.strayLines
  split
  · rfl
  · rw [getLines_flatMap fun mod _ => moduleInclude_ended mod, effects_flatMap, effects_flatMap]
    congr 1
    funext mod
    rcases moduleLines_first mod with ⟨line, rest, lines, skipped⟩
    change effects (moduleLines mod) = effects (moduleLines mod).tail
    rw [lines]
    simp [effects, skipped]

/-- What is read of a saved tree: its definitions, and what stands behind the first lines of the
    modules. -/
theorem saved_effects (tree : ConfigTree) :
    effects (getLines newline tree.saveToGnumakeFile) =
      (tree.optionsMap.flatMap fun elem => effects (getLines newline elem.definition)) ++
        effects tree.strayLines := by
  have definitions := getLines_flatMap fun elem (_ : elem ∈ tree.optionsMap) => definition_ended elem
  have includes := getLines_flatMap fun elem (_ : elem ∈ tree.optionsMap) => includes_ended elem
  have head : effects (getLines newline
      (ascii "# This file was auto-generated using the dxgmx configuration engine." ++ [newline] ++
        (ascii "# Manually edit at your own discretion." ++ [newline]) ++ [newline])) = [] := by
    rw [show ascii "# This file was auto-generated using the dxgmx configuration engine." = _ from
        ascii_ofList _,
      show ascii "# Manually edit at your own discretion." = _ from ascii_ofList _]
    decide
  have blank : effects (getLines newline [newline]) = [] := by decide
  have text : Ended newline (tree.optionsMap.flatMap ConfigInteractable.definition) :=
    .flatMap fun elem _ => definition_ended elem
  unfold ConfigTree.saveToGnumakeFile ConfigTree.strayLines
  rw [getLines_append (.inr ⟨_, rfl⟩), getLines_append (.append (.inr ⟨_, rfl⟩) text),
    getLines_append (.inr ⟨_, rfl⟩), definitions, includes, effects_append, effects_append,
    effects_append, head, blank, List.nil_append, List.append_nil, effects_flatMap,
    effects_flatMap, effects_flatMap]
  congr 1
  congr 1
  funext elem
  exact includes_effects elem

/-- A set option has a name, and an input a value, that the loader reads as it is. -/
def ConfigInteractable.Readable (elem : ConfigInteractable) : Prop :=
  elem.set = true → PlainName elem.name ∧ (elem.inputType = .input → PlainValue elem.value)

theorem ConfigInteractable.Readable.own {elem : ConfigInteractable} (readable : elem.Readable)
    (set : elem.set = true) : PlainValue elem.own := by
  unfold ConfigInteractable.own
  split
  · rename_i input
    exact (readable set).2 input
  · exact ⟨by decide, by decide⟩

theorem definition_effects {elem : ConfigInteractable} (readable : elem.Readable) :
    effects (getLines newline elem.definition) =
      if elem.set = true then [.option elem.name elem.own] else [] := by
  by_cases set : elem.set = true
  · have value := readable.own set
    have name := (readable set).1
    have text : elem.definition = elem.name ++ ascii " = " ++ elem.own ++ [newline] := by
      unfold ConfigInteractable.definition ConfigInteractable.own
      rw [if_neg (by simp [set])]
      split
      · rfl
      · rw [show ascii " = y" = ascii " = " ++ ascii "y" by decide, ← List.append_assoc]
    have whole : newline ∉ elem.name ++ ascii " = " ++ elem.own := by
      intro member
      rcases List.mem_append.mp member with member | member
      · rcases List.mem_append.mp member with member | member
        · exact absurd (name.plain _ member).1 (by decide)
        · exact absurd member (by decide)
      · exact absurd (value.plain _ member) (by decide)
    rw [if_pos set, text, getLines_line whole, effects, List.map_singleton,
      parseConfLine_definition name value]
    rfl
  · unfold ConfigInteractable.definition
    rw [if_neg set, if_pos (by simpa using set)]
    rfl

/-- What the definitions of a readable tree assign. -/
def ownAssignments (options : List ConfigInteractable) : List (List Byte × List Byte) :=
  (options.filter ConfigInteractable.set).map fun elem => (elem.name, elem.own)

theorem definitions_effects {options : List ConfigInteractable}
    (readable : ∀ elem ∈ options, elem.Readable) :
    (options.flatMap fun elem => effects (getLines newline elem.definition)) =
      (ownAssignments options).map fun pair => .option pair.1 pair.2 := by
  induction options with
  | nil => rfl
  | cons elem rest ih =>
    have later := ih fun other member => readable other (List.mem_cons_of_mem elem member)
    unfold ownAssignments at later ⊢
    rw [List.flatMap_cons, later, definition_effects (readable elem List.mem_cons_self)]
    by_cases set : elem.set = true
    · rw [if_pos set, List.filter_cons_of_pos set]
      rfl
    · rw [if_neg set, List.filter_cons_of_neg set]
      rfl

namespace ConfigTree

variable {tree : ConfigTree}

theorem eq_of_name {elem other : ConfigInteractable} (first : elem ∈ tree.optionsMap)
    (second : other ∈ tree.optionsMap) (same : elem.name = other.name) : elem = other :=
  List.inj_on_of_nodup_map tree.keys first second same

theorem lastOf_own {elem : ConfigInteractable} (member : elem ∈ tree.optionsMap) :
    lastOf elem.name (ownAssignments tree.optionsMap) =
      if elem.set = true then some elem.own else none := by
  have unique : ∀ value, (elem.name, value) ∈ ownAssignments tree.optionsMap ↔
      elem.set = true ∧ value = elem.own := by
    intro value
    unfold ownAssignments
    rw [List.mem_map]
    constructor
    · rintro ⟨other, inside, same⟩
      rcases List.mem_filter.mp inside with ⟨present, set⟩
      rcases Prod.mk.inj same with ⟨name, rfl⟩
      cases eq_of_name present member name
      exact ⟨set, rfl⟩
    · rintro ⟨set, rfl⟩
      exact ⟨elem, List.mem_filter.mpr ⟨member, set⟩, rfl⟩
  cases last : lastOf elem.name (ownAssignments tree.optionsMap) with
  | none =>
    rw [if_neg fun set => lastOf_none.mp last elem.own ((unique elem.own).mpr ⟨set, rfl⟩)]
  | some value =>
    rcases (unique value).mp (lastOf_mem last) with ⟨set, same⟩
    rw [if_pos set, same]

theorem assigned_unset (pairs : List (List Byte × List Byte)) (elem : ConfigInteractable) :
    (assigned pairs (unset elem)).name = elem.name ∧
      (assigned pairs (unset elem)).set = (lastOf elem.name pairs).isSome ∧
      (assigned pairs (unset elem)).value = (lastOf elem.name pairs).getD [] := by
  unfold assigned unset
  dsimp only
  cases lastOf elem.name pairs with
  | none => exact ⟨rfl, rfl, rfl⟩
  | some value => exact ⟨rfl, rfl, rfl⟩

theorem restores_iff {loaded : ConfigTree} {pairs : List (List Byte × List Byte)}
    (reached : loaded.optionsMap = tree.fresh.optionsMap.map (assigned pairs)) :
    tree.Restores loaded ↔ ∀ elem ∈ tree.optionsMap,
      (elem.set = true ↔ lastOf elem.name pairs ≠ none) ∧
      (elem.set = true → elem.inputType = .input → lastOf elem.name pairs = some elem.value) := by
  unfold fresh at reached
  rw [List.map_map] at reached
  constructor
  · intro restores elem member
    rcases restores elem member with ⟨other, inside, name, set, value⟩
    rw [reached] at inside
    rcases List.mem_map.mp inside with ⟨source, present, rfl⟩
    rcases assigned_unset pairs source with ⟨name', set', value'⟩
    cases eq_of_name present member (name'.symm.trans name)
    have flag := set'.symm.trans set
    have some_ : elem.set = true ↔ lastOf elem.name pairs ≠ none := by
      rw [← flag, Option.isSome_iff_ne_none]
    refine ⟨some_, fun here input => ?_⟩
    rcases Option.ne_none_iff_exists'.mp (some_.mp here) with ⟨last, found⟩
    have same := value'.symm.trans (value here input)
    rw [found] at same ⊢
    exact congrArg some same
  · intro last elem member
    rcases assigned_unset pairs elem with ⟨name, set, value⟩
    rcases last elem member with ⟨flag, same⟩
    refine ⟨assigned pairs (unset elem), ?_, name, ?_, fun here input => ?_⟩
    · rw [reached]
      exact List.mem_map_of_mem member
    · rw [set, Bool.eq_iff_iff, flag, Option.isSome_iff_ne_none]
    · rw [value, same here input]
      rfl

theorem saved_assignments (readable : ∀ elem ∈ tree.optionsMap, elem.Readable) :
    confAssignments (getLines newline tree.saveToGnumakeFile) =
      ownAssignments tree.optionsMap ++ confAssignments tree.strayLines := by
  rw [confAssignments_effects, confAssignments_effects tree.strayLines, saved_effects,
    definitions_effects readable, List.filterMap_append, List.filterMap_map]
  congr 1
  exact List.filterMap_some

theorem saved_bad (readable : ∀ elem ∈ tree.optionsMap, elem.Readable) :
    (∀ line ∈ getLines newline tree.saveToGnumakeFile, parseConfLine line ≠ .bad) ↔
      ∀ line ∈ tree.strayLines, parseConfLine line ≠ .bad := by
  rw [effects_bad, effects_bad, saved_effects, definitions_effects readable, List.mem_append,
    or_iff_right]
  simp

/-- A tree comes back from its own file exactly when the loader can read what is set, and the
    modules do not say anything else. -/
theorem conf_restores_iff (tree : ConfigTree) :
    (∃ loaded, loadOptionsFromConfFile tree.saveToGnumakeFile tree.fresh = (0, loaded) ∧
      tree.Restores loaded) ↔
      (∀ elem ∈ tree.optionsMap, elem.Readable) ∧ tree.ModulesKeep := by
  have names : tree.fresh.optionsMap.map ConfigInteractable.name =
      tree.optionsMap.map ConfigInteractable.name := by
    unfold fresh
    rw [List.map_map]
    rfl
  unfold loadOptionsFromConfFile
  constructor
  · rintro ⟨loaded, done, restores⟩
    rcases (loadLines_ok _ _ _).mp done with ⟨read, known, reached⟩
    have last := (restores_iff reached).mp restores
    have readable : ∀ elem ∈ tree.optionsMap, elem.Readable := by
      intro elem member set
      rcases last elem member with ⟨flag, same⟩
      rcases Option.ne_none_iff_exists'.mp (flag.mp set) with ⟨value, found⟩
      rcases mem_confAssignments.mp (lastOf_mem found) with ⟨line, -, parsed⟩
      refine ⟨(parseConfLine_plain parsed).1, fun input => ?_⟩
      rw [same set input] at found
      cases found
      exact (parseConfLine_plain parsed).2
    rw [saved_bad readable] at read
    rw [saved_assignments readable] at known last
    refine ⟨readable, read, fun pair member => ?_, fun elem member input value found => ?_⟩
    · have inside := List.mem_append_right (ownAssignments tree.optionsMap) member
      have key := known pair inside
      rw [names] at key
      rcases List.mem_map.mp key with ⟨elem, present, name⟩
      refine ⟨elem, present, name, (last elem present).1.mpr fun none => ?_⟩
      rw [name] at none
      exact lastOf_none.mp none pair.2 inside
    · rcases last elem member with ⟨flag, same⟩
      have all : lastOf elem.name (ownAssignments tree.optionsMap ++
          confAssignments tree.strayLines) = some value := by
        rw [lastOf_append, found]
        rfl
      have set : elem.set = true := flag.mpr (by simp [all])
      exact Option.some.inj (all.symm.trans (same set input))
  · rintro ⟨readable, keep⟩
    refine ⟨tree.fresh.assignAll (ownAssignments tree.optionsMap ++
      confAssignments tree.strayLines), (loadLines_ok _ _ _).mpr ⟨?_, ?_, ?_⟩, ?_⟩
    · exact (saved_bad readable).mpr keep.read
    · rw [saved_assignments readable, names]
      intro pair member
      rcases List.mem_append.mp member with own | stray
      · rcases List.mem_map.mp own with ⟨elem, inside, rfl⟩
        exact List.mem_map_of_mem (List.mem_filter.mp inside).1
      · rcases keep.known pair stray with ⟨elem, present, name, -⟩
        exact List.mem_map.mpr ⟨elem, present, name⟩
    · rw [saved_assignments readable]
      rfl
    · apply (restores_iff rfl).mpr
      intro elem member
      rw [lastOf_append, lastOf_own member]
      cases stray : lastOf elem.name (confAssignments tree.strayLines) with
      | none =>
        by_cases set : elem.set = true
        · simp only [if_pos set, Option.none_or]
          refine ⟨iff_of_true set (Option.some_ne_none _), fun _ input => ?_⟩
          unfold ConfigInteractable.own
          rw [if_pos input]
        · simp [set]
      | some value =>
        rcases keep.known _ (lastOf_mem stray) with ⟨other, present, name, set⟩
        cases eq_of_name present member name
        refine ⟨iff_of_true set (Option.some_ne_none value), fun _ input => ?_⟩
        exact congrArg some (keep.same elem member input value stray)

theorem modulesKeep_of_line (line : ∀ elem ∈ tree.optionsMap, elem.set = true →
    ∀ mod ∈ elem.modules, newline ∉ mod) : tree.ModulesKeep := by
  have none : tree.strayLines = [] := by
    apply List.flatMap_eq_nil_iff.mpr
    intro elem member
    unfold ConfigInteractable.strayLines
    by_cases set : elem.set = false
    · exact if_pos set
    · rw [if_neg set]
      apply List.flatMap_eq_nil_iff.mpr
      intro mod inside
      have whole : newline ∉ ascii "include " ++ mod ++ ascii "/module.mk" := by
        intro found
        rcases List.mem_append.mp found with found | found
        · rcases List.mem_append.mp found with found | found
          · exact absurd found (by decide)
          · exact line elem member (by simpa using set) mod inside found
        · exact absurd found (by decide)
      unfold moduleLines moduleInclude
      rw [getLines_line whole]
      rfl
  constructor <;> rw [none]
  · exact nofun
  · exact nofun
  · exact fun _ _ _ _ => nofun

/-- An input of the name "X" that is set to "a b". -/
def spacedTree : ConfigTree := ⟨[⟨ascii "X", true, ascii "a b", .input, []⟩], by decide⟩

theorem conf_strips_value :
    loadOptionsFromConfFile spacedTree.saveToGnumakeFile spacedTree.fresh =
      (0, ⟨[⟨ascii "X", true, ascii "ab", .input, []⟩], by decide⟩) ∧
    ¬∃ loaded, loadOptionsFromConfFile spacedTree.saveToGnumakeFile spacedTree.fresh = (0, loaded) ∧
      spacedTree.Restores loaded := by
  have done : loadOptionsFromConfFile spacedTree.saveToGnumakeFile spacedTree.fresh =
      (0, ⟨[⟨ascii "X", true, ascii "ab", .input, []⟩], by decide⟩) := by
    unfold ConfigTree.saveToGnumakeFile
    rw [show ascii "# This file was auto-generated using the dxgmx configuration engine." = _ from
        ascii_ofList _,
      show ascii "# Manually edit at your own discretion." = _ from ascii_ofList _]
    rfl
  refine ⟨done, ?_⟩
  rintro ⟨loaded, again, restores⟩
  cases done.symm.trans again
  rcases restores _ List.mem_cons_self with ⟨other, member, -, -, value⟩
  cases List.mem_singleton.mp member
  exact absurd (value rfl rfl) (by decide)

end ConfigTree

end Dxgmx
