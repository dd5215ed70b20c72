import Dxgmx.Library.OrderedVisits
import Dxgmx.Tools.ConfigMenus

open Library Relation

namespace Dxgmx

/-- What `define` changes of an element. -/
structure ConfigState where
  set : Bool
  value : Text
  deriving DecidableEq

abbrev ConfigStates := Nat → ConfigState

def ConfigStates.assign (inter : Nat) (value : Text) (state : ConfigStates) : ConfigStates :=
  Function.update state inter ⟨true, value⟩

/-- The key and the value of a rule, or `none` where one of them is bad. -/
def parseRule (rule : Text) : Option (Text × Text) :=
  let rule := rule.filter isNotSpace
  if rule.contains 0x3d then
    let key := rule.takeWhile (· ≠ 0x3d)
    let value := (rule.dropWhile (· ≠ 0x3d)).drop 1
    if key = [] then none else if value = [] then none else some (key, value)
  else some (rule, [])

namespace BuiltTree

def impliesOf (tree : BuiltTree) (inter : Nat) : List Text :=
  match tree.elements[inter]? with
  | none => []
  | some (_, elem) => elem.implies

/-- The loop of `conf_engine_resolve_implies`. What the call for an implied element answers is not
looked at. -/
def resolveRules (tree : BuiltTree) (inner : List Text → ConfigStates → Exec (Int × ConfigStates)) :
    List Text → ConfigStates → Exec (Int × ConfigStates)
  | [], state => .ok (0, state)
  | rule :: rest, state =>
    match parseRule rule with
    | none => .ok (-1, state)
    | some (key, value) =>
      match tree.optionsMap.lookup key with
      | none => .error .panic
      | some inter => do
        let (_, state) ← inner (tree.impliesOf inter) (state.assign inter value)
        resolveRules tree inner rest state

/-- The fuel bounds how deep the calls stand in each other. -/
def confEngineResolveImplies (tree : BuiltTree) : (fuel : Nat) → List Text → ConfigStates →
    Exec (Int × ConfigStates)
  | 0 => tree.resolveRules fun _ _ => .error .fuel
  | fuel + 1 => tree.resolveRules (tree.confEngineResolveImplies fuel)

/-- `define` of an option or of a menu. Without a value it is cleared. -/
def define (tree : BuiltTree) (fuel inter : Nat) (value : Text) (state : ConfigStates) :
    Exec (Int × ConfigStates) := do
  let (st, state) ← tree.confEngineResolveImplies fuel (tree.impliesOf inter) state
  if st < 0 then pure (-1, state) else pure (0, state.assign inter value)

/-- What the rules name, up to the first one that is bad. -/
def targets (tree : BuiltTree) : List Text → List (Option Nat)
  | [] => []
  | rule :: rest =>
    match parseRule rule with
    | none => []
    | some (key, _) => tree.optionsMap.lookup key :: tree.targets rest

def next (tree : BuiltTree) (inter : Nat) : List (Option Nat) := tree.targets (tree.impliesOf inter)

/-- The name in a rule: what comes before its first `=`, without blanks. -/
def impliedName (rule : Text) : Text := (rule.filter isNotSpace).takeWhile (· ≠ 0x3d)

/-- A rule of the one element names the other. -/
def Implies (tree : BuiltTree) (p q : Nat) : Prop :=
  ∃ rule ∈ tree.impliesOf p, tree.optionsMap.lookup (impliedName rule) = some q

/-- No rule of the element lacks its key or its value. -/
def WellFormed (tree : BuiltTree) (p : Nat) : Prop :=
  ∀ rule ∈ tree.impliesOf p, parseRule rule ≠ none

def Set (state : ConfigStates) (p : Nat) : Prop := (state p).set = true

variable {tree : BuiltTree} {rules : List Text} {state state' : ConfigStates} {st : Int}
variable {fuel p q : Nat} {value : Text}

/-- What is left of a call without what it answers. -/
def ends {α : Type} (x : Exec α) : Exec Unit := x >>= fun _ => pure ()

theorem ends_ok {α : Type} {x : Exec α} : ends x = .ok () ↔ ∃ a, x = .ok a := by
  cases x <;> simp [ends, Bind.bind, Except.bind, Pure.pure, Except.pure]

theorem ends_error {α : Type} {x : Exec α} {stop : Stop} :
    ends x = .error stop ↔ x = .error stop := by
  cases x <;> simp [ends, Bind.bind, Except.bind, Pure.pure, Except.pure]

theorem ends_terminates {α : Type} {x : Exec α} : Terminates (ends x) ↔ Terminates x :=
  not_congr ends_error

theorem resolveRules_ends {inner : List Text → ConfigStates → Exec (Int × ConfigStates)}
    {walk : Nat → Exec Unit} (each : ∀ q state, ends (inner (tree.impliesOf q) state) = walk q)
    (rules : List Text) (state : ConfigStates) :
    ends (tree.resolveRules inner rules state) = visitAll walk (tree.targets rules) := by
  induction rules generalizing state with
  | nil => rfl
  | cons rule rest ih =>
    rw [resolveRules, targets]
    cases parseRule rule with
    | none => rfl
    | some parts =>
      obtain ⟨key, value⟩ := parts
      dsimp only
      cases tree.optionsMap.lookup key with
      | none => rfl
      | some q =>
        rw [visitAll, ← each q (state.assign q value)]
        dsimp only
        cases inner (tree.impliesOf q) (state.assign q value) with
        | error stop => rfl
        | ok result => exact ih result.2

/-- The calls go through the tree as a visit does that goes by the rules. -/
theorem resolveImplies_ends (tree : BuiltTree) (fuel : Nat) (rules : List Text)
    (state : ConfigStates) :
    ends (tree.confEngineResolveImplies fuel rules state) =
      visitAll (visit tree.next fuel) (tree.targets rules) := by
  induction fuel generalizing rules state with
  | zero => exact resolveRules_ends (fun _ _ => rfl) rules state
  | succ fuel ih => exact resolveRules_ends (fun q state => ih (tree.impliesOf q) state) rules state

theorem define_ends (tree : BuiltTree) (fuel p : Nat) (value : Text) (state : ConfigStates) :
    ends (tree.define fuel p value state) = visit tree.next (fuel + 1) p := by
  have resolved := resolveImplies_ends tree fuel (tree.impliesOf p) state
  rw [visit, next, ← resolved, define]
  cases tree.confEngineResolveImplies fuel (tree.impliesOf p) state with
  | error stop => rfl
  | ok result =>
    obtain ⟨st, state⟩ := result
    by_cases negative : st < 0
    · simp [ends, Bind.bind, Except.bind, negative, Pure.pure, Except.pure]
    · simp [ends, Bind.bind, Except.bind, negative, Pure.pure, Except.pure]

theorem next_finite (tree : BuiltTree) : {p | tree.next p ≠ []}.Finite := by
  refine (Set.finite_lt_nat tree.elements.length).subset fun p member => ?_
  by_contra outside
  apply member
  unfold next impliesOf
  rw [List.getElem?_eq_none (Nat.le_of_not_lt outside)]
  rfl

theorem define_terminates_iff : (∃ fuel, Terminates (tree.define fuel p value state)) ↔
    NoReturn (Turns tree.next) p := by
  rw [← visit_terminates_iff tree.next_finite]
  constructor
  · rintro ⟨fuel, terminates⟩
    exact ⟨fuel + 1, by rw [← define_ends tree fuel p value state]; exact ends_terminates.mpr terminates⟩
  · rintro ⟨fuel, terminates⟩
    refine ⟨fuel, ends_terminates.mp ?_⟩
    rw [define_ends, visit_mono (Nat.le_succ fuel) rfl terminates]
    exact terminates

theorem define_aborts : (∃ fuel, tree.define fuel p value state = .error .panic) ↔
    ∃ q, ReflTransGen (Turns tree.next) p q ∧ FirstBad tree.next q none := by
  rw [← visit_panic_iff tree.next_finite]
  constructor
  · rintro ⟨fuel, aborts⟩
    exact ⟨fuel + 1, by rw [← define_ends tree fuel p value state]; exact ends_error.mpr aborts⟩
  · rintro ⟨fuel, aborts⟩
    refine ⟨fuel, ends_error.mp ?_⟩
    rw [define_ends]
    exact visit_mono (Nat.le_succ fuel) aborts (by rintro ⟨⟩)

theorem set_assign (q r : Nat) (value : Text) (state : ConfigStates) :
    Set (state.assign q value) r ↔ r = q ∨ Set state r := by
  unfold Set ConfigStates.assign
  by_cases same : r = q
  · simp [same]
  · simp [same]

theorem resolveRules_done {inner : List Text → ConfigStates → Exec (Int × ConfigStates)}
    (each : ∀ q state st state', inner (tree.impliesOf q) state = .ok (st, state') →
      ∀ r, Set state' r ↔ Set state r ∨ TransGen (LeadsTo tree.next) q r)
    (done : tree.resolveRules inner rules state = .ok (st, state')) :
    (st = if ∀ rule ∈ rules, parseRule rule ≠ none then 0 else -1) ∧
      ∀ r, Set state' r ↔ Set state r ∨
        ∃ q, some q ∈ tree.targets rules ∧ ReflTransGen (LeadsTo tree.next) q r := by
  induction rules generalizing state with
  | nil =>
    cases done
    exact ⟨by simp, by simp [targets]⟩
  | cons rule rest ih =>
    rw [resolveRules] at done
    cases parsed : parseRule rule with
    | none =>
      rw [parsed] at done
      cases done
      exact ⟨by simp [parsed], by simp [targets, parsed]⟩
    | some parts =>
      obtain ⟨key, value⟩ := parts
      rw [parsed] at done
      dsimp only at done
      cases found : tree.optionsMap.lookup key with
      | none =>
        rw [found] at done
        cases done
      | some q =>
        rw [found] at done
        obtain ⟨⟨nested, middle⟩, there, later⟩ := Exec.bind_ok.mp done
        obtain ⟨answer, sets⟩ := ih later
        refine ⟨?_, fun r => ?_⟩
        · simpa [parsed] using answer
        · rw [sets, each q _ _ _ there r, set_assign, targets, parsed]
          dsimp only
          rw [found]
          simp only [List.mem_cons, Option.some.injEq, or_and_right, exists_or,
            exists_eq_left, reflTransGen_iff_eq_or_transGen, or_assoc, or_left_comm]

theorem resolveImplies_done (done : tree.confEngineResolveImplies fuel rules state = .ok (st, state')) :
    (st = if ∀ rule ∈ rules, parseRule rule ≠ none then 0 else -1) ∧
      ∀ r, Set state' r ↔ Set state r ∨
        ∃ q, some q ∈ tree.targets rules ∧ ReflTransGen (LeadsTo tree.next) q r := by
  induction fuel generalizing rules state st state' with
  | zero => exact resolveRules_done (fun _ _ _ _ out => by cases out) done
  | succ fuel ih =>
    refine resolveRules_done (fun q state st state' done r => ?_) done
    rw [(ih done).2 r, TransGen.head'_iff]
    rfl

/-- What a call that answers 0 has set. -/
theorem define_done (done : tree.define fuel p value state = .ok (0, state')) :
    tree.WellFormed p ∧
      ∀ r, Set state' r ↔ r = p ∨ Set state r ∨ TransGen (LeadsTo tree.next) p r := by
  obtain ⟨⟨st, middle⟩, resolved, rest⟩ := Exec.bind_ok.mp done
  obtain ⟨answer, sets⟩ := resolveImplies_done resolved
  dsimp only at rest
  split at rest
  · cases rest
  · rename_i positive
    cases rest
    have wellFormed : tree.WellFormed p := by
      by_contra bad
      have negative : st = -1 := answer.trans (if_neg bad)
      exact positive (by rw [negative]; decide)
    refine ⟨wellFormed, fun r => ?_⟩
    rw [set_assign, sets, TransGen.head'_iff]
    rfl

theorem define_succeeds (sound : Sound tree.next p) (wellFormed : tree.WellFormed p)
    (value : Text) (state : ConfigStates) :
    ∃ fuel state', tree.define fuel p value state = .ok (0, state') := by
  obtain ⟨fuel, visited⟩ := sound.visit tree.next_finite
  have ended : ends (tree.define fuel p value state) = .ok () := by
    rw [define_ends]
    exact visit_mono (Nat.le_succ fuel) visited (terminates_ok _)
  obtain ⟨⟨st, state'⟩, done⟩ := ends_ok.mp ended
  obtain ⟨⟨nested, middle⟩, resolved, rest⟩ := Exec.bind_ok.mp done
  obtain rfl : nested = 0 := (resolveImplies_done resolved).1.trans (if_pos wellFormed)
  exact ⟨fuel, _, done.trans (rest.symm.trans (if_neg (by decide)))⟩

/-- What `define` of an element is to do: to come to an end, and where it answers 0 to have set all
that the element implies. -/
structure DefineRight (tree : BuiltTree) (p : Nat) (value : Text) (state : ConfigStates) : Prop where
  terminates : ∃ fuel, Terminates (tree.define fuel p value state)
  sets : ∀ fuel state', tree.define fuel p value state = .ok (0, state') →
    ∀ q, TransGen tree.Implies p q → Set state' q

theorem define_right_iff {files : Text → Option Json} {depth : Nat} {path : Text}
    (_ : buildFromPath files depth path = .ok (.ok tree)) (_ : p < tree.elements.length)
    (value : Text) (state : ConfigStates) :
    tree.DefineRight p value state ↔
      NoReturn (Turns tree.next) p ∧
        (Sound tree.next p → tree.WellFormed p → ∀ q, TransGen tree.Implies p q →
          q = p ∨ Set state q ∨ TransGen (LeadsTo tree.next) p q) := by
  constructor
  · rintro ⟨terminates, sets⟩
    refine ⟨define_terminates_iff.mp terminates, fun sound wellFormed q implied => ?_⟩
    obtain ⟨fuel, state', done⟩ := define_succeeds sound wellFormed value state
    exact ((define_done done).2 q).mp (sets fuel state' done q implied)
  · rintro ⟨noReturn, reached⟩
    refine ⟨define_terminates_iff.mpr noReturn, fun fuel state' done q implied => ?_⟩
    obtain ⟨wellFormed, sets⟩ := define_done done
    have sound : Sound tree.next p := by
      apply sound_of_visit
      rw [← define_ends tree fuel p value state]
      exact ends_ok.mpr ⟨_, done⟩
    exact (sets q).mpr (reached sound wellFormed q implied)

theorem build_collects (inters : Interactables) (inter : Nat) (implies : List Text)
    (options : List (Text × Nat)) :
    (∀ name ∈ implies, name ∈ (confEngineBuildOptionMapAndImpliesVector inters inter implies options).1) ∧
      ∀ elem, (.option, elem) ∈ inters.elements → ∀ rule ∈ elem.implies,
        checkedName rule ∈ (confEngineBuildOptionMapAndImpliesVector inters inter implies options).1 := by
  induction inters generalizing inter implies options with
  | nil =>
    refine ⟨fun name member => ?_, fun elem member => by cases member⟩
    simpa [confEngineBuildOptionMapAndImpliesVector] using member
  | option first rest ih =>
    obtain ⟨kept, collected⟩ := ih (inter + 1) (implies ++ first.implies.map checkedName)
      (insertOption first.name inter options)
    refine ⟨fun name member => kept name (List.mem_append_left _ member), fun elem member rule here => ?_⟩
    rcases List.mem_cons.mp member with same | later
    · cases same
      exact kept _ (List.mem_append_right _ (List.mem_map_of_mem here))
    · exact collected elem later rule here
  | menu first inner rest ihInner ihRest =>
    rw [confEngineBuildOptionMapAndImpliesVector]
    generalize (if first.needsSelecting = true then insertOption first.name inter options
      else options) = options
    obtain ⟨keptInner, collectedInner⟩ := ihInner (inter + 1) implies options
    dsimp only
    obtain ⟨kept, collected⟩ := ihRest (inter + 1 + inner.elements.length)
      (confEngineBuildOptionMapAndImpliesVector inner (inter + 1) implies options).1
      (confEngineBuildOptionMapAndImpliesVector inner (inter + 1) implies options).2
    refine ⟨fun name member => kept name (keptInner name member), fun elem member rule here => ?_⟩
    rcases List.mem_cons.mp member with same | later
    · cases same
    · rcases List.mem_append.mp later with inside | behind
      · exact kept _ (collectedInner elem inside rule here)
      · exact collected elem behind rule here

/-- A tree that is accepted has the names that were checked. -/
theorem accepted_checked {files : Text → Option Json} {depth : Nat} {path : Text}
    (accepted : buildFromPath files depth path = .ok (.ok tree)) {elem : ConfigElement}
    (member : (.option, elem) ∈ tree.elements) {rule : Text} (here : rule ∈ elem.implies) :
    (tree.optionsMap.lookup (checkedName rule)).isSome := by
  unfold buildFromPath at accepted
  cases opened : files path with
  | none =>
    rw [opened] at accepted
    cases accepted
  | some json =>
    rw [opened] at accepted
    obtain ⟨parsed, -, built⟩ := Exec.bind_ok.mp accepted
    cases parsed with
    | none => cases built
    | some root =>
      have built : confEngineBuild root = .ok tree := Exec.pure_ok.mp built
      unfold confEngineBuild at built
      have collects := build_collects root.interactables 1 [] []
      dsimp only at built
      split at built
      · rename_i all
        cases built
        rcases List.mem_cons.mp member with same | inside
        · cases same
        · exact List.all_eq_true.mp all _ (collects.2 elem inside rule here)
      · cases built

theorem takeWhile_filter_comm (rule : Text) :
    (rule.filter isNotSpace).takeWhile (· ≠ 0x3d) = (rule.takeWhile (· ≠ 0x3d)).filter isNotSpace := by
  induction rule with
  | nil => rfl
  | cons c rest ih =>
    by_cases equals : c = 0x3d
    · subst equals
      have kept : isNotSpace 0x3d = true := by decide
      rw [List.filter_cons_of_pos kept, List.takeWhile_cons_of_neg (by simp),
        List.takeWhile_cons_of_neg (by simp)]
      rfl
    · rw [List.takeWhile_cons_of_pos (by simpa using equals)]
      by_cases kept : isNotSpace c = true
      · rw [List.filter_cons_of_pos kept, List.filter_cons_of_pos kept,
          List.takeWhile_cons_of_pos (by simpa using equals), ih]
      · rw [List.filter_cons_of_neg kept, List.filter_cons_of_neg kept, ih]

theorem parseRule_name {rule key value : Text} (parsed : parseRule rule = some (key, value)) :
    key = impliedName rule := by
  unfold parseRule at parsed
  dsimp only at parsed
  split at parsed
  · split at parsed
    · cases parsed
    · split at parsed
      · cases parsed
      · cases parsed
        rfl
  · rename_i plain
    cases parsed
    refine (List.takeWhile_eq_self_iff.mpr fun c member => ?_).symm
    exact decide_eq_true fun same => plain (List.contains_iff_mem.mpr (same ▸ member))

theorem mem_targets_none {rules : List Text} (missing : none ∈ tree.targets rules) :
    ∃ rule ∈ rules, tree.optionsMap.lookup (impliedName rule) = none := by
  induction rules with
  | nil => cases missing
  | cons rule rest ih =>
    rw [targets] at missing
    cases parsed : parseRule rule with
    | none =>
      rw [parsed] at missing
      cases missing
    | some parts =>
      obtain ⟨key, value⟩ := parts
      rw [parsed] at missing
      rcases List.mem_cons.mp missing with here | later
      · rw [parseRule_name parsed] at here
        exact ⟨rule, List.mem_cons_self, here.symm⟩
      · obtain ⟨rule, member, lost⟩ := ih later
        exact ⟨rule, List.mem_cons_of_mem _ member, lost⟩

/-- The element names what was not checked when the tree was built: it is a menu, or it has a rule
without a value that has blanks in it. -/
def Unchecked (tree : BuiltTree) (p : Nat) : Prop :=
  ∃ type elem, tree.elements[p]? = some (type, elem) ∧
    (type = .menu ∨ ∃ rule ∈ elem.implies, 0x3d ∉ rule ∧ rule.filter isNotSpace ≠ rule)

theorem accepted_missing {files : Text → Option Json} {depth : Nat} {path : Text}
    (accepted : buildFromPath files depth path = .ok (.ok tree))
    (missing : none ∈ tree.next p) : tree.Unchecked p := by
  obtain ⟨rule, member, lost⟩ := mem_targets_none missing
  unfold impliesOf at member
  cases found : tree.elements[p]? with
  | none =>
    rw [found] at member
    cases member
  | some entry =>
    obtain ⟨type, elem⟩ := entry
    rw [found] at member
    refine ⟨type, elem, found, ?_⟩
    cases type with
    | menu => exact .inl rfl
    | option =>
      right
      refine ⟨rule, member, ?_⟩
      have checked := accepted_checked accepted (List.mem_of_getElem? found) member
      by_contra covered
      have same : checkedName rule = impliedName rule := by
        unfold checkedName impliedName
        by_cases equals : 0x3d ∈ rule
        · rw [if_pos (List.contains_iff_mem.mpr equals), takeWhile_filter_comm]
        · have stripped : rule.filter isNotSpace = rule := by
            by_contra blanks
            exact covered ⟨equals, blanks⟩
          rw [if_neg (mt List.contains_iff_mem.mp equals), stripped]
          refine (List.takeWhile_eq_self_iff.mpr fun c member => ?_).symm
          exact decide_eq_true fun same => equals (same ▸ member)
      rw [same, lost] at checked
      cases checked

theorem define_finds_iff {files : Text → Option Json} {depth : Nat} {path : Text}
    (accepted : buildFromPath files depth path = .ok (.ok tree))
    {type : ConfigInteractableType} {elem : ConfigElement}
    (_ : tree.elements[p]? = some (type, elem))
    (_ : type = .option ∨ elem.needsSelecting = true) (value : Text) (state : ConfigStates) :
    (∀ fuel, tree.define fuel p value state ≠ .error .panic) ↔
      ¬ ∃ q, ReflTransGen (Turns tree.next) p q ∧ tree.Unchecked q ∧ FirstBad tree.next q none := by
  rw [← not_exists, define_aborts]
  refine not_congr (exists_congr fun q => and_congr_right fun _ => ?_)
  refine (and_iff_right_of_imp fun missing => accepted_missing accepted ?_).symm
  obtain ⟨before, after, split, -⟩ := missing
  rw [split]
  simp

/-- The files of the examples hold one menu. -/
def oneFile (members : List (Text × Json)) (path : Text) : Option Json :=
  if path = ascii "config.json" then some (.object members) else none

def impliesItself : BuiltTree where
  elements := [(.menu, ⟨[], .bool, [], []⟩), (.option, ⟨ascii "A", .bool, [ascii "A"], []⟩)]
  optionsMap := [(ascii "A", 1)]

theorem impliesItself_built :
    buildFromPath (oneFile [(ascii "title", .string (ascii "t")),
      (ascii "options", .array [.object [(ascii "name", .string (ascii "A")),
        (ascii "title", .string (ascii "a")),
        (ascii "implies", .array [.string (ascii "A")])]])]) 1 (ascii "config.json") =
      .ok (.ok impliesItself) := by
  decide

theorem define_right_iff_self :
    impliesItself.DefineRight 1 [] (fun _ => ⟨false, []⟩) ↔
      NoReturn (Turns impliesItself.next) 1 ∧
        (Sound impliesItself.next 1 → impliesItself.WellFormed 1 →
          ∀ q, TransGen impliesItself.Implies 1 q →
            q = 1 ∨ Set (fun _ => ⟨false, []⟩) q ∨ TransGen (LeadsTo impliesItself.next) 1 q) :=
  define_right_iff impliesItself_built (by decide) [] fun _ => ⟨false, []⟩

/-- An option that implies itself is accepted, and defining it never comes back. -/
theorem implied_by_itself_endless :
    ¬ ∀ (files : Text → Option Json) (depth : Nat) (path : Text) (tree : BuiltTree),
      buildFromPath files depth path = .ok (.ok tree) → ∀ p < tree.elements.length,
        ∀ (value : Text) (state : ConfigStates), tree.DefineRight p value state := by
  intro all
  have right := all _ _ _ _ impliesItself_built 1 (by decide) [] fun _ => ⟨false, []⟩
  have follows : LeadsTo impliesItself.next 1 1 := by
    unfold LeadsTo
    decide
  have turns : Turns impliesItself.next 1 1 := by
    refine ⟨[], [], by decide, nofun, fun sound => ?_⟩
    exact (sound : Sound impliesItself.next 1).noReturn 1 .refl (.single follows)
  exact define_terminates_iff.mp right.terminates 1 .refl (.single turns)

def menuImplies : BuiltTree where
  elements := [(.menu, ⟨[], .bool, [], []⟩), (.menu, ⟨ascii "M", .bool, [ascii "B"], []⟩)]
  optionsMap := [(ascii "M", 1)]

theorem menuImplies_built :
    buildFromPath (oneFile [(ascii "title", .string (ascii "t")),
      (ascii "menus", .array [.object [(ascii "name", .string (ascii "M")),
        (ascii "title", .string (ascii "m")),
        (ascii "implies", .array [.string (ascii "B")])]])]) 2 (ascii "config.json") =
      .ok (.ok menuImplies) := by
  decide

theorem define_finds_iff_menu :
    (∀ fuel, menuImplies.define fuel 1 [] (fun _ => ⟨false, []⟩) ≠ .error .panic) ↔
      ¬ ∃ q, ReflTransGen (Turns menuImplies.next) 1 q ∧ menuImplies.Unchecked q ∧
        FirstBad menuImplies.next q none :=
  define_finds_iff menuImplies_built (by rfl) (.inr (by decide)) [] fun _ => ⟨false, []⟩

/-- The rules of a menu are not checked when the tree is built. -/
theorem menu_implies_missing_aborts :
    ¬ ∀ (files : Text → Option Json) (depth : Nat) (path : Text) (tree : BuiltTree),
      buildFromPath files depth path = .ok (.ok tree) →
        ∀ p type elem, tree.elements[p]? = some (type, elem) →
          (type = .option ∨ elem.needsSelecting = true) →
            ∀ value state fuel, tree.define fuel p value state ≠ .error .panic := by
  intro all
  refine all _ _ _ _ menuImplies_built 1 .menu _ rfl (.inr (by decide)) []
    (fun _ => ⟨false, []⟩) 0 (ends_error.mp ?_)
  decide

end BuiltTree

end Dxgmx
