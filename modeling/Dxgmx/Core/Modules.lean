import Dxgmx.Library.OrderedVisits
import Mathlib.Data.Fintype.EquivFin
import Mathlib.Data.Finset.Lattice.Fold
import Mathlib.Data.List.FinRange

open Library Relation

namespace Dxgmx

inductive ModuleStage
  | stage3
  | stage1
  | stage2
  deriving DecidableEq, Repr

/-- A `main` depends on some modules in turn. It returns the error of the first that it does not get,
    or else the status of its own work. -/
structure ModuleMain where
  dependsOn : List String
  st : Int
  deriving DecidableEq, Repr

structure Module where
  name : Option String
  stage : ModuleStage
  main : Option ModuleMain
  deriving DecidableEq, Repr

/-- What changes in the modules, and what their mains have returned, the latest first. -/
structure ModuleTable (n : Nat) where
  initialized : Fin n → Bool
  refcount : Fin n → BitVec 32
  returned : List (Fin n × Int)

def ModuleTable.boot (n : Nat) : ModuleTable n := ⟨fun _ => false, fun _ => 0, []⟩

section

variable {n : Nat} (modules : Fin n → Module)

/-- `strcmp` is not for a module without a name. -/
def modBuiltinFindByName (name : String) : List (Fin n) → Exec (Option (Fin n))
  | [] => .ok none
  | mod :: rest =>
    match (modules mod).name with
    | none => .error .fault
    | some other => if other = name then .ok (some mod) else modBuiltinFindByName name rest

def modBuiltinDependsOn (init : Fin n → ModuleTable n → Exec (Int × ModuleTable n)) (mod : String)
    (s : ModuleTable n) : Exec (Int × ModuleTable n) := do
  match ← modBuiltinFindByName modules mod (List.finRange n) with
  | none => pure (-2, s)
  | some target =>
    let (st, s) ← init target s
    if st < 0 then pure (st, s)
    else pure (0, { s with
      refcount := Function.update s.refcount target (s.refcount target + 1) })

def runMain (init : Fin n → ModuleTable n → Exec (Int × ModuleTable n)) (own : Int) :
    List String → ModuleTable n → Exec (Int × ModuleTable n)
  | [], s => pure (own, s)
  | mod :: rest, s => do
    let (st, s) ← modBuiltinDependsOn modules init mod s
    if st < 0 then pure (st, s) else runMain init own rest s

def modBuiltinInit : (fuel : Nat) → Fin n → ModuleTable n → Exec (Int × ModuleTable n)
  | 0, _, _ => .error .fuel
  | fuel + 1, mod, s =>
    match (modules mod).name, (modules mod).main with
    | none, _ => pure (-22, s)
    | some _, none => pure (0, s)
    | some _, some main =>
      if s.initialized mod then pure (0, s)
      else do
        let (st, s) ← runMain modules (modBuiltinInit fuel) main.st main.dependsOn s
        let s := { s with returned := (mod, st) :: s.returned }
        if st < 0 then pure (st, s)
        else pure (0, { s with initialized := Function.update s.initialized mod true })

def modBuiltinInitStage (fuel : Nat) (stage : ModuleStage) :
    List (Fin n) → ModuleTable n → Exec (ModuleTable n)
  | [], s => pure s
  | mod :: rest, s => do
    if (modules mod).stage ≠ stage then modBuiltinInitStage fuel stage rest s
    else
      let (_, s) ← modBuiltinInit modules fuel mod s
      modBuiltinInitStage fuel stage rest s

/-- The stages of `kinit_stage2`, as far as it has come. -/
def initStages (fuel : Nat) (stages : List ModuleStage) (s : ModuleTable n) :
    Exec (ModuleTable n) :=
  stages.foldlM (fun s stage => modBuiltinInitStage modules fuel stage (List.finRange n) s) s

/-- The module that a name stands for. -/
def namedModule (name : String) : Option (Fin n) :=
  (List.finRange n).find? fun mod => (modules mod).name == some name

/-- What a module has to get, and a missing module where its own work fails. -/
def moduleNeeds (mod : Fin n) : List (Option (Fin n)) :=
  match (modules mod).main with
  | none => []
  | some main => main.dependsOn.map (namedModule modules) ++ if main.st < 0 then [none] else []

end

section

variable {n : Nat} {modules : Fin n → Module}
variable {s t : ModuleTable n} {mod q : Fin n} {st own : Int} {fuel : Nat} {mods : List String}
variable {init : Fin n → ModuleTable n → Exec (Int × ModuleTable n)}

theorem findByName_eq (named : ∀ m, (modules m).name.isSome = true) (name : String)
    (places : List (Fin n)) : modBuiltinFindByName modules name places =
      .ok (places.find? fun mod => (modules mod).name == some name) := by
  induction places with
  | nil => rfl
  | cons mod rest ih =>
    obtain ⟨other, here⟩ := Option.isSome_iff_exists.mp (named mod)
    rw [modBuiltinFindByName, here, List.find?_cons, here, ih]
    by_cases same : other = name
    · simp [same]
    · have differ : (other == name) = false := beq_eq_false_iff_ne.mpr same
      simp [same, differ]

theorem findByName_all (named : ∀ m, (modules m).name.isSome = true) (name : String) :
    modBuiltinFindByName modules name (List.finRange n) = .ok (namedModule modules name) :=
  findByName_eq named name _

/-- A `main` that has returned without an error. -/
def Succeeded (m : Fin n) (entry : Fin n × Int) : Prop := entry.1 = m ∧ 0 ≤ entry.2

instance (m : Fin n) (entry : Fin n × Int) : Decidable (Succeeded m entry) := by
  unfold Succeeded
  infer_instance

/-- What is initialized has got all that it needs, by one `main` of each that has succeeded, and that
    did so after those of all that it needs. -/
structure Loaded (modules : Fin n → Module) (s : ModuleTable n) : Prop where
  sound : ∀ m, s.initialized m = true → Sound (moduleNeeds modules) m
  closed : ∀ m q, s.initialized m = true → LeadsTo (moduleNeeds modules) m q →
    (modules q).main.isSome = true → s.initialized q = true
  counted : ∀ m, s.returned.countP (Succeeded m) = if s.initialized m = true then 1 else 0
  ordered : ∀ m entry earlier, entry :: earlier <:+ s.returned → Succeeded m entry →
    ∀ q, LeadsTo (moduleNeeds modules) m q → (modules q).main.isSome = true →
      ∃ before ∈ earlier, Succeeded q before

theorem Loaded.boot : Loaded modules (ModuleTable.boot n) where
  sound := nofun
  closed := nofun
  counted _ := rfl
  ordered m entry earlier suffix := by
    cases List.suffix_nil.mp suffix

/-- A module without a `main` needs nothing, and is never initialized. -/
def Initializes (modules : Fin n → Module) (m : Fin n) : Prop :=
  (modules m).main.isSome = true ∧ Sound (moduleNeeds modules) m

theorem needs_none (none : (modules mod).main = none) : moduleNeeds modules mod = [] := by
  unfold moduleNeeds
  rw [none]

theorem needs_some {main : ModuleMain} (some_ : (modules mod).main = some main) :
    moduleNeeds modules mod =
      main.dependsOn.map (namedModule modules) ++ if main.st < 0 then [none] else [] := by
  unfold moduleNeeds
  rw [some_]

/-- What is needed has a `main`, or needs nothing further. -/
theorem Loaded.reach (loaded : Loaded modules s) {p m : Fin n}
    (way : ReflTransGen (ComesTo (moduleNeeds modules)) p m) (here : s.initialized p = true)
    (main : (modules m).main.isSome = true) : s.initialized m = true := by
  induction way using ReflTransGen.head_induction_on with
  | refl => exact here
  | @head p q first rest ih =>
    apply ih
    apply loaded.closed p q here first.follows
    rcases ReflTransGen.cases_head rest with rfl | ⟨r, onward, -⟩
    · exact main
    · cases some_ : (modules q).main with
      | some main => rfl
      | none =>
        have follows := onward.follows
        unfold LeadsTo at follows
        rw [needs_none some_] at follows
        cases follows

/-- How an attempt to get these modules has ended. -/
structure Tried (modules : Fin n → Module) (s : ModuleTable n) (places : List (Option (Fin n)))
    (st : Int) (t : ModuleTable n) : Prop where
  loaded : Loaded modules t
  grown : ∀ m, t.initialized m = true ↔ s.initialized m = true ∨
    Initializes modules m ∧ Reaches (moduleNeeds modules) places m
  sound : 0 ≤ st → ∀ p ∈ places, SoundAt (moduleNeeds modules) p
  stopped : st < 0 → ∃ fuel, visitAll (visit (moduleNeeds modules) fuel) places = .error .panic

theorem visitAll_single {ν : Type} (inner : ν → Exec Unit) (q : ν) :
    visitAll inner [some q] = inner q := by
  rw [visitAll]
  cases inner q with
  | error stop => rfl
  | ok u => rfl

/-- Without a memory the module is not got either. -/
theorem Tried.unsound (ended : Tried modules s [some q] st t) (fails : st < 0) :
    (∃ fuel, visit (moduleNeeds modules) fuel q = .error .panic) ∧
      ¬Sound (moduleNeeds modules) q := by
  obtain ⟨fuel, stopped⟩ := ended.stopped fails
  rw [visitAll_single] at stopped
  exact ⟨⟨fuel, stopped⟩, unsound_of_panic (Set.toFinite _) stopped⟩

theorem Tried.missing (loaded : Loaded modules s) (rest : List (Option (Fin n))) :
    Tried modules s (none :: rest) (-2) s where
  loaded := loaded
  grown m := by simp [Reaches]
  sound positive := by omega
  stopped _ := ⟨0, rfl⟩

theorem Tried.fails (ended : Tried modules s [some q] st t) (fails : st < 0)
    (rest : List (Option (Fin n))) : Tried modules s (some q :: rest) st t where
  loaded := ended.loaded
  grown m := by
    rw [ended.grown]
    simp only [Reaches, (ended.unsound fails).2, false_and, and_false]
  sound positive := by omega
  stopped _ := by
    obtain ⟨⟨fuel, stopped⟩, -⟩ := ended.unsound fails
    refine ⟨fuel, ?_⟩
    rw [visitAll, stopped]
    rfl

theorem Tried.cons {u : ModuleTable n} {first : Int} {rest : List (Option (Fin n))}
    (head : Tried modules s [some q] first u) (positive : 0 ≤ first)
    (tail : Tried modules u rest st t) : Tried modules s (some q :: rest) st t where
  loaded := tail.loaded
  grown m := by
    have sound : Sound (moduleNeeds modules) q := head.sound positive (some q) (by simp)
    rw [tail.grown, head.grown]
    simp only [Reaches, sound, true_and, and_false, or_false]
    rw [or_assoc, and_or_left]
  sound last := List.forall_mem_cons.mpr ⟨head.sound positive (some q) (by simp), tail.sound last⟩
  stopped fails := by
    have sound : Sound (moduleNeeds modules) q := head.sound positive (some q) (by simp)
    obtain ⟨fuel, stopped⟩ := tail.stopped fails
    obtain ⟨other, done⟩ := sound.visit (Set.toFinite _)
    refine ⟨max fuel other, ?_⟩
    rw [visitAll, visit_mono (Nat.le_max_right fuel other) done (terminates_ok _), Exec.ok_bind]
    apply visitAll_mono _ stopped terminates_panic
    intro p r here ends
    exact visit_mono (Nat.le_max_left fuel other) here ends

/-- The places of the names still to come, and of the work behind them. -/
def placesOf (modules : Fin n → Module) (mods : List String) (own : Int) : List (Option (Fin n)) :=
  mods.map (namedModule modules) ++ if own < 0 then [none] else []

theorem Tried.work (loaded : Loaded modules s) (own : Int) :
    Tried modules s (placesOf modules [] own) own s := by
  unfold placesOf
  by_cases fails : own < 0
  · rw [if_pos fails]
    exact {
      loaded := loaded
      grown := fun m => by simp [Reaches]
      sound := fun positive => absurd fails (Int.not_lt.mpr positive)
      stopped := fun _ => ⟨0, rfl⟩ }
  · rw [if_neg fails]
    exact {
      loaded := loaded
      grown := fun m => by simp [Reaches]
      sound := nofun
      stopped := fun negative => absurd negative fails }

theorem Tried.counted (ended : Tried modules s [some q] st t) (positive : 0 ≤ st)
    (refcount : Fin n → BitVec 32) : Tried modules s [some q] 0 { t with refcount } where
  loaded := ⟨ended.loaded.sound, ended.loaded.closed, ended.loaded.counted, ended.loaded.ordered⟩
  grown := ended.grown
  sound _ := ended.sound positive
  stopped := nofun

theorem dependsOn_ended (named : ∀ m, (modules m).name.isSome = true)
    (each : ∀ q s st t, Loaded modules s → init q s = .ok (st, t) → Tried modules s [some q] st t)
    (loaded : Loaded modules s) {name : String}
    (done : modBuiltinDependsOn modules init name s = .ok (st, t)) :
    (namedModule modules name = none ∧ st = -2 ∧ t = s) ∨
      ∃ q, namedModule modules name = some q ∧ Tried modules s [some q] st t := by
  unfold modBuiltinDependsOn at done
  rw [findByName_all named, Exec.ok_bind] at done
  cases target : namedModule modules name with
  | none =>
    rw [target] at done
    cases Exec.pure_ok.mp done
    exact .inl ⟨rfl, rfl, rfl⟩
  | some q =>
    rw [target] at done
    obtain ⟨⟨first, u⟩, there, rest⟩ := Exec.bind_ok.mp done
    have ended := each q s first u loaded there
    refine .inr ⟨q, rfl, ?_⟩
    by_cases fails : first < 0
    · simp only [if_pos fails] at rest
      cases Exec.pure_ok.mp rest
      exact ended
    · simp only [if_neg fails] at rest
      cases Exec.pure_ok.mp rest
      exact ended.counted (Int.not_lt.mp fails) _

theorem runMain_ended (named : ∀ m, (modules m).name.isSome = true)
    (each : ∀ q s st t, Loaded modules s → init q s = .ok (st, t) → Tried modules s [some q] st t)
    (loaded : Loaded modules s) (done : runMain modules init own mods s = .ok (st, t)) :
    Tried modules s (placesOf modules mods own) st t := by
  induction mods generalizing s with
  | nil =>
    cases Exec.pure_ok.mp done
    exact .work loaded _
  | cons name rest ih =>
    obtain ⟨⟨first, u⟩, there, later⟩ := Exec.bind_ok.mp done
    show Tried modules s (namedModule modules name :: placesOf modules rest own) st t
    rcases dependsOn_ended named each loaded there with ⟨missing, rfl, rfl⟩ | ⟨q, target, ended⟩
    · cases Exec.pure_ok.mp later
      rw [missing]
      exact .missing loaded _
    · rw [target]
      by_cases fails : first < 0
      · simp only [if_pos fails] at later
        cases Exec.pure_ok.mp later
        exact ended.fails fails _
      · simp only [if_neg fails] at later
        exact ended.cons (Int.not_lt.mp fails) (ih ended.loaded later)

theorem reaches_single {m : Fin n} : Reaches (moduleNeeds modules) [some mod] m ↔
    m = mod ∨ Reaches (moduleNeeds modules) (moduleNeeds modules mod) m := by
  rw [reaches_next, ← reflTransGen_iff_eq_or_transGen]
  simp [Reaches]

/-- A `main` that fails leaves its module as it was. -/
theorem Tried.mainFails (ended : Tried modules s (moduleNeeds modules mod) st t) (fails : st < 0) :
    Tried modules s [some mod] st { t with returned := (mod, st) :: t.returned } where
  loaded := {
    sound := ended.loaded.sound
    closed := ended.loaded.closed
    counted := by
      intro m
      have other : ¬Succeeded m (mod, st) := fun succeeded => absurd succeeded.2 (Int.not_le.mpr fails)
      rw [List.countP_cons_of_neg (by simpa using other)]
      exact ended.loaded.counted m
    ordered := by
      intro m entry earlier suffix succeeded
      rcases List.suffix_cons_iff.mp suffix with same | inside
      · cases same
        exact absurd succeeded.2 (Int.not_le.mpr fails)
      · exact ended.loaded.ordered m entry earlier inside succeeded }
  grown := by
    intro m
    have unsound : ¬Sound (moduleNeeds modules) mod := by
      obtain ⟨fuel, stopped⟩ := ended.stopped fails
      have panics : visit (moduleNeeds modules) (fuel + 1) mod = .error .panic := stopped
      exact unsound_of_panic (Set.toFinite _) panics
    show t.initialized m = true ↔ _
    rw [ended.grown, reaches_single]
    have other : Initializes modules m → m ≠ mod := by
      rintro initializes rfl
      exact unsound initializes.2
    tauto
  sound positive := absurd fails (Int.not_lt.mpr positive)
  stopped _ := by
    obtain ⟨fuel, stopped⟩ := ended.stopped fails
    exact ⟨fuel + 1, by rwa [visitAll_single]⟩

/-- A `main` that succeeds has not come back to its own module. -/
theorem Tried.mainSucceeds (ended : Tried modules s (moduleNeeds modules mod) st t)
    (positive : 0 ≤ st) (main : (modules mod).main.isSome = true)
    (fresh : s.initialized mod = false) : Tried modules s [some mod] 0 { t with
      returned := (mod, st) :: t.returned
      initialized := Function.update t.initialized mod true } := by
  have sound : Sound (moduleNeeds modules) mod := sound_iff.mpr (ended.sound positive)
  have before : t.initialized mod = false := by
    rw [Bool.eq_false_iff]
    intro again
    rcases (ended.grown mod).mp again with old | ⟨-, back⟩
    · rw [fresh] at old
      cases old
    · have circle : TransGen (LeadsTo (moduleNeeds modules)) mod mod :=
        TransGen.mono (fun _ _ comes => comes.follows) _ _ (reaches_next.mp back)
      exact sound.noReturn mod .refl circle
  have needed : ∀ q, LeadsTo (moduleNeeds modules) mod q → (modules q).main.isSome = true →
      t.initialized q = true := by
    intro q follows some_
    have reaches := reaches_next.mpr (.single (sound.comesTo follows))
    exact (ended.grown q).mpr (.inr ⟨⟨some_, sound.follow follows⟩, reaches⟩)
  have updated : ∀ m, Function.update t.initialized mod true m = true ↔
      m = mod ∨ t.initialized m = true := by
    intro m
    by_cases same : m = mod
    · simp [same]
    · simp [same]
  exact {
    loaded := {
      sound := by
        intro m here
        rcases (updated m).mp here with rfl | old
        · exact sound
        · exact ended.loaded.sound m old
      closed := by
        intro m q here follows some_
        refine (updated q).mpr (.inr ?_)
        rcases (updated m).mp here with rfl | old
        · exact needed q follows some_
        · exact ended.loaded.closed m q old follows some_
      counted := by
        intro m
        have old := ended.loaded.counted m
        by_cases same : m = mod
        · subst same
          rw [List.countP_cons_of_pos (by simpa [Succeeded] using positive), old, before]
          simp
        · have other : ¬Succeeded m (mod, st) := fun succeeded => same succeeded.1.symm
          rw [List.countP_cons_of_neg (by simpa using other), old]
          simp [same]
      ordered := by
        intro m entry earlier suffix succeeded q follows some_
        rcases List.suffix_cons_iff.mp suffix with same | inside
        · cases same
          cases succeeded.1
          have one := ended.loaded.counted q
          rw [if_pos (needed q follows some_)] at one
          have member := List.countP_pos_iff.mp (one ▸ Nat.one_pos)
          simpa using member
        · exact ended.loaded.ordered m entry earlier inside succeeded q follows some_ }
    grown := by
      intro m
      rw [updated, ended.grown, reaches_single]
      have here : m = mod → Initializes modules m := by
        rintro rfl
        exact ⟨main, sound⟩
      tauto
    sound := fun _ p member => by
      cases List.mem_singleton.mp member
      exact sound
    stopped := nofun }

theorem Tried.again (loaded : Loaded modules s) (sound : Sound (moduleNeeds modules) mod)
    (old : ∀ m, Reaches (moduleNeeds modules) [some mod] m → (modules m).main.isSome = true →
      s.initialized m = true) : Tried modules s [some mod] 0 s where
  loaded := loaded
  grown m := by
    have known : Initializes modules m ∧ Reaches (moduleNeeds modules) [some mod] m →
        s.initialized m = true := fun here => old m here.2 here.1.1
    tauto
  sound _ p member := by
    cases List.mem_singleton.mp member
    exact sound
  stopped := nofun

theorem init_ended (named : ∀ m, (modules m).name.isSome = true) (loaded : Loaded modules s)
    (done : modBuiltinInit modules fuel mod s = .ok (st, t)) :
    Tried modules s [some mod] st t := by
  induction fuel generalizing mod s st t with
  | zero => cases done
  | succ fuel ih =>
    obtain ⟨name, name_⟩ := Option.isSome_iff_exists.mp (named mod)
    rw [modBuiltinInit, name_] at done
    cases main_ : (modules mod).main with
    | none =>
      rw [main_] at done
      cases Exec.pure_ok.mp done
      have none : moduleNeeds modules mod = [] := needs_none main_
      have sound : Sound (moduleNeeds modules) mod := by
        rw [sound_iff, none]
        nofun
      exact .again loaded sound fun m reaches some_ => by
        rcases reaches_single.mp reaches with rfl | onward
        · rw [main_] at some_
          cases some_
        · rw [none] at onward
          exact onward.elim
    | some main =>
      rw [main_] at done
      by_cases here : s.initialized mod = true
      · simp only [if_pos here] at done
        cases Exec.pure_ok.mp done
        exact .again loaded (loaded.sound mod here) fun m reaches some_ => by
          have way : ReflTransGen (ComesTo (moduleNeeds modules)) mod m := by
            simpa [Reaches] using reaches
          exact loaded.reach way here some_
      · simp only [if_neg here] at done
        obtain ⟨⟨status, u⟩, ran, rest⟩ := Exec.bind_ok.mp done
        have ended := runMain_ended named (fun q s st t loaded done => ih loaded done) loaded ran
        rw [show placesOf modules main.dependsOn main.st = moduleNeeds modules mod from
          (needs_some main_).symm] at ended
        by_cases fails : status < 0
        · simp only [if_pos fails] at rest
          cases Exec.pure_ok.mp rest
          exact ended.mainFails fails
        · simp only [if_neg fails] at rest
          cases Exec.pure_ok.mp rest
          exact ended.mainSucceeds (Int.not_lt.mp fails) (by rw [main_]; rfl) (by simpa using here)

theorem Tried.visits (ended : Tried modules s [some mod] st t) :
    ∃ fuel, Terminates (visit (moduleNeeds modules) fuel mod) := by
  by_cases fails : st < 0
  · obtain ⟨⟨fuel, stopped⟩, -⟩ := ended.unsound fails
    refine ⟨fuel, ?_⟩
    rw [stopped]
    exact terminates_panic
  · have sound : Sound (moduleNeeds modules) mod :=
      ended.sound (Int.not_lt.mp fails) (some mod) (by simp)
    obtain ⟨fuel, done⟩ := sound.visit (Set.toFinite _)
    refine ⟨fuel, ?_⟩
    rw [done]
    exact terminates_ok _

/-- With a memory the way is not longer. -/
theorem runMain_ends (named : ∀ m, (modules m).name.isSome = true)
    (each : ∀ q s st t, Loaded modules s → init q s = .ok (st, t) → Tried modules s [some q] st t)
    (ends : ∀ q s, Loaded modules s → Terminates (visit (moduleNeeds modules) fuel q) →
      ∃ st t, init q s = .ok (st, t))
    (loaded : Loaded modules s)
    (visits : Terminates (visitAll (visit (moduleNeeds modules) fuel) (placesOf modules mods own))) :
    ∃ st t, runMain modules init own mods s = .ok (st, t) := by
  induction mods generalizing s with
  | nil => exact ⟨own, s, rfl⟩
  | cons name rest ih =>
    change Terminates (visitAll _ (namedModule modules name :: placesOf modules rest own)) at visits
    rw [runMain, modBuiltinDependsOn, findByName_all named, Exec.ok_bind]
    cases target : namedModule modules name with
    | none => exact ⟨_, _, rfl⟩
    | some q =>
      rw [target, visitAll] at visits
      have first : Terminates (visit (moduleNeeds modules) fuel q) := by
        intro out
        rw [out] at visits
        exact visits rfl
      obtain ⟨st, u, done⟩ := ends q s loaded first
      have ended := each q s st u loaded done
      dsimp only
      rw [done, Exec.ok_bind]
      dsimp only
      by_cases fails : st < 0
      · rw [if_pos fails]
        exact ⟨st, u, if_pos fails⟩
      · rw [if_neg fails]
        have sound : Sound (moduleNeeds modules) q :=
          ended.sound (Int.not_lt.mp fails) (some q) (by simp)
        obtain ⟨other, good⟩ := sound.visit (Set.toFinite _)
        have here : visit (moduleNeeds modules) fuel q = .ok () := by
          rw [← visit_mono (Nat.le_max_left fuel other) rfl first]
          exact visit_mono (Nat.le_max_right fuel other) good (terminates_ok _)
        rw [here, Exec.ok_bind] at visits
        exact ih (ended.counted (Int.not_lt.mp fails) _).loaded visits

theorem init_ends (named : ∀ m, (modules m).name.isSome = true) (loaded : Loaded modules s)
    (visits : Terminates (visit (moduleNeeds modules) fuel mod)) :
    ∃ st t, modBuiltinInit modules fuel mod s = .ok (st, t) := by
  induction fuel generalizing mod s with
  | zero => exact absurd rfl visits
  | succ fuel ih =>
    obtain ⟨name, name_⟩ := Option.isSome_iff_exists.mp (named mod)
    rw [modBuiltinInit, name_]
    cases main_ : (modules mod).main with
    | none => exact ⟨_, _, rfl⟩
    | some main =>
      by_cases here : s.initialized mod = true
      · exact ⟨_, _, if_pos here⟩
      · rw [visit, needs_some main_] at visits
        obtain ⟨status, u, ran⟩ := runMain_ends named
          (fun q s st t loaded done => init_ended named loaded done)
          (fun q s loaded visits => ih loaded visits) loaded visits
        dsimp only
        rw [if_neg here, ran, Exec.ok_bind]
        dsimp only
        by_cases fails : status < 0
        · exact ⟨_, _, if_pos fails⟩
        · exact ⟨_, _, if_neg fails⟩

/-- What stages that come to an end have done with the modules that they begin with. -/
structure Staged (modules : Fin n → Module) (s : ModuleTable n) (roots : Fin n → Prop)
    (t : ModuleTable n) : Prop where
  loaded : Loaded modules t
  grown : ∀ m, t.initialized m = true ↔ s.initialized m = true ∨ Initializes modules m ∧
    ∃ root, roots root ∧ ReflTransGen (ComesTo (moduleNeeds modules)) root m
  ends : ∀ root, roots root → ∃ fuel, Terminates (visit (moduleNeeds modules) fuel root)

theorem Staged.refl (loaded : Loaded modules s) : Staged modules s (fun _ => False) s where
  loaded := loaded
  grown m := by simp
  ends := nofun

theorem Staged.trans {u : ModuleTable n} {first later : Fin n → Prop}
    (head : Staged modules s first u) (tail : Staged modules u later t) :
    Staged modules s (fun root => first root ∨ later root) t where
  loaded := tail.loaded
  grown m := by
    rw [tail.grown, head.grown]
    simp only [or_and_right, exists_or, and_or_left, or_assoc]
  ends root either := either.elim (head.ends root) (tail.ends root)

theorem Tried.staged (ended : Tried modules s [some mod] st t) :
    Staged modules s (· = mod) t where
  loaded := ended.loaded
  grown m := by
    rw [ended.grown]
    simp [Reaches]
  ends root same := by
    rw [same]
    exact ended.visits

theorem Staged.congr {roots others : Fin n → Prop} (staged : Staged modules s roots t)
    (same : ∀ root, roots root ↔ others root) : Staged modules s others t := by
  have equal : roots = others := funext fun root => propext (same root)
  rwa [← equal]

theorem initStage_staged (named : ∀ m, (modules m).name.isSome = true) {stage : ModuleStage}
    {places : List (Fin n)} (loaded : Loaded modules s)
    (done : modBuiltinInitStage modules fuel stage places s = .ok t) :
    Staged modules s (fun root => root ∈ places ∧ (modules root).stage = stage) t := by
  induction places generalizing s with
  | nil =>
    cases Exec.pure_ok.mp done
    exact (Staged.refl loaded).congr (by simp)
  | cons mod rest ih =>
    rw [modBuiltinInitStage] at done
    by_cases other : (modules mod).stage ≠ stage
    · rw [if_pos other] at done
      refine (ih loaded done).congr fun root => ?_
      rw [List.mem_cons, or_and_right]
      have never : ¬(root = mod ∧ (modules root).stage = stage) := by
        rintro ⟨rfl, here⟩
        exact other here
      tauto
    · rw [if_neg other] at done
      obtain ⟨⟨st, u⟩, there, later⟩ := Exec.bind_ok.mp done
      have ended := init_ended named loaded there
      refine (ended.staged.trans (ih ended.loaded later)).congr fun root => ?_
      rw [List.mem_cons, or_and_right]
      have same : root = mod ↔ root = mod ∧ (modules root).stage = stage := by
        refine ⟨fun same => ⟨same, ?_⟩, And.left⟩
        rw [same]
        exact not_not.mp other
      rw [← same]

theorem initStages_staged (named : ∀ m, (modules m).name.isSome = true)
    {stages : List ModuleStage} (loaded : Loaded modules s)
    (done : initStages modules fuel stages s = .ok t) :
    Staged modules s (fun root => (modules root).stage ∈ stages) t := by
  induction stages generalizing s with
  | nil =>
    cases Exec.pure_ok.mp done
    exact (Staged.refl loaded).congr (by simp)
  | cons stage rest ih =>
    unfold initStages at done
    rw [List.foldlM_cons] at done
    obtain ⟨u, there, later⟩ := Exec.bind_ok.mp done
    have staged := initStage_staged named loaded there
    refine (staged.trans (ih staged.loaded later)).congr fun root => ?_
    simp

theorem initStage_ends (named : ∀ m, (modules m).name.isSome = true) {stage : ModuleStage}
    (places : List (Fin n)) (loaded : Loaded modules s)
    (ends : ∀ root, (modules root).stage = stage →
      Terminates (visit (moduleNeeds modules) fuel root)) :
    ∃ t, modBuiltinInitStage modules fuel stage places s = .ok t := by
  induction places generalizing s with
  | nil => exact ⟨s, rfl⟩
  | cons mod rest ih =>
    rw [modBuiltinInitStage]
    by_cases other : (modules mod).stage ≠ stage
    · rw [if_pos other]
      exact ih loaded
    · rw [if_neg other]
      obtain ⟨st, u, done⟩ := init_ends named loaded (ends mod (not_not.mp other))
      rw [done, Exec.ok_bind]
      exact ih (init_ended named loaded done).loaded

theorem initStages_ends (named : ∀ m, (modules m).name.isSome = true)
    {stages : List ModuleStage} (loaded : Loaded modules s)
    (ends : ∀ root, (modules root).stage ∈ stages →
      Terminates (visit (moduleNeeds modules) fuel root)) :
    ∃ t, initStages modules fuel stages s = .ok t := by
  induction stages generalizing s with
  | nil => exact ⟨s, rfl⟩
  | cons stage rest ih =>
    obtain ⟨u, there⟩ := initStage_ends named (List.finRange n) loaded fun root here =>
      ends root (here ▸ List.mem_cons_self)
    unfold initStages at ih ⊢
    rw [List.foldlM_cons, there, Exec.ok_bind]
    exact ih (initStage_staged named loaded there).loaded fun root member =>
      ends root (List.mem_cons_of_mem _ member)

/-- Ways that end share an amount of fuel. -/
theorem exists_fuel {roots : Fin n → Prop}
    (ends : ∀ root, roots root → ∃ fuel, Terminates (visit (moduleNeeds modules) fuel root)) :
    ∃ fuel, ∀ root, roots root → Terminates (visit (moduleNeeds modules) fuel root) := by
  have each : ∀ root, ∃ fuel, roots root →
      Terminates (visit (moduleNeeds modules) fuel root) := by
    intro root
    by_cases here : roots root
    · obtain ⟨fuel, terminates⟩ := ends root here
      exact ⟨fuel, fun _ => terminates⟩
    · exact ⟨0, fun root => absurd root here⟩
  choose fuel enough using each
  refine ⟨Finset.univ.sup fuel, fun root here => ?_⟩
  rw [visit_mono (Finset.le_sup (Finset.mem_univ root)) rfl (enough root here)]
  exact enough root here

end

/-- The sink of the framebuffer, and the framebuffer in a later stage. -/
def displayModules : Fin 2 → Module
  | 0 => ⟨some "fbsink", .stage2, some ⟨["fb"], 0⟩⟩
  | 1 => ⟨some "fb", .stage3, some ⟨[], 0⟩⟩

theorem displayModules_named : ∀ m, (displayModules m).name.isSome = true := by
  decide

theorem displayModules_run :
    ∃ t, initStages displayModules 3 [.stage2] (ModuleTable.boot 2) = .ok t ∧
      t.initialized 1 = true ∧ t.returned = [(0, 0), (1, 0)] :=
  ⟨_, rfl, rfl, rfl⟩

section

variable {n : Nat} {modules : Fin n → Module} {t : ModuleTable n} {fuel : Nat}

/-- The stages come to an end if and only if no module of theirs fails by a way that leads round in
    a circle. -/
theorem modules_end_iff (named : ∀ m, (modules m).name.isSome = true)
    (stages : List ModuleStage) :
    (∃ fuel t, initStages modules fuel stages (ModuleTable.boot n) = .ok t) ↔
      ∀ mod, (modules mod).stage ∈ stages → NoReturn (Turns (moduleNeeds modules)) mod := by
  constructor
  · rintro ⟨fuel, t, done⟩ mod member
    have visits := (initStages_staged named Loaded.boot done).ends mod member
    exact (visit_terminates_iff (Set.toFinite _)).mp visits
  · intro noReturn
    obtain ⟨fuel, ends⟩ := exists_fuel fun mod member =>
      (visit_terminates_iff (Set.toFinite _)).mpr (noReturn mod member)
    exact ⟨fuel, initStages_ends named Loaded.boot ends⟩

theorem modules_end_iff_display : NoReturn (Turns (moduleNeeds displayModules)) 0 := by
  obtain ⟨t, done, -⟩ := displayModules_run
  exact (modules_end_iff displayModules_named [.stage2]).mp ⟨3, t, done⟩ 0 (by decide)

/-- The stages initialize a module if and only if it has a `main`, it and all that it needs are
    there and work, without a circle, and it is come to from a module of theirs. -/
theorem modules_initialized_iff (named : ∀ m, (modules m).name.isSome = true)
    {stages : List ModuleStage}
    (done : initStages modules fuel stages (ModuleTable.boot n) = .ok t) (mod : Fin n) :
    t.initialized mod = true ↔
      ((modules mod).main.isSome = true ∧ Sound (moduleNeeds modules) mod) ∧
        ∃ root, (modules root).stage ∈ stages ∧
          ReflTransGen (ComesTo (moduleNeeds modules)) root mod := by
  rw [(initStages_staged named Loaded.boot done).grown]
  simp [ModuleTable.boot, Initializes]

/-- The framebuffer is initialized before its stage. -/
theorem modules_initialized_iff_display : Sound (moduleNeeds displayModules) 1 := by
  obtain ⟨t, done, here, -⟩ := displayModules_run
  exact ((modules_initialized_iff displayModules_named done 1).mp here).1.2

/-- Each `main` succeeds once if its module is initialized, and else not at all, and only after
    those of all that it needs. -/
theorem modules_once (named : ∀ m, (modules m).name.isSome = true) {stages : List ModuleStage}
    (done : initStages modules fuel stages (ModuleTable.boot n) = .ok t) (mod : Fin n) :
    t.returned.countP (Succeeded mod) = (if t.initialized mod = true then 1 else 0) ∧
      ∀ entry earlier, entry :: earlier <:+ t.returned → Succeeded mod entry →
        ∀ q, LeadsTo (moduleNeeds modules) mod q → (modules q).main.isSome = true →
          ∃ before ∈ earlier, Succeeded q before := by
  have loaded := (initStages_staged named Loaded.boot done).loaded
  exact ⟨loaded.counted mod, loaded.ordered mod⟩

theorem modules_once_display : ∃ before ∈ [((1 : Fin 2), (0 : Int))], Succeeded 1 before := by
  obtain ⟨t, done, -, returned⟩ := displayModules_run
  have once := (modules_once displayModules_named done 0).2
  rw [returned] at once
  have needs : LeadsTo (moduleNeeds displayModules) 0 1 := by
    unfold LeadsTo
    decide
  exact once (0, 0) [(1, 0)] List.suffix_rfl ⟨rfl, le_rfl⟩ 1 needs rfl

end

end Dxgmx
