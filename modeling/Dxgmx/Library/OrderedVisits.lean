import Dxgmx.Library.Exec
import Dxgmx.Library.Traversal
import Mathlib.Data.Set.Finite.Basic

open Relation

namespace Library

/-- The places of a list are visited in order. A missing one ends it all. -/
def visitAll {ν : Type} (inner : ν → Exec Unit) : List (Option ν) → Exec Unit
  | [] => .ok ()
  | none :: _ => .error .panic
  | some q :: rest => do
    inner q
    visitAll inner rest

/-- A walk that visits everything a place says, and has no memory of where it has been. -/
def visit {ν : Type} (next : ν → List (Option ν)) : Nat → ν → Exec Unit
  | 0, _ => .error .fuel
  | fuel + 1, p => visitAll (visit next fuel) (next p)

section

variable {ν : Type} (next : ν → List (Option ν))

def LeadsTo (p q : ν) : Prop := some q ∈ next p

/-- Nothing that is come to names a missing place, and nothing is come to again from itself. -/
structure Sound (p : ν) : Prop where
  present : ∀ q, ReflTransGen (LeadsTo next) p q → none ∉ next q
  noReturn : NoReturn (LeadsTo next) p

def SoundAt : Option ν → Prop
  | none => False
  | some q => Sound next q

/-- The first of the places named that is not sound. -/
def FirstBad (p : ν) (t : Option ν) : Prop :=
  ∃ before after, next p = before ++ t :: after ∧ (∀ s ∈ before, SoundAt next s) ∧ ¬ SoundAt next t

/-- Where a visit goes wrong it goes wrong there. -/
def Turns (p q : ν) : Prop := FirstBad next p (some q)

/-- A visit of `p` comes to `q`, as all before it are sound. -/
def ComesTo (p q : ν) : Prop :=
  ∃ before after, next p = before ++ some q :: after ∧ ∀ s ∈ before, SoundAt next s

/-- What a visit of these places comes to. -/
def Reaches : List (Option ν) → ν → Prop
  | [], _ => False
  | none :: _, _ => False
  | some q :: rest, r => ReflTransGen (ComesTo next) q r ∨ Sound next q ∧ Reaches rest r

variable {next} {p q : ν} {t s : Option ν} {inner more : ν → Exec Unit} {fuel : Nat}
variable {places before after : List (Option ν)}

/-- How an execution ends, whatever value it ends with. -/
def outcome {α : Type} (x : Exec α) : Exec Unit := x.map fun _ => ()

theorem outcome_bind {α β : Type} {x : Exec α} {f : α → Exec β} {y : Exec Unit}
    (each : ∀ a, outcome (f a) = y) : outcome (x >>= f) = outcome x >>= fun _ => y := by
  cases x with
  | error stop => rfl
  | ok a => exact each a

theorem outcome_ok {α : Type} {x : Exec α} : outcome x = .ok () ↔ ∃ a, x = .ok a := by
  cases x with
  | error stop => exact ⟨nofun, nofun⟩
  | ok a => exact ⟨fun _ => ⟨a, rfl⟩, fun _ => rfl⟩

theorem Sound.follow (sound : Sound next p) (follows : LeadsTo next p q) : Sound next q where
  present := fun r reached => sound.present r (.head follows reached)
  noReturn := fun r reached => sound.noReturn r (.head follows reached)

/-- A place is sound if everything it names is. -/
theorem sound_iff : Sound next p ↔ ∀ s ∈ next p, SoundAt next s := by
  constructor
  · intro sound s member
    cases s with
    | none => exact sound.present p .refl member
    | some q => exact sound.follow member
  · intro all
    refine ⟨fun q reached missing => ?_, fun q reached cycle => ?_⟩
    · rcases ReflTransGen.cases_head reached with rfl | ⟨r, first, rest⟩
      · exact all none missing
      · exact (all _ first : Sound next r).present q rest missing
    · rcases ReflTransGen.cases_head reached with rfl | ⟨r, first, rest⟩
      · obtain ⟨r, first, rest⟩ := TransGen.head'_iff.mp cycle
        exact (all _ first : Sound next r).noReturn p rest cycle
      · exact (all _ first : Sound next r).noReturn q rest cycle

theorem exists_firstBad (unsound : ¬ Sound next p) : ∃ t, FirstBad next p t := by
  rw [sound_iff] at unsound
  suffices ∀ places : List (Option ν), (¬ ∀ s ∈ places, SoundAt next s) →
      ∃ t before after, places = before ++ t :: after ∧ (∀ s ∈ before, SoundAt next s) ∧
        ¬ SoundAt next t from this _ unsound
  intro places
  induction places with
  | nil => exact fun bad => absurd (by simp) bad
  | cons s rest ih =>
    intro bad
    by_cases here : SoundAt next s
    · obtain ⟨t, before, after, rfl, good, wrong⟩ :=
        ih fun all => bad (List.forall_mem_cons.mpr ⟨here, all⟩)
      exact ⟨t, s :: before, after, rfl, List.forall_mem_cons.mpr ⟨here, good⟩, wrong⟩
    · exact ⟨s, [], rest, rfl, nofun, here⟩

theorem FirstBad.unique (first : FirstBad next p t) (second : FirstBad next p s) : t = s := by
  obtain ⟨before, after, split, good, wrong⟩ := first
  obtain ⟨before', after', split', good', wrong'⟩ := second
  rw [split] at split'
  rcases List.append_eq_append_iff.mp split' with ⟨middle, rfl, rest⟩ | ⟨middle, rfl, rest⟩
  · cases middle with
    | nil => exact (List.cons.inj rest).1
    | cons u middle =>
      obtain ⟨rfl, -⟩ := List.cons.inj rest
      exact absurd (good' t (by simp)) wrong
  · cases middle with
    | nil => exact (List.cons.inj rest).1.symm
    | cons u middle =>
      obtain ⟨rfl, -⟩ := List.cons.inj rest
      exact absurd (good s (by simp)) wrong'

theorem FirstBad.unsound (first : FirstBad next p t) : ¬ Sound next p := by
  obtain ⟨before, after, split, -, wrong⟩ := first
  exact fun sound => wrong (sound_iff.mp sound t (by rw [split]; simp))

theorem Turns.follows (turns : Turns next p q) : LeadsTo next p q := by
  obtain ⟨before, after, split, -⟩ := turns
  unfold LeadsTo
  rw [split]
  simp

theorem ComesTo.follows (comes : ComesTo next p q) : LeadsTo next p q := by
  obtain ⟨before, after, split, -⟩ := comes
  unfold LeadsTo
  rw [split]
  simp

theorem Sound.comesTo (sound : Sound next p) (follows : LeadsTo next p q) : ComesTo next p q := by
  obtain ⟨before, after, split⟩ := List.append_of_mem follows
  refine ⟨before, after, split, fun s member => sound_iff.mp sound s ?_⟩
  rw [split]
  exact List.mem_append_left _ member

theorem reaches_iff {r : ν} : Reaches next places r ↔ ∃ before q after,
    places = before ++ some q :: after ∧ (∀ s ∈ before, SoundAt next s) ∧
      ReflTransGen (ComesTo next) q r := by
  induction places with
  | nil => exact ⟨False.elim, fun ⟨_, _, _, split, _⟩ => by simp at split⟩
  | cons t rest ih =>
    constructor
    · intro reaches
      cases t with
      | none => exact reaches.elim
      | some q =>
        rcases reaches with here | ⟨sound, later⟩
        · exact ⟨[], q, rest, rfl, nofun, here⟩
        · obtain ⟨before, p, after, rfl, good, way⟩ := ih.mp later
          exact ⟨some q :: before, p, after, rfl, List.forall_mem_cons.mpr ⟨sound, good⟩, way⟩
    · rintro ⟨before, q, after, split, good, way⟩
      cases before with
      | nil =>
        obtain ⟨rfl, rfl⟩ := List.cons.inj split
        exact .inl way
      | cons s before =>
        obtain ⟨rfl, rfl⟩ := List.cons.inj split
        obtain ⟨here, later⟩ := List.forall_mem_cons.mp good
        cases t with
        | none => exact here.elim
        | some p => exact .inr ⟨here, ih.mpr ⟨before, q, after, rfl, later, way⟩⟩

theorem reaches_next {r : ν} : Reaches next (next p) r ↔ TransGen (ComesTo next) p r := by
  rw [reaches_iff, TransGen.head'_iff]
  constructor
  · rintro ⟨before, q, after, split, good, way⟩
    exact ⟨q, ⟨before, after, split, good⟩, way⟩
  · rintro ⟨q, ⟨before, after, split, good⟩, way⟩
    exact ⟨before, q, after, split, good, way⟩

theorem visitAll_mono (le : ∀ q r, inner q = r → Terminates r → more q = r) {r : Exec Unit}
    (done : visitAll inner places = r) (ends : Terminates r) : visitAll more places = r := by
  induction places with
  | nil => exact done
  | cons s rest ih =>
    cases s with
    | none => exact done
    | some q =>
      rw [visitAll] at done ⊢
      cases first : inner q with
      | error stop =>
        rw [first] at done
        have stops : Terminates (.error stop : Exec Unit) := by
          rw [show (.error stop : Exec Unit) = r from done]
          exact ends
        rw [le q _ first stops]
        exact done
      | ok u =>
        rw [first, Exec.ok_bind] at done
        rw [le q _ first (terminates_ok u), Exec.ok_bind]
        exact ih done

theorem visit_mono {fuel larger : Nat} (le : fuel ≤ larger) {r : Exec Unit}
    (done : visit next fuel p = r) (ends : Terminates r) : visit next larger p = r := by
  induction fuel generalizing larger p r with
  | zero =>
    rw [← done] at ends
    exact absurd rfl ends
  | succ fuel ih =>
    obtain ⟨larger, rfl⟩ : ∃ n, larger = n + 1 := ⟨larger - 1, by omega⟩
    exact visitAll_mono (fun q r done ends => ih (Nat.le_of_succ_le_succ le) done ends) done ends

theorem visitAll_append (good : ∀ s ∈ before, ∃ q, s = some q ∧ inner q = .ok ()) :
    visitAll inner (before ++ after) = visitAll inner after := by
  induction before with
  | nil => rfl
  | cons s rest ih =>
    obtain ⟨⟨q, rfl, done⟩, later⟩ := List.forall_mem_cons.mp good
    rw [List.cons_append, visitAll, done, Exec.ok_bind, ih later]

theorem visitAll_append_bind (inner : ν → Exec Unit) (before after : List (Option ν)) :
    visitAll inner (before ++ after) = visitAll inner before >>= fun _ => visitAll inner after := by
  induction before with
  | nil => rfl
  | cons place before ih =>
    cases place with
    | none => rfl
    | some q =>
      simp only [List.cons_append, visitAll, ih]
      cases inner q <;> rfl

/-- Visits that end well share an amount of fuel. -/
theorem exists_common_fuel
    (good : ∀ s ∈ places, ∃ q fuel, s = some q ∧ visit next fuel q = .ok ()) :
    ∃ fuel, ∀ more, fuel ≤ more → ∀ s ∈ places, ∃ q, s = some q ∧ visit next more q = .ok () := by
  induction places with
  | nil => exact ⟨0, fun _ _ => nofun⟩
  | cons s rest ih =>
    obtain ⟨⟨q, first, rfl, done⟩, later⟩ := List.forall_mem_cons.mp good
    obtain ⟨fuel, enough⟩ := ih later
    refine ⟨max first fuel, fun more le => List.forall_mem_cons.mpr ⟨⟨q, rfl, ?_⟩, ?_⟩⟩
    · exact visit_mono (Nat.le_trans (Nat.le_max_left _ _) le) done (terminates_ok _)
    · exact enough more (Nat.le_trans (Nat.le_max_right _ _) le)

theorem visitAll_ok (done : visitAll inner places = .ok ()) :
    ∀ s ∈ places, ∃ q, s = some q ∧ inner q = .ok () := by
  induction places with
  | nil => exact nofun
  | cons s rest ih =>
    cases s with
    | none => cases done
    | some q =>
      obtain ⟨u, here, later⟩ := Exec.bind_ok.mp done
      exact List.forall_mem_cons.mpr ⟨⟨q, rfl, here⟩, ih later⟩

theorem sound_of_visit (done : visit next fuel p = .ok ()) : Sound next p := by
  induction fuel generalizing p with
  | zero => cases done
  | succ fuel ih =>
    refine sound_iff.mpr fun s member => ?_
    obtain ⟨q, rfl, there⟩ := visitAll_ok done s member
    exact ih there

theorem visitAll_panic (stopped : visitAll inner places = .error .panic) :
    ∃ before t after, places = before ++ t :: after ∧
      (∀ s ∈ before, ∃ q, s = some q ∧ inner q = .ok ()) ∧
      ∀ q, t = some q → inner q = .error .panic := by
  induction places with
  | nil => cases stopped
  | cons s rest ih =>
    cases s with
    | none => exact ⟨[], none, rest, rfl, nofun, nofun⟩
    | some q =>
      rw [visitAll] at stopped
      cases here : inner q with
      | error stop =>
        rw [here] at stopped
        refine ⟨[], some q, rest, rfl, nofun, fun r same => ?_⟩
        cases same
        exact here.trans stopped
      | ok u =>
        rw [here, Exec.ok_bind] at stopped
        obtain ⟨before, t, after, rfl, good, wrong⟩ := ih stopped
        exact ⟨some q :: before, t, after, rfl, List.forall_mem_cons.mpr ⟨⟨q, rfl, here⟩, good⟩, wrong⟩

theorem visitAll_cases (inner : ν → Exec Unit) (places : List (Option ν))
    (each : ∀ q, inner q = .ok () ∨ inner q = .error .panic ∨ inner q = .error .fuel) :
    visitAll inner places = .ok () ∨ visitAll inner places = .error .panic ∨
      visitAll inner places = .error .fuel := by
  induction places with
  | nil => exact .inl rfl
  | cons s rest ih =>
    cases s with
    | none => exact .inr (.inl rfl)
    | some q =>
      rw [visitAll]
      rcases each q with done | stopped | out
      · rw [done]
        exact ih
      · rw [stopped]
        exact .inr (.inl rfl)
      · rw [out]
        exact .inr (.inr rfl)

theorem visit_cases (next : ν → List (Option ν)) (fuel : Nat) (p : ν) :
    visit next fuel p = .ok () ∨ visit next fuel p = .error .panic ∨
      visit next fuel p = .error .fuel := by
  induction fuel generalizing p with
  | zero => exact .inr (.inr rfl)
  | succ fuel ih => exact visitAll_cases _ _ ih

section Finite

variable (finite : {p | next p ≠ []}.Finite)

include finite

theorem finite_follows : {p | ∃ q, LeadsTo next p q}.Finite := by
  refine finite.subset fun p member => ?_
  obtain ⟨q, follows⟩ := member
  exact List.ne_nil_of_mem follows

theorem finite_turns : {p | ∃ q, Turns next p q}.Finite :=
  (finite_follows finite).subset fun _ ⟨q, turn⟩ => ⟨q, turn.follows⟩

theorem Sound.visit (sound : Sound next p) : ∃ fuel, Library.visit next fuel p = .ok () := by
  have ends := sound.noReturn.acc (finite_follows finite)
  induction ends with
  | intro p _ ih =>
    have good : ∀ s ∈ next p, ∃ q fuel, s = some q ∧ Library.visit next fuel q = .ok () := by
      intro s member
      have here := sound_iff.mp sound s member
      cases s with
      | none => exact absurd here id
      | some q =>
        obtain ⟨fuel, done⟩ := ih q member here
        exact ⟨q, fuel, rfl, done⟩
    obtain ⟨fuel, enough⟩ := exists_common_fuel good
    have whole := @visitAll_append ν (Library.visit next fuel) (next p) []
      (enough fuel (Nat.le_refl _))
    rw [List.append_nil] at whole
    exact ⟨fuel + 1, whole⟩

theorem unsound_of_panic (panics : Library.visit next fuel p = .error .panic) :
    ¬Sound next p := by
  intro sound
  obtain ⟨other, done⟩ := sound.visit finite
  have ended := visit_mono (Nat.le_max_left other fuel) done (terminates_ok _)
  rw [visit_mono (Nat.le_max_right other fuel) panics terminates_panic] at ended
  cases ended

theorem SoundAt.visit (sound : SoundAt next s) :
    ∃ q fuel, s = some q ∧ Library.visit next fuel q = .ok () := by
  cases s with
  | none => exact absurd sound id
  | some q =>
    obtain ⟨fuel, done⟩ := Sound.visit finite sound
    exact ⟨q, fuel, rfl, done⟩

/-- A visit goes the way of the first place that is not sound. -/
theorem FirstBad.visit (bad : FirstBad next p t) :
    ∃ fuel after, ∀ more, fuel ≤ more →
      Library.visit next (more + 1) p = visitAll (Library.visit next more) (t :: after) := by
  obtain ⟨before, after, split, good, -⟩ := bad
  obtain ⟨fuel, enough⟩ := exists_common_fuel fun s member => (good s member).visit finite
  refine ⟨fuel, after, fun more le => ?_⟩
  rw [Library.visit, split, visitAll_append (enough more le)]

theorem visit_panic_iff : (∃ fuel, visit next fuel p = .error .panic) ↔
    ∃ q, ReflTransGen (Turns next) p q ∧ FirstBad next q none := by
  constructor
  · rintro ⟨fuel, stopped⟩
    induction fuel generalizing p with
    | zero => cases stopped
    | succ fuel ih =>
      obtain ⟨before, t, after, split, good, wrong⟩ := visitAll_panic stopped
      have bad : ¬ SoundAt next t → FirstBad next p t := by
        intro unsound
        refine ⟨before, after, split, fun s member => ?_, unsound⟩
        obtain ⟨q, rfl, done⟩ := good s member
        exact sound_of_visit done
      cases t with
      | none => exact ⟨p, .refl, bad id⟩
      | some q =>
        have there := wrong q rfl
        have unsound : ¬ Sound next q := unsound_of_panic finite there
        obtain ⟨r, turns, missing⟩ := ih there
        exact ⟨r, .head (bad unsound) turns, missing⟩
  · rintro ⟨q, turns, missing⟩
    induction turns using ReflTransGen.head_induction_on with
    | refl =>
      obtain ⟨fuel, after, way⟩ := missing.visit finite
      exact ⟨fuel + 1, way fuel (Nat.le_refl _)⟩
    | head turn _ ih =>
      obtain ⟨later, stopped⟩ := ih
      obtain ⟨fuel, after, way⟩ := FirstBad.visit finite turn
      refine ⟨max fuel later + 1, ?_⟩
      rw [way _ (Nat.le_max_left _ _), visitAll,
        visit_mono (Nat.le_max_right fuel later) stopped (by rintro ⟨⟩)]
      rfl

theorem noReturn_of_terminates {fuel : Nat} (ends : Terminates (visit next fuel p)) :
    NoReturn (Turns next) p := by
  apply noReturn_of_acc
  rcases visit_cases next fuel p with done | stopped | out
  · exact .intro p fun q turn => absurd (sound_of_visit done) (FirstBad.unsound turn)
  · obtain ⟨q, turns, missing⟩ := (visit_panic_iff finite).mp ⟨fuel, stopped⟩
    clear stopped ends
    induction turns using ReflTransGen.head_induction_on with
    | refl =>
      refine .intro q fun r turn => ?_
      cases missing.unique turn
    | head turn _ ih =>
      -- a place turns one way only
      refine .intro _ fun r other => ?_
      cases FirstBad.unique turn other
      exact ih
  · exact absurd out ends

theorem terminates_of_noReturn (noReturn : NoReturn (Turns next) p) :
    ∃ fuel, Terminates (visit next fuel p) := by
  have ends := noReturn.acc (finite_turns finite)
  clear noReturn
  induction ends with
  | intro p _ ih =>
    by_cases sound : Sound next p
    · obtain ⟨fuel, done⟩ := sound.visit finite
      exact ⟨fuel, by rw [done]; exact terminates_ok _⟩
    · obtain ⟨t, bad⟩ := exists_firstBad sound
      cases t with
      | none =>
        obtain ⟨fuel, stopped⟩ := (visit_panic_iff finite).mpr ⟨p, .refl, bad⟩
        exact ⟨fuel, by rw [stopped]; rintro ⟨⟩⟩
      | some q =>
        obtain ⟨later, there⟩ := ih q bad
        obtain ⟨fuel, after, way⟩ := bad.visit finite
        have kept := visit_mono (Nat.le_max_right fuel later) rfl there
        refine ⟨max fuel later + 1, ?_⟩
        rw [way _ (Nat.le_max_left _ _), visitAll, kept]
        cases ended : visit next later q with
        | error stop =>
          rw [ended] at there
          rintro ⟨⟩
          exact there rfl
        | ok u =>
          obtain ⟨-, -, -, -, unsound⟩ := bad
          exact absurd (sound_of_visit ended) unsound

/-- A visit comes to an end exactly where the way it goes wrong does not lead round in a circle. -/
theorem visit_terminates_iff : (∃ fuel, Terminates (visit next fuel p)) ↔
    NoReturn (Turns next) p :=
  ⟨fun ⟨_, ends⟩ => noReturn_of_terminates finite ends, terminates_of_noReturn finite⟩

end Finite

end

end Library
