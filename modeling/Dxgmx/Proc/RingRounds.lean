import Dxgmx.Proc.RingOrder
import Mathlib.Data.List.Nodup
import Mathlib.Data.List.Perm.Basic

open Library

namespace Dxgmx

variable {μ : Type}

/-- Calls of `ringsched_next_proc` one after the other, and the slots they stop at. -/
def ringschedNextProcs (fuel : Nat) :
    (calls : Nat) → Ringsched μ → Exec (List (Nat × Process) × Ringsched μ)
  | 0, sched => pure ([], sched)
  | calls + 1, sched => do
    let (proc, next) ← ringschedNextProc fuel sched
    let (passed, last) ← ringschedNextProcs fuel calls next
    pure ((next.currentProcIdx, proc) :: passed, last)

/-- The slots that are not `NULL`. -/
def occupied (procs : List (Option Process)) : List (Nat × Process) :=
  procs.zipIdx.filterMap fun slot => slot.1.map fun proc => (slot.2, proc)

section Table

variable {procs : List (Option Process)}

theorem mem_occupied {i : Nat} {proc : Process} :
    (i, proc) ∈ occupied procs ↔ procs[i]? = some (some proc) := by
  unfold occupied
  rw [List.mem_filterMap]
  constructor
  · rintro ⟨⟨slot, idx⟩, member, same⟩
    rw [List.mem_zipIdx_iff_getElem?] at member
    cases slot with
    | none => cases same
    | some found =>
      cases same
      exact member
  · intro here
    exact ⟨(some proc, i), List.mem_zipIdx_iff_getElem?.mpr here, rfl⟩

theorem occupied_length : (occupied procs).length = procs.countP Option.isSome := by
  have isSome : ∀ slot : Option Process × Nat,
      (slot.1.map fun proc => (slot.2, proc)).isSome = slot.1.isSome := by
    intro slot
    rw [Option.isSome_map]
  have firsts : procs.zipIdx.map Prod.fst = procs := List.zipIdx_map_fst 0 procs
  unfold occupied
  rw [List.length_filterMap_eq_countP]
  simp only [isSome]
  nth_rewrite 2 [← firsts]
  rw [List.countP_map]
  rfl

theorem occupied_nodup : (occupied procs).Nodup := by
  have order : procs.zipIdx.Nodup := by
    apply List.Nodup.of_map Prod.snd
    rw [List.zipIdx_map_snd]
    exact List.nodup_range'
  apply order.filterMap
  rintro ⟨slot, i⟩ ⟨slot', j⟩ entry one two
  obtain ⟨proc, isSome, same⟩ := Option.map_eq_some_iff.mp one
  obtain ⟨proc', isSome', same'⟩ := Option.map_eq_some_iff.mp two
  cases same
  cases same'
  dsimp only at isSome isSome'
  rw [isSome, isSome']

/-- What is still to come in a round from `start` once the first `gone` places are passed. -/
def remaining (procs : List (Option Process)) (start gone : Nat) : List (Nat × Process) :=
  (occupied procs).filter fun entry => gone ≤ ringDistance procs.length start entry.1

theorem mem_remaining {start gone i : Nat} {proc : Process} :
    (i, proc) ∈ remaining procs start gone ↔
      procs[i]? = some (some proc) ∧ gone ≤ ringDistance procs.length start i := by
  unfold remaining
  rw [List.mem_filter, mem_occupied, decide_eq_true_iff]

theorem remaining_all (start : Nat) : remaining procs start 0 = occupied procs := by
  unfold remaining
  simp

/-- The nearest process comes first, and the rest of the round behind it. -/
theorem remaining_next {start gone i : Nat} {proc : Process} (inside : start < procs.length)
    (next : (i, proc) ∈ remaining procs start gone)
    (first : ∀ entry ∈ remaining procs start gone,
      ringDistance procs.length start i ≤ ringDistance procs.length start entry.1) :
    (remaining procs start gone).Perm
      ((i, proc) :: remaining procs start (ringDistance procs.length start i + 1)) := by
  obtain ⟨here, later⟩ := mem_remaining.mp next
  have fresh : (i, proc) ∉ remaining procs start (ringDistance procs.length start i + 1) := by
    intro again
    have behind := (mem_remaining.mp again).2
    omega
  apply (List.perm_ext_iff_of_nodup (occupied_nodup.filter _)
    (List.nodup_cons.mpr ⟨fresh, occupied_nodup.filter _⟩)).mpr
  rintro ⟨j, other⟩
  rw [List.mem_cons]
  constructor
  · intro member
    obtain ⟨there, later'⟩ := mem_remaining.mp member
    rcases Nat.eq_or_lt_of_le (first _ member) with same | behind
    · left
      have index := ringDistance_inj (List.getElem?_eq_some_iff.mp here).1
        (List.getElem?_eq_some_iff.mp there).1 inside same
      rw [← index, here] at there
      cases there
      rw [index]
    · right
      exact mem_remaining.mpr ⟨there, behind⟩
  · intro member
    rcases member with same | member
    · rw [same]
      exact next
    · obtain ⟨there, behind⟩ := mem_remaining.mp member
      exact mem_remaining.mpr ⟨there, by omega⟩

end Table

section Round

/-- The cursor is where the round began, or at the last place that is gone. -/
def AtPlace (length start gone cur : Nat) : Prop :=
  gone = 0 ∧ cur = start ∨ gone = ringDistance length start cur + 1

theorem ringDistance_remaining {length start gone cur i j : Nat} (inside : start < length)
    (insideCur : cur < length) (insideI : i < length) (insideJ : j < length)
    (place : AtPlace length start gone cur) (ahead : gone ≤ ringDistance length start j)
    (first : ringDistance length cur i ≤ ringDistance length cur j) :
    gone ≤ ringDistance length start i ∧
      ringDistance length start i ≤ ringDistance length start j := by
  rcases place with ⟨rfl, rfl⟩ | rfl
  · exact ⟨Nat.zero_le _, first⟩
  · refine ⟨?_, ringDistance_ahead insideI insideJ inside insideCur ahead first⟩
    unfold ringDistance at *
    split at ahead <;> split at ahead <;> split at first <;> split at first <;> split <;>
      split <;> omega

theorem ringschedNextProc_last {fuel : Nat} {sched : Ringsched μ}
    (outside : sched.sys.procs.length ≤ sched.currentProcIdx) :
    ringschedNextProc fuel sched =
      ringschedNextProc fuel { sched with currentProcIdx := sched.sys.procs.length - 1 } := by
  have same : ringschedNextLoop sched.sys.procs fuel (sched.currentProcIdx + 1) =
      ringschedNextLoop sched.sys.procs fuel (sched.sys.procs.length - 1 + 1) := by
    cases fuel with
    | zero => rfl
    | succ fuel =>
      rw [ringschedNextLoop, ringschedNextLoop, List.getElem?_eq_none (by omega),
        List.getElem?_eq_none (by omega)]
  unfold ringschedNextProc
  rw [same]

/-- A call stops at the first of the places that remain. -/
theorem ringschedNextProc_remaining {fuel start gone : Nat} {sched : Ringsched μ}
    (inside : start < sched.sys.procs.length)
    (insideCur : sched.currentProcIdx < sched.sys.procs.length)
    (place : AtPlace sched.sys.procs.length start gone sched.currentProcIdx)
    (left : remaining sched.sys.procs start gone ≠ [])
    (enough : 2 * sched.sys.procs.length + 2 ≤ fuel) :
    ∃ i proc, ringschedNextProc fuel sched = .ok (proc, { sched with currentProcIdx := i }) ∧
      (i, proc) ∈ remaining sched.sys.procs start gone ∧
      ∀ entry ∈ remaining sched.sys.procs start gone,
        ringDistance sched.sys.procs.length start i ≤
          ringDistance sched.sys.procs.length start entry.1 := by
  obtain ⟨⟨k, some_proc⟩, member⟩ := List.exists_mem_of_ne_nil _ left
  obtain ⟨live, later⟩ := mem_remaining.mp member
  obtain ⟨i, proc, search, here, -⟩ :=
    @ringschedNextLoop_found _ fuel sched.currentProcIdx k some_proc live enough
  have found : ringschedNextProc fuel sched = .ok (proc, { sched with currentProcIdx := i }) := by
    unfold ringschedNextProc
    rw [search]
    rfl
  have nearest := (ringschedNextProc_ok found).2.2
  have insideI := (List.getElem?_eq_some_iff.mp here).1
  refine ⟨i, proc, found, mem_remaining.mpr ⟨here, ?_⟩, ?_⟩
  · have insideK := (List.getElem?_eq_some_iff.mp live).1
    exact (ringDistance_remaining inside insideCur insideI insideK place later
      (nearest k some_proc live)).1
  · rintro ⟨j, other⟩ isLeft
    obtain ⟨there, ahead⟩ := mem_remaining.mp isLeft
    have insideJ := (List.getElem?_eq_some_iff.mp there).1
    exact (ringDistance_remaining inside insideCur insideI insideJ place ahead
      (nearest j other there)).2

theorem ringschedNextProcs_remaining {fuel start gone : Nat} {sched : Ringsched μ} (calls : Nat)
    (inside : start < sched.sys.procs.length)
    (insideCur : sched.currentProcIdx < sched.sys.procs.length)
    (place : AtPlace sched.sys.procs.length start gone sched.currentProcIdx)
    (count : (remaining sched.sys.procs start gone).length = calls)
    (enough : 2 * sched.sys.procs.length + 2 ≤ fuel) :
    ∃ passed last, ringschedNextProcs fuel calls sched = .ok (passed, last) ∧
      passed.Perm (remaining sched.sys.procs start gone) ∧ last.sys = sched.sys := by
  induction calls generalizing gone sched with
  | zero =>
    rw [List.length_eq_zero_iff.mp count]
    exact ⟨[], sched, rfl, List.Perm.refl _, rfl⟩
  | succ calls ih =>
    have left : remaining sched.sys.procs start gone ≠ [] := by
      apply List.ne_nil_of_length_pos
      omega
    obtain ⟨i, proc, found, next, first⟩ :=
      ringschedNextProc_remaining inside insideCur place left enough
    have here := (mem_remaining.mp next).1
    have round := remaining_next inside next first
    have fewer := round.length_eq
    rw [List.length_cons, count] at fewer
    obtain ⟨passed, last, rest, others, same⟩ := @ih
      (ringDistance sched.sys.procs.length start i + 1) { sched with currentProcIdx := i }
      inside (List.getElem?_eq_some_iff.mp here).1 (.inr rfl) (Nat.succ.inj fewer).symm enough
    refine ⟨(i, proc) :: passed, last, ?_, (others.cons _).trans round.symm, same⟩
    rw [ringschedNextProcs, found]
    show (ringschedNextProcs fuel calls { sched with currentProcIdx := i } >>= _) = _
    rw [rest]
    rfl

theorem ringschedNextProcs_all {fuel : Nat} {sched : Ringsched μ}
    (inside : sched.currentProcIdx < sched.sys.procs.length)
    (enough : 2 * sched.sys.procs.length + 2 ≤ fuel) :
    ∃ passed last,
      ringschedNextProcs fuel (sched.sys.procs.countP Option.isSome) sched = .ok (passed, last) ∧
        passed.Perm (occupied sched.sys.procs) ∧ last.sys = sched.sys := by
  rw [← occupied_length, ← remaining_all sched.currentProcIdx]
  exact ringschedNextProcs_remaining _ inside inside (.inl ⟨rfl, rfl⟩) rfl enough

/-- As many calls as there are processes pass each of them once, wherever the cursor is. -/
theorem ringsched_round (fuel : Nat) (sched : Ringsched μ)
    (enough : 2 * sched.sys.procs.length + 2 ≤ fuel) :
    ∃ passed last,
      ringschedNextProcs fuel (sched.sys.procs.countP Option.isSome) sched = .ok (passed, last) ∧
        passed.Perm (occupied sched.sys.procs) ∧ last.sys = sched.sys := by
  by_cases inside : sched.currentProcIdx < sched.sys.procs.length
  · exact ringschedNextProcs_all inside enough
  · rw [← occupied_length]
    -- Such a cursor wraps at once, as the last one of the table does.
    cases count : (occupied sched.sys.procs).length with
    | zero =>
      rw [List.length_eq_zero_iff.mp count]
      exact ⟨[], sched, rfl, List.Perm.refl _, rfl⟩
    | succ calls =>
      have some_slot : 0 < sched.sys.procs.length := by
        have fits := List.countP_le_length (l := sched.sys.procs) (p := Option.isSome)
        rw [← occupied_length, count] at fits
        omega
      have round := @ringschedNextProcs_all _ fuel
        { sched with currentProcIdx := sched.sys.procs.length - 1 } (by dsimp only; omega) enough
      dsimp only at round
      rw [← occupied_length, count, ringschedNextProcs,
        ← ringschedNextProc_last (Nat.le_of_not_lt inside)] at round
      exact round

/-- Three processes and two holes, with the cursor at the last process. -/
def sparseRing : Ringsched Unit :=
  ⟨{ System.boot sha1OfKeys () with
      procs := [none, some ⟨2, [], 0, false, 0⟩, none, some ⟨4, [], 0, true, 0⟩,
        some ⟨5, [], 0, false, 7⟩],
      procCount := 3 }, 4⟩

theorem ringsched_round_sparseRing :
    ∃ passed last, ringschedNextProcs 12 3 sparseRing = .ok (passed, last) ∧
      passed.Perm [(1, ⟨2, [], 0, false, 0⟩), (3, ⟨4, [], 0, true, 0⟩),
        (4, ⟨5, [], 0, false, 7⟩)] ∧ last.sys = sparseRing.sys :=
  ringsched_round 12 sparseRing (by decide)

end Round

end Dxgmx
