import Dxgmx.Library.Blocks
import Mathlib.Data.List.Nodup

namespace Library

/-- A node of a singly linked list. NULL is 0. -/
structure Node where
  data : Nat
  next : Nat
  deriving DecidableEq

/-- The nodes from `start` up to `stop`, each with its address and its data. -/
def Segment (nodes : Blocks Node) : Nat → List (Nat × Nat) → Nat → Prop
  | start, [], stop => start = stop
  | start, (addr, data) :: rest, stop =>
    start = addr ∧ ∃ next, nodes addr = some ⟨data, next⟩ ∧ Segment nodes next rest stop

/-- The last node, or what comes before where there is none. -/
def lastAddr (prev : Nat) (entries : List (Nat × Nat)) : Nat :=
  (entries.getLast?.map Prod.fst).getD prev

variable {nodes other : Blocks Node} {start mid stop prev addr data : Nat}
variable {first second entries : List (Nat × Nat)}

theorem lastAddr_nil (prev : Nat) : lastAddr prev [] = prev := rfl

theorem lastAddr_concat (prev : Nat) (entries : List (Nat × Nat)) (addr data : Nat) :
    lastAddr prev (entries ++ [(addr, data)]) = addr := by
  simp [lastAddr]

theorem lastAddr_cons (prev addr data : Nat) (entries : List (Nat × Nat)) :
    lastAddr prev ((addr, data) :: entries) = lastAddr addr entries := by
  cases entries with
  | nil => rfl
  | cons entry rest => simp [lastAddr, List.getLast?_cons]

theorem lastAddr_append (prev : Nat) (first second : List (Nat × Nat)) :
    lastAddr prev (first ++ second) = lastAddr (lastAddr prev first) second := by
  induction first generalizing prev with
  | nil => rfl
  | cons entry rest ih =>
    show lastAddr prev (entry :: (rest ++ second)) = _
    rw [lastAddr_cons, lastAddr_cons, ih]

theorem lastAddr_mem (nonempty : entries ≠ []) : lastAddr prev entries ∈ entries.map Prod.fst := by
  rcases List.eq_nil_or_concat entries with rfl | ⟨initial, last, rfl⟩
  · exact absurd rfl nonempty
  · simp [lastAddr]

theorem segment_append : Segment nodes start (first ++ second) stop ↔
    ∃ mid, Segment nodes start first mid ∧ Segment nodes mid second stop := by
  induction first generalizing start with
  | nil => simp [Segment]
  | cons entry rest ih =>
    simp only [List.cons_append, Segment, ih]
    constructor
    · rintro ⟨rfl, next, here, mid, initial, last⟩
      exact ⟨mid, ⟨rfl, next, here, initial⟩, last⟩
    · rintro ⟨mid, ⟨rfl, next, here, initial⟩, last⟩
      exact ⟨rfl, next, here, mid, initial, last⟩

theorem Segment.agree (segment : Segment nodes start entries stop)
    (same : ∀ addr ∈ entries.map Prod.fst, other addr = nodes addr) :
    Segment other start entries stop := by
  induction entries generalizing start with
  | nil => exact segment
  | cons entry rest ih =>
    obtain ⟨rfl, next, here, later⟩ := segment
    refine ⟨rfl, next, (same entry.1 List.mem_cons_self).trans here, ?_⟩
    exact ih later fun addr member => same addr (List.mem_cons_of_mem _ member)

theorem Segment.live (segment : Segment nodes start entries stop)
    (member : addr ∈ entries.map Prod.fst) : ∃ node, nodes addr = some node := by
  induction entries generalizing start with
  | nil => cases member
  | cons entry rest ih =>
    obtain ⟨rfl, next, here, later⟩ := segment
    rcases List.mem_cons.mp member with rfl | member
    · exact ⟨_, here⟩
    · exact ih later member

theorem Segment.update (segment : Segment nodes start entries stop)
    (outside : addr ∉ entries.map Prod.fst) (stored : Option Node) :
    Segment (Function.update nodes addr stored) start entries stop :=
  segment.agree fun other member =>
    Function.update_of_ne (fun same : other = addr => outside (same ▸ member)) _ _

/-- The last node is let point elsewhere. -/
theorem Segment.relink {initial : List (Nat × Nat)}
    (segment : Segment nodes start (initial ++ [(addr, data)]) stop)
    (outside : addr ∉ initial.map Prod.fst) (stop' : Nat) :
    nodes addr = some ⟨data, stop⟩ ∧
      Segment (Function.update nodes addr (some ⟨data, stop'⟩)) start
        (initial ++ [(addr, data)]) stop' := by
  obtain ⟨mid, before, rfl, next, here, rfl⟩ := segment_append.mp segment
  refine ⟨here, segment_append.mpr ⟨mid, before.update outside _, rfl, stop', ?_, rfl⟩⟩
  exact Function.update_self _ _ _

/-- The list without one of its nodes, once the node before it points behind it. -/
theorem Segment.unlink {next : Nat} (segment : Segment nodes start (first ++ (addr, data) :: second) stop)
    (distinct : ((first ++ (addr, data) :: second).map Prod.fst).Nodup)
    (here : nodes addr = some ⟨data, next⟩) :
    (first = [] → start = addr ∧
      Segment (Function.update nodes addr none) next second stop) ∧
    ∀ initial prev old, first = initial ++ [(prev, old)] →
      nodes prev = some ⟨old, addr⟩ ∧
      Segment (Function.update (Function.update nodes prev (some ⟨old, next⟩)) addr none) start
        (first ++ second) stop := by
  obtain ⟨mid, before, rfl, next', here', after⟩ := segment_append.mp segment
  obtain rfl : next = next' := by
    rw [here] at here'
    cases here'
    rfl
  rw [List.map_append, List.map_cons] at distinct
  obtain ⟨-, later, apart⟩ := List.nodup_append.mp distinct
  obtain ⟨notLater, later⟩ := List.nodup_cons.mp later
  refine ⟨?_, ?_⟩
  · rintro rfl
    exact ⟨before, after.update notLater none⟩
  · rintro initial prev old rfl
    have member : prev ∈ (initial ++ [(prev, old)]).map Prod.fst := by simp
    have notInitial : prev ∉ initial.map Prod.fst := by
      rw [List.map_append] at distinct
      have own := (List.nodup_append.mp (List.nodup_append.mp distinct).1).2.2
      exact fun inside => own prev inside prev (by simp) rfl
    have other : prev ≠ mid := apart prev member mid List.mem_cons_self
    have notAfter : prev ∉ second.map Prod.fst :=
      fun inside => apart prev member prev (List.mem_cons_of_mem _ inside) rfl
    obtain ⟨prevHere, linked⟩ := before.relink notInitial next
    refine ⟨prevHere, segment_append.mpr ⟨next, linked.update ?_ none, ?_⟩⟩
    · exact fun inside => apart mid inside mid List.mem_cons_self rfl
    · exact (after.update notAfter _).update notLater none

end Library
