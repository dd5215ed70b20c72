import Dxgmx.Input.Ps2kbd

open Library

namespace Dxgmx

/-- Every event comes in a later millisecond than the one before it or the opening, a call wants at
    most one event, and the first round of a reader comes before the events since its opening have
    gone past the end of the ring. -/
def KbdAction.Apart (action : KbdAction) (s : KbdSystem) : Prop :=
  ∀ reader ∈ s.reader,
    match action with
    | .cache ev => s.clock.ms < ev.time.ms
    | .read n => n % sizeofInputEvent = 0 → n / sizeofInputEvent ≤ 1
    | .round => reader.received = [] → reader.arrived.length ≤ s.kbd.cachedEventIdx
    | _ => True

instance kbdActionApartDecidable (action : KbdAction) (s : KbdSystem) :
    Decidable (action.Apart s) :=
  match action with
  | .cache ev => inferInstanceAs (Decidable (∀ reader ∈ s.reader, s.clock.ms < ev.time.ms))
  | .read n => inferInstanceAs (Decidable (∀ reader ∈ s.reader,
      n % sizeofInputEvent = 0 → n / sizeofInputEvent ≤ 1))
  | .round => inferInstanceAs (Decidable (∀ reader ∈ s.reader,
      reader.received = [] → reader.arrived.length ≤ s.kbd.cachedEventIdx))
  | .openVnode _ => inferInstanceAs (Decidable (∀ reader ∈ s.reader, True))
  | .done => inferInstanceAs (Decidable (∀ reader ∈ s.reader, True))

/-- Where in the ring event number `j` since the opening goes. -/
def ringPlace (start j : Nat) : Nat := (start + j) % cachedEventCount

theorem ringPlace_lt (start j : Nat) : ringPlace start j < 64 := Nat.mod_lt _ (by decide)

/-- Two of the last 64 events are in different places. -/
theorem ringPlace_inj {start i j : Nat} (same : ringPlace start i = ringPlace start j)
    (near : i < j + 64) (near' : j < i + 64) : i = j := by
  unfold ringPlace cachedEventCount at same
  omega

theorem Timespec.NotAfter.ms {first second : Timespec} (order : first.NotAfter second) :
    first.ms ≤ second.ms := by
  have normal := first.normal
  unfold Timespec.ms
  rcases order with earlier | ⟨same, earlier⟩ <;> omega

/-- The ring holds the last 64 of the events since the opening. Everything else in it is from before
    the opening, and the events go up in time. -/
structure Ps2kbd.Keeps (kbd : Ps2kbd) (start : Nat) (opened : Timespec) (arrived : List InputEvent) :
    Prop where
  startInside : start < 64
  idx : kbd.cachedEventIdx ≤ 64
  next : (if 64 ≤ kbd.cachedEventIdx then 0 else kbd.cachedEventIdx) =
    ringPlace start arrived.length
  kept : ∀ j ev, arrived[j]? = some ev → arrived.length ≤ j + 64 →
    kbd.cachedEvents (ringPlace start j) = ev
  old : ∀ p < 64, (∀ j < arrived.length, arrived.length ≤ j + 64 → p ≠ ringPlace start j) →
    (kbd.cachedEvents p).time.ms ≤ opened.ms
  later : ∀ ev ∈ arrived, opened.ms < ev.time.ms
  rising : arrived.Pairwise fun first second => first.time.ms < second.time.ms

section Search

variable {kbd : Ps2kbd} {ts : Timespec} {idx : Nat}

theorem not_bigger {k : Nat} (order : (kbd.cachedEvents k).time.ms ≤ ts.ms) :
    decide ((kbd.cachedEvents k).time.IsFirstBigger ts) = false :=
  decide_eq_false (Nat.not_lt.mpr order)

/-- The search finds the first bigger event in ring order from its index on. -/
theorem ps2kbdEarliestEvent_found {i : Nat} (inside : i < 64)
    (bigger : ts.ms < (kbd.cachedEvents i).time.ms)
    (ahead : idx ≤ i → ∀ k, idx ≤ k → k < i → (kbd.cachedEvents k).time.ms ≤ ts.ms)
    (wrapped : i < idx → (∀ k, idx ≤ k → k < 64 → (kbd.cachedEvents k).time.ms ≤ ts.ms) ∧
      ∀ k < i, (kbd.cachedEvents k).time.ms ≤ ts.ms) :
    ps2kbdEarliestEvent ts idx kbd = some i := by
  unfold ps2kbdEarliestEvent cachedEventCount
  dsimp only
  rcases Nat.lt_or_ge i idx with before | after
  · rcases wrapped before with ⟨none_ahead, none_before⟩
    have first : (List.range' idx (64 - idx)).find?
        (fun k => decide ((kbd.cachedEvents k).time.IsFirstBigger ts)) = none := by
      apply List.find?_eq_none.mpr
      intro k member
      rcases List.mem_range'_1.mp member with ⟨low, high⟩
      simp [not_bigger (none_ahead k low (by omega))]
    rw [first, Option.none_or]
    apply List.find?_range_eq_some.mpr
    refine ⟨decide_eq_true bigger, List.mem_range.mpr before, ?_⟩
    intro k less
    simp [not_bigger (none_before k less)]
  · have first : (List.range' idx (64 - idx)).find?
        (fun k => decide ((kbd.cachedEvents k).time.IsFirstBigger ts)) = some i := by
      apply List.find?_range'_eq_some.mpr
      refine ⟨decide_eq_true bigger, List.mem_range'_1.mpr ⟨after, by omega⟩, ?_⟩
      intro k low less
      simp [not_bigger (ahead after k low less)]
    rw [first]
    rfl

theorem ps2kbdEarliestEvent_bigger {i : Nat} (inside : idx ≤ 64)
    (found : ps2kbdEarliestEvent ts idx kbd = some i) :
    i < 64 ∧ ts.ms < (kbd.cachedEvents i).time.ms := by
  unfold ps2kbdEarliestEvent cachedEventCount at found
  rcases Option.or_eq_some_iff.mp found with first | ⟨-, second⟩
  · rcases List.mem_range'_1.mp (List.mem_of_find?_eq_some first) with ⟨low, high⟩
    have bigger := List.find?_some first
    exact ⟨by omega, of_decide_eq_true bigger⟩
  · have less := List.mem_range.mp (List.mem_of_find?_eq_some second)
    have bigger := List.find?_some second
    exact ⟨by omega, of_decide_eq_true bigger⟩

end Search

section Ring

variable {kbd : Ps2kbd} {start : Nat} {opened : Timespec} {arrived : List InputEvent}

theorem Ps2kbd.Keeps.cache (keeps : kbd.Keeps start opened arrived) {ev : InputEvent}
    (last : ∀ earlier ∈ arrived, earlier.time.ms < ev.time.ms) (later : opened.ms < ev.time.ms) :
    (ps2kbdCacheEvent ev kbd).Keeps start opened (arrived ++ [ev]) := by
  have place := keeps.next
  have inside := ringPlace_lt start arrived.length
  have stored : ps2kbdCacheEvent ev kbd =
      ⟨Function.update kbd.cachedEvents (ringPlace start arrived.length) ev,
        ringPlace start arrived.length + 1⟩ := by
    unfold ps2kbdCacheEvent cachedEventCount
    rw [place]
  rw [stored]
  constructor
  · exact keeps.startInside
  · exact inside
  · rw [List.length_append, List.length_singleton]
    unfold ringPlace cachedEventCount
    dsimp only
    split <;> omega
  · intro j old here near
    rw [List.length_append, List.length_singleton] at near
    rcases Nat.lt_trichotomy j arrived.length with before | rfl | after
    · have apart : ringPlace start j ≠ ringPlace start arrived.length := by
        intro same
        have equal := ringPlace_inj same (by omega) (by omega)
        omega
      rw [List.getElem?_append_left before] at here
      dsimp only
      rw [Function.update_of_ne apart]
      exact keeps.kept j old here (by omega)
    · rw [List.getElem?_concat_length] at here
      cases here
      exact Function.update_self _ _ _
    · rw [List.getElem?_eq_none (by simp; omega)] at here
      cases here
  · intro p low none_here
    have new : p ≠ ringPlace start arrived.length := none_here _ (by simp) (by simp)
    dsimp only
    rw [Function.update_of_ne new]
    apply keeps.old p low
    intro j before near
    by_cases gone : arrived.length + 1 ≤ j + 64
    · exact none_here j (by simp; omega) (by simpa using gone)
    · have oldest : ringPlace start j = ringPlace start arrived.length := by
        unfold ringPlace cachedEventCount
        omega
      rw [oldest]
      exact new
  · intro other member
    rcases List.mem_append.mp member with before | here
    · exact keeps.later other before
    · rw [List.mem_singleton.mp here]
      exact later
  · apply List.pairwise_append.mpr
    refine ⟨keeps.rising, List.pairwise_singleton _ _, ?_⟩
    intro earlier before other here
    rw [List.mem_singleton.mp here]
    exact last earlier before

theorem Ps2kbd.Keeps.rising_of_lt (keeps : kbd.Keeps start opened arrived) {i j : Nat}
    {first second : InputEvent} (earlier : arrived[i]? = some first)
    (later : arrived[j]? = some second) (order : i < j) : first.time.ms < second.time.ms := by
  rcases List.getElem?_eq_some_iff.mp earlier with ⟨left, rfl⟩
  rcases List.getElem?_eq_some_iff.mp later with ⟨right, rfl⟩
  exact List.pairwise_iff_getElem.mp keeps.rising i j left right order

/-- What is bigger than the reader's time is an event that it has not received. -/
theorem Ps2kbd.Keeps.bigger (keeps : kbd.Keeps start opened arrived) {ts : Timespec} {p : Nat}
    (low : p < 64) (after : opened.ms ≤ ts.ms) (bigger : ts.ms < (kbd.cachedEvents p).time.ms) :
    ∃ j ev, arrived[j]? = some ev ∧ arrived.length ≤ j + 64 ∧ p = ringPlace start j ∧
      kbd.cachedEvents p = ev := by
  by_contra none_such
  have old := keeps.old p low fun j before near same =>
    none_such ⟨j, arrived[j], List.getElem?_eq_getElem before, near, same, by
      rw [same]
      exact keeps.kept j _ (List.getElem?_eq_getElem before) near⟩
  omega

end Ring

/-- The reader has the last event that it received as its time and place in the ring. -/
structure KbdReader.Synced (s : KbdSystem) (reader : KbdReader) (start : Nat) (opened : Timespec) :
    Prop where
  keeps : s.kbd.Keeps start opened reader.arrived
  clockOpen : opened.ms ≤ s.clock.ms
  clock : ∀ ev ∈ reader.arrived, ev.time.ms ≤ s.clock.ms
  inOrder : reader.received <+: reader.arrived
  keepsUp : reader.KeepsUp
  first : reader.received.length = 0 → reader.info = ⟨0, opened⟩
  last : ∀ n, reader.received.length = n + 1 →
    ∃ ev, reader.arrived[n]? = some ev ∧ reader.info = ⟨ringPlace start n, ev.time⟩
  slots : ∀ call, reader.call = some call →
    reader.received.length = call.before + call.read ∧
      ∀ i < call.read, call.buf i = reader.received[call.before + i]?
  single : ∀ call, reader.call = some call → call.entries ≤ 1

section Reader

variable {s : KbdSystem} {reader : KbdReader} {start : Nat} {opened : Timespec}

theorem KbdReader.Synced.afterOpening (synced : reader.Synced s start opened) :
    opened.ms ≤ reader.info.time.ms := by
  cases count : reader.received.length with
  | zero => rw [synced.first count]
  | succ n =>
    rcases synced.last n count with ⟨ev, here, info⟩
    rw [info]
    exact Nat.le_of_lt (synced.keeps.later ev (List.mem_of_getElem? here))

theorem KbdReader.Synced.idxInside (synced : reader.Synced s start opened) :
    reader.info.idx ≤ 64 := by
  cases count : reader.received.length with
  | zero =>
    rw [synced.first count]
    exact Nat.zero_le _
  | succ n =>
    rcases synced.last n count with ⟨ev, here, info⟩
    rw [info]
    exact Nat.le_of_lt (ringPlace_lt start n)

/-- The events that are not received are those after the reader's time. -/
theorem KbdReader.Synced.bigger_iff (synced : reader.Synced s start opened) {j : Nat}
    {ev : InputEvent} (here : reader.arrived[j]? = some ev) :
    reader.info.time.ms < ev.time.ms ↔ reader.received.length ≤ j := by
  cases count : reader.received.length with
  | zero =>
    rw [synced.first count]
    exact iff_of_true (synced.keeps.later ev (List.mem_of_getElem? here)) (Nat.zero_le j)
  | succ n =>
    rcases synced.last n count with ⟨latest, at_n, info⟩
    rw [info]
    rcases Nat.lt_trichotomy n j with after | rfl | before
    · exact iff_of_true (synced.keeps.rising_of_lt at_n here after) after
    · rw [at_n] at here
      cases here
      exact iff_of_false (Nat.lt_irrefl _) (Nat.not_succ_le_self n)
    · have earlier := synced.keeps.rising_of_lt here at_n before
      exact iff_of_false (Nat.lt_asymm earlier) (by omega)

theorem KbdReader.Synced.pending (synced : reader.Synced s start opened) {ev : InputEvent}
    (here : reader.arrived[reader.received.length]? = some ev) :
    s.kbd.cachedEvents (ringPlace start reader.received.length) = ev ∧
      reader.info.time.ms < ev.time.ms := by
  have keepsUp := synced.keepsUp
  unfold KbdReader.KeepsUp cachedEventCount at keepsUp
  exact ⟨synced.keeps.kept _ ev here (by omega), (synced.bigger_iff here).mpr (Nat.le_refl _)⟩

theorem KbdReader.Synced.search (synced : reader.Synced s start opened)
    (near : reader.received = [] → reader.arrived.length ≤ s.kbd.cachedEventIdx) {ev : InputEvent}
    (here : reader.arrived[reader.received.length]? = some ev) :
    ps2kbdEarliestEvent reader.info.time reader.info.idx s.kbd =
      some (ringPlace start reader.received.length) := by
  have keepsUp := synced.keepsUp
  unfold KbdReader.KeepsUp cachedEventCount at keepsUp
  rcases synced.pending here with ⟨stored, bigger⟩
  apply ps2kbdEarliestEvent_found (ringPlace_lt _ _) (by rw [stored]; exact bigger)
  · intro _ k low high
    cases count : reader.received.length with
    | zero =>
      -- Before the place of the first event there is nothing new yet.
      rw [count] at high keepsUp
      by_contra later
      have position := near (List.length_eq_zero_iff.mp count)
      have next := synced.keeps.next
      have inside := synced.keeps.startInside
      have limit := synced.keeps.idx
      obtain ⟨j, other, at_j, -, rfl, -⟩ := synced.keeps.bigger
        (Nat.lt_trans high (ringPlace_lt _ _)) synced.afterOpening (Nat.not_le.mp later)
      have before := (List.getElem?_eq_some_iff.mp at_j).1
      unfold ringPlace cachedEventCount at high next
      split at next <;> omega
    | succ n =>
      rcases synced.last n count with ⟨latest, at_n, info⟩
      rw [count] at high keepsUp
      rw [info] at low ⊢
      dsimp only at low ⊢
      have same : k = ringPlace start n := by
        unfold ringPlace cachedEventCount at *
        omega
      rw [same, synced.keeps.kept n latest at_n (by omega)]
  · intro wrapped
    cases count : reader.received.length with
    | zero =>
      rw [synced.first count] at wrapped
      exact absurd wrapped (Nat.not_lt_zero _)
    | succ n =>
      rcases synced.last n count with ⟨latest, at_n, info⟩
      rw [count] at wrapped keepsUp
      rw [info] at wrapped ⊢
      dsimp only at wrapped ⊢
      refine ⟨fun k low high => ?_, fun k low => ?_⟩
      · have same : k = ringPlace start n := by
          unfold ringPlace cachedEventCount at *
          omega
        rw [same, synced.keeps.kept n latest at_n (by omega)]
      · unfold ringPlace cachedEventCount at wrapped low
        omega

end Reader

/-- Nothing in the ring is from the future, and the reader is in step with it. -/
structure KbdSystem.Good (s : KbdSystem) : Prop where
  idx : s.kbd.cachedEventIdx ≤ 64
  past : ∀ p < 64, (s.kbd.cachedEvents p).time.ms ≤ s.clock.ms
  synced : ∀ reader, s.reader = some reader → ∃ start opened, reader.Synced s start opened

theorem prefix_next {α : Type} {before all : List α} (inOrder : before <+: all)
    (more : before.length < all.length) : before ++ [all[before.length]] <+: all := by
  rcases inOrder with ⟨later, rfl⟩
  cases later with
  | nil => simp at more
  | cons next later => simp

section Steps

variable {s s' : KbdSystem} {reader : KbdReader} {start : Nat} {opened : Timespec}

theorem KbdReader.Synced.arrive (synced : reader.Synced s start opened) {ev : InputEvent}
    (apart : s.clock.ms < ev.time.ms) (keepsUp : (reader.arrive ev).KeepsUp) :
    (reader.arrive ev).Synced
      ⟨ps2kbdCacheEvent ev s.kbd, s.reader.map (KbdReader.arrive ev), ev.time⟩ start opened where
  keeps := synced.keeps.cache
    (fun earlier member => Nat.lt_of_le_of_lt (synced.clock earlier member) apart)
    (Nat.lt_of_le_of_lt synced.clockOpen apart)
  clockOpen := Nat.le_of_lt (Nat.lt_of_le_of_lt synced.clockOpen apart)
  clock := by
    intro other member
    rcases List.mem_append.mp member with before | here
    · exact Nat.le_of_lt (Nat.lt_of_le_of_lt (synced.clock other before) apart)
    · rw [List.mem_singleton.mp here]
  inOrder := synced.inOrder.trans (List.prefix_append _ _)
  keepsUp := keepsUp
  first := synced.first
  last := by
    intro n count
    rcases synced.last n count with ⟨latest, here, info⟩
    refine ⟨latest, ?_, info⟩
    have before := (List.getElem?_eq_some_iff.mp here).1
    exact (List.getElem?_append_left before).trans here
  slots := synced.slots
  single := synced.single

theorem KbdReader.Synced.startRead (synced : reader.Synced s start opened) {n : Nat}
    (small : n % sizeofInputEvent = 0 → n / sizeofInputEvent ≤ 1) :
    (reader.startRead n).Synced { s with reader := some (reader.startRead n) } start opened := by
  unfold KbdReader.startRead
  by_cases refused : n % sizeofInputEvent ≠ 0
  · rw [if_pos refused]
    exact ⟨synced.keeps, synced.clockOpen, synced.clock, synced.inOrder, synced.keepsUp,
      synced.first, synced.last, synced.slots, synced.single⟩
  · rw [if_neg refused]
    refine ⟨synced.keeps, synced.clockOpen, synced.clock, synced.inOrder, synced.keepsUp,
      synced.first, synced.last, ?_, ?_⟩
    · intro call started
      cases started
      exact ⟨rfl, nofun⟩
    · intro call started
      cases started
      exact small (not_ne_iff.mp refused)

theorem KbdReader.Synced.round (synced : reader.Synced s start opened) {call : KbdRead}
    (running : reader.call = some call) (wants : call.read < call.entries)
    (near : reader.received = [] → reader.arrived.length ≤ s.kbd.cachedEventIdx) :
    (reader.round s.kbd call).Synced { s with reader := some (reader.round s.kbd call) } start
      opened := by
  have single := synced.single call running
  rcases synced.slots call running with ⟨count, -⟩
  have empty : call.read = 0 := by omega
  by_cases more : reader.received.length < reader.arrived.length
  · have here := List.getElem?_eq_getElem more
    rcases synced.pending here with ⟨stored, -⟩
    have taken : reader.round s.kbd call = { reader with
        info := ⟨ringPlace start reader.received.length,
          reader.arrived[reader.received.length].time⟩
        call := some { call with
          buf := Function.update call.buf 0 (some reader.arrived[reader.received.length])
          read := call.read + 1 }
        received := reader.received ++ [reader.arrived[reader.received.length]] } := by
      unfold KbdReader.round ps2kbdReadRound
      rw [synced.search near here]
      simp only [stored]
    have keepsUp := synced.keepsUp
    unfold KbdReader.KeepsUp at keepsUp
    rw [taken]
    refine ⟨synced.keeps, synced.clockOpen, synced.clock, prefix_next synced.inOrder more, ?_, ?_,
      ?_, ?_, ?_⟩
    · unfold KbdReader.KeepsUp
      dsimp only
      rw [List.length_append]
      omega
    · intro none_received
      simp at none_received
    · intro n length
      have same : n = reader.received.length := by simpa using length.symm
      rw [same]
      exact ⟨_, here, rfl⟩
    · intro after done
      cases done
      dsimp only
      rw [empty] at count ⊢
      refine ⟨by simp [count], ?_⟩
      intro i low
      have zero : i = 0 := by omega
      rw [zero, Function.update_self, ← count]
      simp [count]
    · intro after done
      cases done
      exact single
  · have idle : reader.round s.kbd call = reader := by
      unfold KbdReader.round ps2kbdReadRound
      cases found : ps2kbdEarliestEvent reader.info.time reader.info.idx s.kbd with
      | none => rfl
      | some i =>
        rcases ps2kbdEarliestEvent_bigger synced.idxInside found with ⟨low, bigger⟩
        rcases synced.keeps.bigger low synced.afterOpening bigger with ⟨j, ev, here, -, place, stored⟩
        rw [stored] at bigger
        have unread := (synced.bigger_iff here).mp bigger
        have inside := (List.getElem?_eq_some_iff.mp here).1
        omega
    rw [idle]
    exact ⟨synced.keeps, synced.clockOpen, synced.clock, synced.inOrder, synced.keepsUp,
      synced.first, synced.last, synced.slots, synced.single⟩

theorem KbdSystem.Good.step {action : KbdAction} (good : s.Good) (step : KbdStep s action s')
    (apart : action.Apart s) : s'.Good := by
  have synced := good.synced
  cases step with
  | cache ev later keepsUp =>
    have order := later.ms
    refine ⟨?_, ?_, ?_⟩
    · unfold ps2kbdCacheEvent cachedEventCount
      dsimp only
      split <;> omega
    · intro p low
      unfold ps2kbdCacheEvent
      dsimp only
      generalize (if cachedEventCount ≤ s.kbd.cachedEventIdx then 0 else s.kbd.cachedEventIdx) = idx
      by_cases here : p = idx
      · rw [here, Function.update_self]
      · rw [Function.update_of_ne here]
        exact Nat.le_trans (good.past p low) order
    · intro after arrived
      rcases Option.map_eq_some_iff.mp arrived with ⟨reader, here, rfl⟩
      rcases synced reader here with ⟨start, opened, synced⟩
      exact ⟨start, opened, synced.arrive (apart reader here) (keepsUp reader here)⟩
  | openVnode uptime later closed =>
    refine ⟨good.idx, fun p low => Nat.le_trans (good.past p low) later.ms, ?_⟩
    intro after here
    cases here
    have inside : (if 64 ≤ s.kbd.cachedEventIdx then 0 else s.kbd.cachedEventIdx) < 64 := by
      split <;> omega
    refine ⟨if 64 ≤ s.kbd.cachedEventIdx then 0 else s.kbd.cachedEventIdx, uptime, ?_⟩
    exact {
      keeps := {
        startInside := inside
        idx := good.idx
        next := (Nat.mod_eq_of_lt inside).symm
        kept := nofun
        old := fun p low _ => Nat.le_trans (good.past p low) later.ms
        later := nofun
        rising := List.Pairwise.nil }
      clockOpen := Nat.le_refl _
      clock := nofun
      inOrder := List.nil_prefix
      keepsUp := (by decide : 0 < 0 + cachedEventCount)
      first := fun _ => rfl
      last := nofun
      slots := nofun
      single := nofun }
  | @read reader n opened idle =>
    refine ⟨good.idx, good.past, ?_⟩
    intro after here
    cases here
    rcases synced reader opened with ⟨start, time, synced⟩
    exact ⟨start, time, synced.startRead (apart reader opened)⟩
  | @round reader call opened running wants =>
    refine ⟨good.idx, good.past, ?_⟩
    intro after here
    cases here
    rcases synced reader opened with ⟨start, time, synced⟩
    exact ⟨start, time, synced.round running wants (apart reader opened)⟩
  | @done reader call opened running full =>
    refine ⟨good.idx, good.past, ?_⟩
    intro after here
    cases here
    rcases synced reader opened with ⟨start, time, synced⟩
    exact ⟨start, time, synced.keeps, synced.clockOpen, synced.clock, synced.inOrder,
      synced.keepsUp, synced.first, synced.last, nofun, nofun⟩

end Steps

section Examples

/-- The steps as a function. -/
def KbdSystem.next (s : KbdSystem) : KbdAction → Option KbdSystem
  | .cache ev =>
    if s.clock.NotAfter ev.time ∧ (s.reader.map (KbdReader.arrive ev)).all (·.KeepsUp) then
      some ⟨ps2kbdCacheEvent ev s.kbd, s.reader.map (KbdReader.arrive ev), ev.time⟩
    else none
  | .openVnode uptime =>
    if s.clock.NotAfter uptime ∧ s.reader.isNone then
      some ⟨s.kbd, some ⟨ps2kbdVnodeOpen uptime, none, [], []⟩, uptime⟩
    else none
  | .read n =>
    match s.reader with
    | none => none
    | some reader =>
      if reader.call.isNone then some { s with reader := some (reader.startRead n) } else none
  | .round =>
    match s.reader with
    | none => none
    | some reader =>
      match reader.call with
      | none => none
      | some call =>
        if call.read < call.entries then some { s with reader := some (reader.round s.kbd call) }
        else none
  | .done => none

end Examples

end Dxgmx
