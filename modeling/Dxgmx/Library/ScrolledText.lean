import Mathlib.Data.List.Basic
import Mathlib.Order.Basic
import Mathlib.Tactic.Common

namespace Library

/-- A text that is written at its end: the rows that are ended and the one that is written. -/
structure ScrolledText (α : Type*) where
  ended : List (List α)
  current : List α

namespace ScrolledText

variable {α : Type*} (text : ScrolledText α) (width height : Nat)

def empty : ScrolledText α := ⟨[], []⟩

def rows : List (List α) := text.ended ++ [text.current]

def newline : ScrolledText α := ⟨text.ended ++ [text.current], []⟩

def append (c : α) : ScrolledText α := ⟨text.ended, text.current ++ [c]⟩

/-- A row that is full ends. -/
def put (c : α) : ScrolledText α :=
  if text.current.length + 1 < width then text.append c else (text.append c).newline

/-- How many of the first rows a window of this height no longer shows. -/
def hidden : Nat := text.ended.length + 1 - height

/-- The row of the window that the current row is in. -/
def cursorRow : Nat := text.ended.length - text.hidden height

/-- What a window on the last rows shows in one of its cells. -/
def shown (row col : Nat) : Option α := (text.rows[text.hidden height + row]?).bind (·[col]?)

variable {text width height}

theorem rows_length : text.rows.length = text.ended.length + 1 := by
  simp [rows]

theorem rows_current : text.rows[text.ended.length]? = some text.current := by
  simp [rows]

theorem cursorRow_lt (some_row : 0 < height) : text.cursorRow height < height := by
  unfold cursorRow hidden
  omega

theorem shown_empty (row col : Nat) : (empty : ScrolledText α).shown height row col = none := by
  unfold shown
  cases found : (empty : ScrolledText α).rows[empty.hidden height + row]? with
  | none => rfl
  | some line =>
    have member := List.mem_of_getElem? found
    simp only [rows, empty, List.nil_append, List.mem_singleton] at member
    simp [member]

/-- Below the window's last row there is nothing left to show. -/
theorem shown_below {row : Nat} (below : text.cursorRow height < row) (col : Nat) :
    text.shown height row col = none := by
  have outside : text.rows.length ≤ text.hidden height + row := by
    unfold cursorRow at below
    rw [rows_length]
    omega
  unfold shown
  rw [List.getElem?_eq_none outside]
  rfl

theorem shown_append (some_row : 0 < height) (c : α) (row col : Nat) :
    (text.append c).shown height row col =
      if row = text.cursorRow height ∧ col = text.current.length then some c
      else text.shown height row col := by
  have place : text.hidden height + text.cursorRow height = text.ended.length := by
    unfold cursorRow hidden
    omega
  unfold shown
  rw [show (text.append c).hidden height = text.hidden height from rfl]
  by_cases here : row = text.cursorRow height
  · subst here
    rw [place, rows_current]
    have line : (text.append c).rows[text.ended.length]? = some (text.current ++ [c]) := by
      simp [rows, append]
    rw [line]
    simp only [Option.bind_some, true_and]
    by_cases last : col = text.current.length
    · simp [last]
    · rw [if_neg last]
      rcases Nat.lt_or_gt_of_ne last with before | after
      · exact List.getElem?_append_left before
      · have outside : (text.current ++ [c]).length ≤ col := by
          rw [List.length_append]
          exact after
        rw [List.getElem?_eq_none outside, List.getElem?_eq_none (Nat.le_of_lt after)]
  · rw [if_neg fun both => here both.1]
    have other : text.hidden height + row ≠ text.ended.length := by omega
    congr 1
    rcases Nat.lt_or_gt_of_ne other with before | after
    · simp only [rows, append, List.getElem?_append_left before]
    · have outside : text.ended.length + 1 ≤ text.hidden height + row := after
      have gone : text.rows[text.hidden height + row]? = none :=
        List.getElem?_eq_none (rows_length.trans_le outside)
      rw [gone]
      exact List.getElem?_eq_none (rows_length.trans_le outside)

/-- The window moves down by one row when it was full. -/
theorem hidden_newline : text.newline.hidden height =
    if text.ended.length + 1 < height then text.hidden height else text.hidden height + 1 := by
  unfold hidden newline
  simp only [List.length_append, List.length_singleton]
  split <;> omega

theorem rows_newline (k col : Nat) :
    (text.newline.rows[k]?).bind (·[col]?) = (text.rows[k]?).bind (·[col]?) := by
  have more : text.newline.rows = text.rows ++ [[]] := rfl
  rw [more]
  by_cases inside : k < text.rows.length
  · rw [List.getElem?_append_left inside]
  · have outside := Nat.le_of_not_lt inside
    rw [List.getElem?_append_right outside, List.getElem?_eq_none outside]
    rcases k - text.rows.length with _ | n <;> simp

theorem shown_newline (row col : Nat) : text.newline.shown height row col =
    text.shown height (if text.ended.length + 1 < height then row else row + 1) col := by
  unfold shown
  rw [rows_newline, hidden_newline]
  split
  · rfl
  · rw [Nat.add_right_comm, Nat.add_assoc]

theorem cursorRow_newline (some_row : 0 < height) : text.newline.cursorRow height =
    if text.ended.length + 1 < height then text.cursorRow height + 1
    else text.cursorRow height := by
  unfold cursorRow
  rw [hidden_newline]
  unfold newline hidden
  simp only [List.length_append, List.length_singleton]
  split <;> omega

theorem put_current (some_col : 0 < width) (c : α) :
    (text.put width c).current.length < width := by
  unfold put
  split
  · rename_i room
    simpa [append] using room
  · simpa [newline] using some_col

/-- A character that was just put can be seen. -/
theorem shown_put (tall : 1 < height) (fits : text.current.length < width) (c : α) :
    ∃ row < height, ∃ col < width, (text.put width c).shown height row col = some c := by
  have some_row : 0 < height := Nat.lt_of_succ_lt tall
  have below := text.cursorRow_lt some_row
  have seen : (text.append c).shown height (text.cursorRow height) text.current.length = some c := by
    rw [shown_append some_row, if_pos ⟨rfl, rfl⟩]
  unfold put
  split
  · exact ⟨_, below, _, fits, seen⟩
  · by_cases room : text.ended.length + 1 < height
    · refine ⟨text.cursorRow height, below, _, fits, ?_⟩
      rw [shown_newline, if_pos (by simpa [append] using room)]
      exact seen
    · have full : text.cursorRow height = height - 1 := by
        unfold cursorRow hidden
        omega
      refine ⟨text.cursorRow height - 1, by omega, _, fits, ?_⟩
      rw [shown_newline, if_neg (by simpa [append] using room),
        Nat.sub_add_cancel (by omega)]
      exact seen

theorem flatten_newline : text.newline.rows.flatten = text.rows.flatten := by
  simp [rows, newline]

/-- The rows hold what was put to the text, in this order. -/
theorem flatten_put (c : α) : (text.put width c).rows.flatten = text.rows.flatten ++ [c] := by
  have appended : (text.append c).rows.flatten = text.rows.flatten ++ [c] := by
    simp [rows, append]
  unfold put
  split
  · exact appended
  · rw [flatten_newline]
    exact appended

theorem mem_of_shown {row col : Nat} {c : α} (seen : text.shown height row col = some c) :
    c ∈ text.rows.flatten := by
  obtain ⟨line, found, here⟩ := Option.bind_eq_some_iff.mp seen
  exact List.mem_flatten.mpr ⟨line, List.mem_of_getElem? found, List.mem_of_getElem? here⟩

end ScrolledText

end Library
