import DqlScan.Text.Basic
import Mathlib.Algebra.GroupWithZero.Nat
import Mathlib.Algebra.Order.Group.Nat
import Mathlib.Algebra.Order.BigOperators.Group.List

/-!
# Lines of records

Records that are each followed by a line feed are told apart by their lines exactly if none of them
holds a line feed (`lines_unlines_iff`).
-/

namespace DqlScan.Text

/-- A text and a line feed are one line for each line feed in the text, and one more. -/
theorem length_lines_newline (s : Text) : (lines (s ++ ['\n'])).length = s.count '\n' + 1 := by
  induction s with
  | nil => rfl
  | cons c s ih =>
    rw [List.cons_append, lines]
    split
    · next h => simp [h, ih]
    · next h =>
      rcases hlines : lines (s ++ ['\n']) with _ | ⟨line, later⟩ <;> rw [hlines] at ih
      · simp at ih
      · simpa [h] using ih

/-- What stands behind a line feed has no part in the lines before it. -/
theorem lines_append_newline (s t : Text) :
    lines (s ++ '\n' :: t) = lines (s ++ ['\n']) ++ lines t := by
  induction s with
  | nil => simp [lines]
  | cons c s ih =>
    rw [List.cons_append, List.cons_append, lines, lines, ih]
    split
    · rfl
    · rcases hlines : lines (s ++ ['\n']) with _ | ⟨line, later⟩
      · have hlength := length_lines_newline s
        simp [hlines] at hlength
      · rfl

theorem lines_newline {s : Text} (h : '\n' ∉ s) : lines (s ++ ['\n']) = [s ++ ['\n']] := by
  have hlength := length_lines_newline s
  rw [List.count_eq_zero.mpr h] at hlength
  obtain ⟨line, hline⟩ := List.length_eq_one_iff.mp hlength
  have hflatten := flatten_lines (s ++ ['\n'])
  rw [hline, List.flatten_singleton] at hflatten
  rw [hline, hflatten]

theorem unlines_cons (row : Text) (rows : List Text) :
    unlines (row :: rows) = row ++ '\n' :: unlines rows := by
  simp [unlines]

theorem lines_unlines (rows : List Text) :
    lines (unlines rows) = rows.flatMap fun row => lines (row ++ ['\n']) := by
  induction rows with
  | nil => rfl
  | cons row rows ih => rw [unlines_cons, lines_append_newline, ih, List.flatMap_cons]

theorem length_lines_unlines (rows : List Text) :
    (lines (unlines rows)).length = rows.length + (rows.map (·.count '\n')).sum := by
  induction rows with
  | nil => rfl
  | cons row rows ih =>
    rw [unlines_cons, lines_append_newline, List.length_append, length_lines_newline, ih,
      List.length_cons, List.map_cons, List.sum_cons]
    omega

theorem lines_unlines_iff {rows : List Text} :
    lines (unlines rows) = rows.map (· ++ ['\n']) ↔ ∀ row ∈ rows, '\n' ∉ row := by
  constructor
  · intro h row hrow
    have hlength := length_lines_unlines rows
    rw [h, List.length_map] at hlength
    have hsum : (rows.map (·.count '\n')).sum = 0 := by omega
    exact List.count_eq_zero.mp (List.sum_eq_zero_iff.mp hsum _ (List.mem_map_of_mem hrow))
  · intro h
    rw [lines_unlines, ← List.flatMap_singleton' (rows.map (· ++ ['\n'])), List.flatMap_map]
    exact List.flatMap_congr fun row hrow => lines_newline (h row hrow)

end DqlScan.Text
