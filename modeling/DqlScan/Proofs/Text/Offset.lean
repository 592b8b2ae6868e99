import DqlScan.Proofs.Text.Position
import Mathlib.Algebra.Order.BigOperators.Group.List
import Mathlib.Algebra.Order.Group.Nat
import Mathlib.Data.Set.Function

/-!
# Offsets and positions one to one

`position` and `offset` lead from the offsets of a text, its end included, to the positions that it
holds and back, and keep the order (`position_bijOn`). Only the line feeds of the text matter.
-/

namespace DqlScan

theorem Position.before_trichotomy (p q : Position) : p.Before q ∨ p = q ∨ q.Before p := by
  rcases Nat.lt_trichotomy p.line q.line with hlt | heq | hgt
  · exact .inl (.inl hlt)
  · rcases Nat.lt_trichotomy p.column q.column with hlt' | heq' | hgt'
    · exact .inl (.inr ⟨heq, hlt'⟩)
    · exact .inr (.inl (by cases p; cases q; simp_all))
    · exact .inr (.inr (.inr ⟨heq.symm, hgt'⟩))
  · exact .inr (.inr (.inl hgt))

namespace Text

variable {t : Text} {p q : Position}

/-! ### The positions of a text -/

/-- Every line counts with the line feed behind it, which the last one lacks. -/
theorem sum_lines (t : Text) : ((t.splitOn '\n').map (·.length + 1)).sum = t.length + 1 := by
  induction t with
  | nil => rfl
  | cons c t ih =>
    by_cases hc : c = '\n'
    · subst hc
      rw [splitOn_newline_cons, List.map_cons, List.sum_cons, ih]
      simp only [List.length_nil, List.length_cons]
      omega
    · obtain ⟨line, lines, hlines, hcons⟩ := splitOn_cons hc t
      rw [hlines, List.map_cons, List.sum_cons] at ih
      rw [hcons, List.map_cons, List.sum_cons]
      simp only [List.length_cons]
      omega

/-- A position lies in front of all lines that come after its own. -/
theorem Holds.offset_lt_sum (h : Holds t p) {n : Nat} (hn : p.line ≤ n) :
    offset t p < (((t.splitOn '\n').take n).map (·.length + 1)).sum := by
  obtain ⟨hone, line, hline, hcolumn⟩ := h
  have htake : (t.splitOn '\n').take p.line =
      (t.splitOn '\n').take (p.line - 1) ++ [line] := by
    obtain ⟨k, hk⟩ : ∃ k, p.line = k + 1 := ⟨p.line - 1, by omega⟩
    rw [hk, Nat.add_sub_cancel] at hline ⊢
    rw [List.take_add_one, hline]
    rfl
  have hle : (((t.splitOn '\n').take p.line).map (·.length + 1)).sum ≤
      (((t.splitOn '\n').take n).map (·.length + 1)).sum :=
    ((List.take_sublist_take_left hn).map _).sum_le_sum fun _ _ => Nat.zero_le _
  rw [htake, List.map_append, List.sum_append, List.map_singleton, List.sum_singleton] at hle
  unfold offset
  omega

theorem Holds.line_le (h : Holds t p) : p.line ≤ (t.splitOn '\n').length := by
  obtain ⟨hone, line, hline, -⟩ := h
  have hlt := (List.getElem?_eq_some_iff.mp hline).1
  omega

theorem Holds.offset_le (h : Holds t p) : offset t p ≤ t.length := by
  have hlt := h.offset_lt_sum h.line_le
  rw [List.take_length, sum_lines] at hlt
  exact Nat.le_of_lt_succ hlt

theorem Holds.offset_lt (h : Holds t p) (hpq : p.Before q) : offset t p < offset t q := by
  rcases hpq with hline | ⟨hline, hcolumn⟩
  · exact Nat.lt_of_lt_of_le (h.offset_lt_sum (Nat.le_pred_of_lt hline)) (Nat.le_add_right _ _)
  · unfold offset
    rw [hline]
    omega

theorem Holds.offset_inj (hp : Holds t p) (hq : Holds t q) (h : offset t p = offset t q) :
    p = q := by
  rcases p.before_trichotomy q with hpq | rfl | hqp
  · exact absurd h (Nat.ne_of_lt (hp.offset_lt hpq))
  · rfl
  · exact absurd h.symm (Nat.ne_of_lt (hq.offset_lt hqp))

theorem Holds.position_offset (h : Holds t p) : position t (offset t p) = p :=
  (holds_position h.offset_le).offset_inj h (offset_position h.offset_le)

theorem before_iff {o o' : Nat} (ho : o ≤ t.length) (ho' : o' ≤ t.length) :
    (position t o).Before (position t o') ↔ o < o' := by
  constructor
  · intro h
    have hlt := (holds_position ho).offset_lt h
    rwa [offset_position ho, offset_position ho'] at hlt
  · intro h
    exact position_before h ho'

/-- The positions of the offsets of a text are those that it holds, each is the position of one
offset only, which `offset` gives back, and they stand in the order of the offsets. Characters other
than the line feed may be exchanged for others. -/
theorem position_bijOn (t : Text) :
    Set.BijOn (position t) {o | o ≤ t.length} {p | Holds t p} ∧
      Set.InvOn (offset t) (position t) {o | o ≤ t.length} {p | Holds t p} ∧
      (∀ o ≤ t.length, ∀ o' ≤ t.length, (position t o).Before (position t o') ↔ o < o') ∧
      ∀ f : Char → Char, (∀ c, f c = '\n' ↔ c = '\n') → position (t.map f) = position t := by
  have hinverse : Set.InvOn (offset t) (position t) {o | o ≤ t.length} {p | Holds t p} :=
    ⟨fun _ ho => offset_position ho, fun _ hp => hp.position_offset⟩
  refine ⟨?_, hinverse, fun o ho o' ho' => before_iff ho ho', fun f hf => ?_⟩
  · exact hinverse.bijOn (fun _ ho => holds_position ho) (fun _ hp => hp.offset_le)
  · funext o
    exact position_map hf t o

/-- The carriage returns and the line separator stand on the lines of the others. -/
theorem position_bijOn_sample :
    let t : Text := "a\r\nb\u2028c\r\n".toList
    let plain : Char → Char := fun c => if c = '\r' ∨ c = '\u2028' then '-' else c
    Holds t ⟨2, 4⟩ ∧ offset t ⟨2, 4⟩ = 7 ∧ (∃! o, o ≤ t.length ∧ position t o = ⟨2, 4⟩) ∧
      (position t 2).Before (position t 7) ∧ position (t.map plain) = position t := by
  intro t plain
  have hplain : ∀ c, plain c = '\n' ↔ c = '\n' := by
    intro c
    show (if c = '\r' ∨ c = '\u2028' then '-' else c) = '\n' ↔ c = '\n'
    split
    · next h => rcases h with rfl | rfl <;> decide
    · rfl
  have hholds : Holds t ⟨2, 4⟩ := ⟨by decide, "b\u2028c\r".toList, by decide, by decide⟩
  obtain ⟨hbij, hinverse, horder, hmap⟩ := position_bijOn t
  obtain ⟨o, ho, hpos⟩ := hbij.surjOn hholds
  refine ⟨hholds, by decide, ⟨o, ⟨ho, hpos⟩, ?_⟩, ?_, hmap plain hplain⟩
  · rintro o' ⟨ho', hpos'⟩
    exact hbij.injOn ho' ho (hpos'.trans hpos.symm)
  · exact (horder 2 (by decide) 7 (by decide)).mpr (by decide)

end Text

end DqlScan
