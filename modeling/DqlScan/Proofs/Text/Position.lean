import DqlScan.Text.Basic
import Mathlib.Algebra.GroupWithZero.Nat
import Mathlib.Data.List.TakeWhile

/-!
# Positions and offsets

`offset` adds up the lines before a position and its column. On the offsets of a text it takes
`position` back, and `position` keeps their order.
-/

namespace DqlScan

def Position.Before (p q : Position) : Prop :=
  p.line < q.line ∨ p.line = q.line ∧ p.column < q.column

namespace Text

/-- The lines before the line of a position with their line feeds, and its column. -/
def offset (t : Text) (p : Position) : Nat :=
  (((t.splitOn '\n').take (p.line - 1)).map (·.length + 1)).sum + p.column

/-- On one of the lines of a text, and not past the end of the line. -/
def Holds (t : Text) (p : Position) : Prop :=
  1 ≤ p.line ∧ ∃ line, (t.splitOn '\n')[p.line - 1]? = some line ∧ p.column ≤ line.length

/-! ### One text before another -/

theorem takeWhile_reverse_eq_self {t : Text} :
    (t.reverse.takeWhile (· ≠ '\n')).length = t.reverse.length ↔ t.count '\n' = 0 := by
  rw [List.count_eq_zero]
  constructor
  · intro h hm
    have hself := (List.takeWhile_prefix _).eq_of_length h
    have hne := List.takeWhile_eq_self_iff.mp hself '\n' (by simpa using hm)
    simp at hne
  · intro hm
    refine congrArg List.length (List.takeWhile_eq_self_iff.mpr fun x hx => ?_)
    have hx' : x ≠ '\n' := by
      rintro rfl
      exact hm (by simpa using hx)
    simpa using hx'

theorem lastLine_append (s t : Text) :
    lastLine (s ++ t) = if t.count '\n' = 0 then lastLine s ++ t else lastLine t := by
  unfold lastLine
  rw [List.reverse_append, List.takeWhile_append]
  by_cases h : t.count '\n' = 0
  · rw [if_pos (takeWhile_reverse_eq_self.mpr h), if_pos h]
    simp
  · rw [if_neg (mt takeWhile_reverse_eq_self.mp h), if_neg h]

/-- Behind another text, a position lies so many lines further down, and on its first line so many
columns further right. -/
theorem position_append (s t : Text) (o : Nat) :
    position (s ++ t) (s.length + o) =
      ⟨(position t o).line + s.count '\n', (position t o).column +
        if (position t o).line = 1 then (lastLine s).length else 0⟩ := by
  have htake : (s ++ t).take (s.length + o) = s ++ t.take o := List.take_length_add_append o
  have hfirst : (position t o).line = 1 ↔ (t.take o).count '\n' = 0 := by simp [position]
  have hline : (position (s ++ t) (s.length + o)).line = (position t o).line + s.count '\n' := by
    simp only [position, htake, List.count_append]
    omega
  have hcolumn : (position (s ++ t) (s.length + o)).column = (position t o).column +
      if (position t o).line = 1 then (lastLine s).length else 0 := by
    simp only [hfirst]
    simp only [position, htake, lastLine_append]
    by_cases h : (t.take o).count '\n' = 0
    · have hwhole : lastLine (t.take o) = t.take o := by
        have happend := lastLine_append [] (t.take o)
        rwa [if_pos h, List.nil_append] at happend
      rw [if_pos h, if_pos h, hwhole, List.length_append]
      omega
    · rw [if_neg h, if_neg h]
      omega
  rw [← hline, ← hcolumn]

/-! ### Other characters than the line feed -/

section Map

variable {f : Char → Char} (hf : ∀ c, f c = '\n' ↔ c = '\n')
include hf

theorem count_newline_map (t : Text) : (t.map f).count '\n' = t.count '\n' := by
  rw [List.count_eq_countP, List.countP_map, List.count_eq_countP]
  refine List.countP_congr fun c _ => ?_
  simp [hf]

theorem lastLine_map (t : Text) : lastLine (t.map f) = (lastLine t).map f := by
  unfold lastLine
  rw [← List.map_reverse, List.takeWhile_map, List.map_reverse]
  simp only [Function.comp_def, ne_eq, hf]

/-- Only the line feeds of a text decide where its positions are. -/
theorem position_map (t : Text) (o : Nat) : position (t.map f) o = position t o := by
  unfold position
  rw [← List.map_take, count_newline_map hf, lastLine_map hf, List.length_map]

end Map

/-! ### One character more at the front -/

theorem position_zero (t : Text) : position t 0 = ⟨1, 0⟩ := rfl

theorem one_le_line (t : Text) (o : Nat) : 1 ≤ (position t o).line := by
  simp [position]

theorem position_newline_cons (t : Text) (o : Nat) :
    position ('\n' :: t) (o + 1) = ⟨(position t o).line + 1, (position t o).column⟩ := by
  have happend := position_append ['\n'] t o
  rw [List.length_singleton, Nat.add_comm] at happend
  simpa [lastLine] using happend

theorem position_cons {c : Char} (hc : c ≠ '\n') (t : Text) (o : Nat) :
    position (c :: t) (o + 1) =
      ⟨(position t o).line, (position t o).column + if (position t o).line = 1 then 1 else 0⟩ := by
  have happend := position_append [c] t o
  rw [List.length_singleton, Nat.add_comm] at happend
  simpa [lastLine, hc] using happend

theorem splitOn_newline_cons (t : Text) : ('\n' :: t).splitOn '\n' = [] :: t.splitOn '\n' := by
  simp [List.splitOn_cons_eq_if_modifyHead]

theorem splitOn_cons {c : Char} (hc : c ≠ '\n') (t : Text) :
    ∃ line lines, t.splitOn '\n' = line :: lines ∧
      (c :: t).splitOn '\n' = (c :: line) :: lines := by
  obtain ⟨line, lines, h⟩ := List.exists_cons_of_ne_nil (List.splitOn_ne_nil '\n' t)
  exact ⟨line, lines, h, by simp [List.splitOn_cons_eq_if_modifyHead, hc, h]⟩

/-! ### The offsets of a text -/

/-- The lines above an offset and the line that it is on. -/
theorem position_spec {t : Text} {o : Nat} (ho : o ≤ t.length) :
    ∃ above line below, t.splitOn '\n' = above ++ line :: below ∧
      (position t o).line = above.length + 1 ∧ (position t o).column ≤ line.length ∧
      o = (above.map (·.length + 1)).sum + (position t o).column := by
  induction t generalizing o with
  | nil =>
    obtain rfl : o = 0 := by simpa using ho
    exact ⟨[], [], [], rfl, rfl, Nat.le_refl 0, rfl⟩
  | cons c t ih =>
    cases o with
    | zero =>
      obtain ⟨line, lines, h⟩ := List.exists_cons_of_ne_nil (List.splitOn_ne_nil '\n' (c :: t))
      exact ⟨[], line, lines, h, rfl, Nat.zero_le _, rfl⟩
    | succ o =>
      obtain ⟨above, line, below, hlines, hline, hcol, hsum⟩ := ih (o := o) (by simpa using ho)
      by_cases hc : c = '\n'
      · subst hc
        rw [position_newline_cons, splitOn_newline_cons, hlines]
        refine ⟨[] :: above, line, below, rfl, ?_, hcol, ?_⟩
        · show (position t o).line + 1 = above.length + 1 + 1
          rw [hline]
        · rw [List.map_cons, List.sum_cons, List.length_nil]
          dsimp only
          omega
      · obtain ⟨first, lines, hsplit, hsplit'⟩ := splitOn_cons hc t
        rw [position_cons hc, hsplit']
        -- The character counts for the column on the first line, and for the sum on all others.
        cases above with
        | nil =>
          obtain ⟨rfl, rfl⟩ := List.cons.inj (hsplit.symm.trans hlines)
          have hfirst : (position t o).line = 1 := hline
          rw [if_pos hfirst]
          exact ⟨[], c :: first, lines, rfl, hline, Nat.succ_le_succ hcol, congrArg (· + 1) hsum⟩
        | cons head above =>
          obtain ⟨rfl, rfl⟩ := List.cons.inj (hsplit.symm.trans hlines)
          have hlater : (position t o).line ≠ 1 := by
            rw [hline, List.length_cons]
            omega
          rw [if_neg hlater]
          refine ⟨(c :: first) :: above, line, below, rfl, hline, hcol, ?_⟩
          rw [List.map_cons, List.sum_cons] at hsum ⊢
          rw [List.length_cons]
          dsimp only
          omega

theorem holds_position {t : Text} {o : Nat} (ho : o ≤ t.length) : Holds t (position t o) := by
  obtain ⟨above, line, below, hlines, hline, hcol, -⟩ := position_spec ho
  refine ⟨one_le_line t o, line, ?_, hcol⟩
  rw [hline, hlines, Nat.add_sub_cancel, List.getElem?_append_right (Nat.le_refl _), Nat.sub_self]
  rfl

theorem offset_position {t : Text} {o : Nat} (ho : o ≤ t.length) :
    offset t (position t o) = o := by
  obtain ⟨above, line, below, hlines, hline, -, hsum⟩ := position_spec ho
  unfold offset
  rw [hline, hlines, Nat.add_sub_cancel, List.take_left]
  exact hsum.symm

theorem position_before {t : Text} {o o' : Nat} (h : o < o') (ho : o' ≤ t.length) :
    (position t o).Before (position t o') := by
  induction t generalizing o o' with
  | nil => simp at ho; omega
  | cons c t ih =>
    obtain ⟨n, rfl⟩ : ∃ n, o' = n + 1 := ⟨o' - 1, by omega⟩
    have hn : n ≤ t.length := by simpa using ho
    have hone := one_le_line t n
    cases o with
    | zero =>
      rw [position_zero]
      by_cases hc : c = '\n'
      · subst hc
        rw [position_newline_cons]
        exact .inl (Nat.succ_lt_succ hone)
      · rw [position_cons hc]
        by_cases hfirst : (position t n).line = 1
        · exact .inr ⟨hfirst.symm, by simp [hfirst]⟩
        · exact .inl (show 1 < (position t n).line by omega)
    | succ o =>
      have hrest := ih (o := o) (by omega) hn
      by_cases hc : c = '\n'
      · subst hc
        rw [position_newline_cons, position_newline_cons]
        rcases hrest with hline | ⟨hline, hcol⟩
        · exact .inl (Nat.succ_lt_succ hline)
        · exact .inr ⟨congrArg (· + 1) hline, hcol⟩
      · rw [position_cons hc, position_cons hc]
        rcases hrest with hline | ⟨hline, hcol⟩
        · exact .inl hline
        · exact .inr ⟨hline, by simp only [hline]; omega⟩

end Text

end DqlScan
