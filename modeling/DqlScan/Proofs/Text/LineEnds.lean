import DqlScan.Proofs.Text.Lines

/-!
# Line ends

Lines that are written with any line end are read with a line feed each (`LineStyle.lines_closed`),
the last one as it is if nothing ends it (`LineStyle.lines_open`).
-/

namespace DqlScan

inductive LineEnd where
  | lineFeed
  | carriageReturn
  | both

def LineEnd.text : LineEnd → Text
  | .lineFeed => ['\n']
  | .carriageReturn => ['\r']
  | .both => ['\r', '\n']

/-- A way to write lines: what ends them, and whether it ends the last one too. -/
structure LineStyle where
  lineEnd : LineEnd
  closed : Bool

def LineStyle.text (s : LineStyle) (rows : List Text) : Text :=
  if s.closed then rows.flatMap (· ++ s.lineEnd.text) else List.intercalate s.lineEnd.text rows

namespace Text

def Unbroken (row : Text) : Prop := '\r' ∉ row ∧ '\n' ∉ row

variable {row later : Text} {rows : List Text}

theorem unifyNewlines_eq_self (h : '\r' ∉ row) : unifyNewlines row = row := by
  induction row with
  | nil => rfl
  | cons c row ih =>
    simp only [List.mem_cons, not_or] at h
    simp [unifyNewlines, Ne.symm h.1, ih h.2]

/-- A carriage return joins with a line feed behind it, so there must be none. -/
theorem unifyNewlines_row {e : LineEnd} (hrow : '\r' ∉ row)
    (hlater : e = .carriageReturn → '\n' ∉ later) :
    unifyNewlines (row ++ e.text ++ later) = row ++ '\n' :: unifyNewlines later := by
  induction row with
  | nil =>
    cases e with
    | lineFeed | both => simp [LineEnd.text, unifyNewlines]
    | carriageReturn =>
      cases later with
      | nil => rfl
      | cons c later =>
        have hc : c ≠ '\n' := by
          rintro rfl
          exact hlater rfl List.mem_cons_self
        simp [LineEnd.text, unifyNewlines, hc]
  | cons c row ih =>
    simp only [List.mem_cons, not_or] at hrow
    simp [unifyNewlines, Ne.symm hrow.1, ← ih hrow.2]

theorem lines_unbroken (h : '\n' ∉ row) : lines row = if row = [] then [] else [row] := by
  induction row with
  | nil => rfl
  | cons c row ih =>
    simp only [List.mem_cons, not_or] at h
    rw [lines, if_neg (Ne.symm h.1), ih h.2]
    by_cases hrow : row = [] <;> simp [hrow]

/-- Lines that are ended and a last one that is not, as they are read. -/
theorem lines_ended {e : LineEnd} {last : Text} (hrows : ∀ row ∈ rows, Unbroken row)
    (hlast : Unbroken last) :
    lines (unifyNewlines (rows.flatMap (· ++ e.text) ++ last)) =
      rows.map (· ++ ['\n']) ++ lines last := by
  induction rows with
  | nil => simp [unifyNewlines_eq_self hlast.1]
  | cons row rows ih =>
    obtain ⟨hrow, hrows⟩ := List.forall_mem_cons.mp hrows
    -- A line feed in front of the later rows would belong to this one.
    have hfeed : e = .carriageReturn → '\n' ∉ rows.flatMap (· ++ e.text) ++ last := by
      rintro rfl
      simp only [List.mem_append, List.mem_flatMap, LineEnd.text, not_or, not_exists, not_and]
      exact ⟨fun other hother => ⟨(hrows other hother).2, by simp⟩, hlast.2⟩
    rw [List.flatMap_cons, List.append_assoc, unifyNewlines_row hrow.1 hfeed, lines_append_newline,
      lines_newline hrow.2, ih hrows]
    rfl

theorem intercalate_concat (separator : Text) (rows : List Text) (last : Text) :
    List.intercalate separator (rows ++ [last]) = rows.flatMap (· ++ separator) ++ last := by
  induction rows with
  | nil => simp
  | cons row rows ih =>
    rw [List.cons_append, List.intercalate_cons_of_ne_nil (by simp), ih, List.flatMap_cons]
    simp only [List.append_assoc]

end Text

namespace LineStyle

def lines (s : LineStyle) (rows : List Text) : List Text :=
  Text.lines (Text.unifyNewlines (s.text rows))

variable {s s' : LineStyle} {rows : List Text}

theorem lines_closed (h : s.closed = true) (hrows : ∀ row ∈ rows, row.Unbroken) :
    s.lines rows = rows.map (· ++ ['\n']) := by
  rw [lines, text, if_pos h, ← List.append_nil (List.flatMap _ _),
    Text.lines_ended hrows ⟨List.not_mem_nil, List.not_mem_nil⟩]
  exact List.append_nil _

theorem lines_open {last : Text} (h : s.closed = false)
    (hrows : ∀ row ∈ rows ++ [last], row.Unbroken) :
    s.lines (rows ++ [last]) = rows.map (· ++ ['\n']) ++ if last = [] then [] else [last] := by
  obtain ⟨hinit, hlast⟩ := List.forall_mem_append.mp hrows
  rw [List.forall_mem_singleton] at hlast
  rw [lines, text, if_neg (by simp [h]), Text.intercalate_concat, Text.lines_ended hinit hlast,
    Text.lines_unbroken hlast.2]

theorem lines_nil (s : LineStyle) : s.lines [] = [] := by
  unfold lines text
  split <;> rfl

/-- What ends the lines makes no difference to them. -/
theorem lines_congr (h : s.closed = s'.closed) (hrows : ∀ row ∈ rows, row.Unbroken) :
    s.lines rows = s'.lines rows := by
  rcases hclosed : s.closed with _ | _
  · rcases List.eq_nil_or_concat' rows with rfl | ⟨before, last, rfl⟩
    · rw [lines_nil, lines_nil]
    · rw [lines_open hclosed hrows, lines_open (h.symm.trans hclosed) hrows]
  · rw [lines_closed hclosed hrows, lines_closed (h.symm.trans hclosed) hrows]

end LineStyle

end DqlScan
