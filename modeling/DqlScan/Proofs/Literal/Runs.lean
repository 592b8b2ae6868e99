import DqlScan.Literal.Scan
import DqlScan.Proofs.Literal.Closing

/-!
# Runs of the scan

What a scan does with a whole piece of text: with characters that open nothing, with a literal,
and with a text that opens a literal and never closes it.
-/

namespace DqlScan.Literal

def Cursor.skip (c : Cursor) (n : Nat) : Cursor := { c with offset := c.offset + n }

/-- A cursor between two literals, as the first is. -/
def Cursor.Rests (c : Cursor) : Prop := c.state = {} ∧ c.escaped = false

def DelimiterFree (t : Text) : Prop := ∀ d : Delimiter, d.char ∉ t

/-! ### Inside a literal -/

theorem scanFrom_cons_inside {c : Cursor} (inside : c.state.mode ≠ .outside) {x : Char}
    {rest : Text} {t : Transition}
    (ht : step c.state (.ofChar x) c.escaped (rest.head?.map .ofChar) = t) :
    scanFrom c 0 (x :: rest) =
      let later := scanFrom ⟨t.state, t.escaped, c.start, c.opened, c.offset + t.consumed⟩ 0
        (rest.drop (t.consumed - 1))
      ((if t.closes then [⟨c.opened.take (c.offset + t.consumed - c.start), c.start⟩] else []) ++
        later.1, later.2) := by
  subst ht
  rw [scanFrom, scanFrom_taken]
  simp only [Cursor.advance, inside, false_and, if_false]
  split <;> rfl

/-- A text that closes the literal yields it as a token, and the scan goes on behind it. -/
theorem scanFrom_closes {c : Cursor} (inside : c.state.mode ≠ .outside)
    (balanced : c.state.Balanced) {v : Text} (h : Closes c.state c.escaped v) (r : Text) :
    scanFrom c 0 (v ++ r) =
      let later := scanFrom ⟨{}, false, c.start, c.opened, c.offset + v.length⟩ 0 r
      (⟨c.opened.take (c.offset + v.length - c.start), c.start⟩ :: later.1, later.2) := by
  -- A transition takes one character or two, so the induction is on the length.
  induction hn : v.length using Nat.strongRecOn generalizing c v with
  | ind n ih =>
    cases v with
    | nil => exact absurd h not_closes_nil
    | cons x v =>
      rcases closes_cons_cases inside balanced h with
        ⟨rfl, closing⟩ | ⟨t, u, w, rfl, consumed, ht, open', stays, hb, hw⟩
      · subst hn
        exact scanFrom_cons_inside inside (closing _)
      · rw [List.cons_append, scanFrom_cons_inside inside (ht r)]
        simp only [open', consumed, Nat.add_sub_cancel, List.append_assoc, List.drop_left]
        have hlen : n = u.length + 1 + w.length := by simp at hn; omega
        have hrun := ih w.length (by omega)
          (c := ⟨t.state, t.escaped, c.start, c.opened, c.offset + (u.length + 1)⟩) stays hb hw rfl
        rw [hrun, hlen]
        simp only [Nat.add_assoc]
        rfl

/-- Nothing at the end of the one text means something only because of the other. -/
def Apart (w r : Text) : Prop := w.getLast? = some '$' → r.head? ≠ some '\x7b'

theorem step_apart (s : State) {x : Char} (escaped : Bool) {w r : Text} (h : Apart (x :: w) r) :
    step s (.ofChar x) escaped ((w ++ r).head?.map .ofChar) =
      step s (.ofChar x) escaped (w.head?.map .ofChar) := by
  cases w with
  | cons y w => rfl
  | nil =>
    refine step_next s escaped fun hx => ?_
    obtain rfl := (Symbol.ofChar_eq_iff (x := .dollar) rfl).mp hx
    cases r with
    | nil => simp
    | cons y r =>
      have hy : y ≠ '\x7b' := by simpa using h rfl
      simp [Symbol.ofChar_eq_iff (x := .openBrace) rfl, hy]

theorem Apart.of_append {u w r : Text} (h : Apart (u ++ w) r) : Apart w r := by
  intro hw
  apply h
  simp [List.getLast?_append, hw]

/-- A text of which no first part closes the literal leads to a state inside it, and the scan goes
on from there. -/
theorem scanFrom_open_append {s : State} {escaped : Bool} (inside : s.mode ≠ .outside)
    (balanced : s.Balanced) {w : Text} (h : ∀ v, v <+: w → ¬Closes s escaped v) :
    ∃ (s' : State) (escaped' : Bool), s'.mode ≠ .outside ∧ s'.Balanced ∧
      ∀ start opened offset r, Apart w r →
        scanFrom ⟨s, escaped, start, opened, offset⟩ 0 (w ++ r) =
          scanFrom ⟨s', escaped', start, opened, offset + w.length⟩ 0 r := by
  induction hn : w.length using Nat.strongRecOn generalizing s escaped w with
  | ind n ih =>
    cases w with
    | nil =>
      subst hn
      exact ⟨s, escaped, inside, balanced, fun _ _ _ _ _ => rfl⟩
    | cons x rest =>
      generalize ht : step s (.ofChar x) escaped (rest.head?.map .ofChar) = t
      have hb : t.state.Balanced := by
        rw [← ht]
        exact step_balanced balanced _ _ _
      rcases step_leaves inside (.ofChar x) escaped (rest.head?.map .ofChar) with
        closing | ⟨open', stays⟩
      · refine absurd ?_ (h [x] ⟨rest, rfl⟩)
        rw [closes_cons inside balanced rfl, if_pos]
        exact (step_closes_iff inside).mpr ((step_closes_iff inside).mp (by rw [closing]))
      · obtain ⟨u, later, rfl, consumed⟩ := step_reads s (.ofChar x) escaped rest
        rw [ht] at open' stays consumed
        have hdrop : (u ++ later).drop (t.consumed - 1) = later := by simp [consumed]
        have hlater : ∀ v, v <+: later → ¬Closes t.state t.escaped v := by
          intro v hv hc
          obtain ⟨y, hy, hc⟩ := closes_of_step inside balanced ht open' (by rwa [hdrop]) hc
          exact h y hy hc
        obtain ⟨s', escaped', hmode, hbalanced, hrun⟩ :=
          ih later.length (by simp at hn; omega) stays hb hlater rfl
        refine ⟨s', escaped', hmode, hbalanced, fun start opened offset r hr => ?_⟩
        have happart : Apart later r := Apart.of_append (u := x :: u) hr
        have hstep := (step_apart s escaped hr).trans ht
        have hlen : offset + t.consumed + later.length = offset + n := by
          simp at hn
          omega
        rw [List.cons_append, scanFrom_cons_inside inside hstep]
        simp only [open', consumed, Nat.add_sub_cancel, List.append_assoc, List.drop_left]
        rw [← consumed, hrun start opened _ r happart, hlen]
        rfl

/-- A text of which no first part closes the literal yields nothing and leaves it open. -/
theorem scanFrom_open {c : Cursor} (inside : c.state.mode ≠ .outside) (balanced : c.state.Balanced)
    {w : Text} (h : ∀ v, v <+: w → ¬Closes c.state c.escaped v) :
    ∃ c' : Cursor, scanFrom c 0 w = ([], c') ∧ c'.state.mode ≠ .outside ∧ c'.start = c.start := by
  obtain ⟨s', escaped', hmode, -, hrun⟩ := scanFrom_open_append inside balanced h
  refine ⟨⟨s', escaped', c.start, c.opened, c.offset + w.length⟩, ?_, hmode, rfl⟩
  simpa [scanFrom] using hrun c.start c.opened c.offset [] (by simp [Apart])

/-! ### Between literals -/

theorem DelimiterFree.of_cons {c : Char} {t : Text} (h : DelimiterFree (c :: t)) :
    (∀ d : Delimiter, c ≠ d.char) ∧ DelimiterFree t :=
  ⟨fun d hc => h d (by simp [hc]), fun d hd => h d (by simp [hd])⟩

theorem scanFrom_delimiterFree {c : Cursor} (rests : c.Rests) {g : Text} (h : DelimiterFree g)
    (t : Text) : scanFrom c 0 (g ++ t) = scanFrom (c.skip g.length) 0 t := by
  induction g generalizing c with
  | nil => rfl
  | cons x g ih =>
    obtain ⟨hx, hg⟩ := h.of_cons
    obtain ⟨state, escaped, start, opened, offset⟩ := c
    obtain ⟨rfl, rfl⟩ := rests
    have hstep : step {} (.ofChar x) false ((g ++ t).head?.map .ofChar) = { state := {} } := by
      cases hs : Symbol.ofChar x with
      | delimiter d => exact absurd (Symbol.ofChar_eq_delimiter_iff.mp hs) (hx d)
      | _ => rfl
    have hrest := ih (c := ⟨{}, false, start, opened, offset + 1⟩) ⟨rfl, rfl⟩ hg
    have hlen : offset + 1 + g.length = offset + (g.length + 1) := by omega
    rw [List.cons_append, scanFrom]
    simp only [Cursor.advance, hstep]
    simp [hrest, Cursor.skip, hlen]

theorem scanFrom_delimiter {c : Cursor} (rests : c.Rests) (d : Delimiter) (t : Text) :
    scanFrom c 0 (d.char :: t) =
      scanFrom ⟨⟨d.mode, 0⟩, false, c.offset, d.char :: t, c.offset + 1⟩ 0 t := by
  obtain ⟨state, escaped, start, opened, offset⟩ := c
  obtain ⟨rfl, rfl⟩ := rests
  have hstep : step {} (.ofChar d.char) false (t.head?.map .ofChar) = { state := ⟨d.mode, 0⟩ } := by
    rw [Symbol.ofChar_eq_delimiter_iff.mpr rfl]
    rfl
  have hmode : d.mode ≠ .outside := by cases d <;> decide
  rw [scanFrom]
  simp [Cursor.advance, hstep, hmode]

theorem scanFrom_literal {c : Cursor} (rests : c.Rests) {t : Text} (h : IsLiteral t) (r : Text) :
    scanFrom c 0 (t ++ r) =
      let later := scanFrom ⟨{}, false, c.offset, t ++ r, c.offset + t.length⟩ 0 r
      (⟨t, c.offset⟩ :: later.1, later.2) := by
  obtain ⟨d, v, rfl, hv⟩ := isLiteral_iff.mp h
  have hmode : d.mode ≠ .outside := by cases d <;> decide
  have hrun := scanFrom_closes
    (c := ⟨⟨d.mode, 0⟩, false, c.offset, d.char :: (v ++ r), c.offset + 1⟩)
    hmode (balanced_mode d) hv r
  rw [List.cons_append, scanFrom_delimiter rests, hrun]
  have hlen : c.offset + 1 + v.length = c.offset + (v.length + 1) := by omega
  simp [hlen]

end DqlScan.Literal
