import DqlScan.Proofs.Literal.Concatenation
import DqlScan.Proofs.Literal.Points

/-!
# Literals left open

A scan ends inside a literal exactly if its text opens one behind all tokens and never closes it
(`unterminated?_iff`). The state at the end tells what is missing: a character if the last
backslash still wants one, as many braces as are open, and the delimiter (`exists_completion`).
-/

namespace DqlScan.Literal

/-! ### Where a literal is left open -/

/-- The offset behind the last token of a text. -/
def lastStop (content : Text) : Nat := ((tokens content).map Token.stop).getLastD 0

/-- At this offset, behind the last token and a gap, the text opens a literal that it never
closes. -/
structure OpensAt (content : Text) (start : Nat) : Prop where
  behind : lastStop content ≤ start
  gap : ∀ i, lastStop content ≤ i → i < start → ∀ d : Delimiter, content[i]? ≠ some d.char
  opens : ∃ d : Delimiter, content[start]? = some d.char
  unclosed : ∀ v, v <+: content.drop start → ¬IsLiteral v

namespace Split

theorem closed_eq (s : Split) :
    s.closed.text = (s.pieces.flatMap fun piece => piece.1 ++ piece.2) ++ s.gap := by
  simp [text, closed]

theorem getLastD_stop_tokensFrom (offset : Nat) (pieces : List (Text × Text)) :
    ((tokensFrom offset pieces).map Token.stop).getLastD offset =
      offset + (pieces.flatMap fun piece => piece.1 ++ piece.2).length := by
  induction pieces generalizing offset with
  | nil => rfl
  | cons piece pieces ih =>
    rw [tokensFrom, List.map_cons, List.getLastD_cons, Token.stop, ih]
    simp [Nat.add_assoc]

theorem Valid.lastStop {s : Split} (valid : s.Valid) :
    lastStop s.text = (s.pieces.flatMap fun piece => piece.1 ++ piece.2).length := by
  have hstop := getLastD_stop_tokensFrom 0 s.pieces
  rw [Nat.zero_add] at hstop
  rw [Literal.lastStop, tokens_split valid, Split.tokens, hstop]

theorem Valid.unterminated? {s : Split} (valid : s.Valid) (hne : s.rest ≠ []) :
    ∃ state, unterminated? s.text = some ⟨s.closed.text.length, state⟩ := by
  have hopen := valid.rest.resolve_left hne
  obtain ⟨c, rests, hoffset, hrun⟩ := scanFrom_closed (c := {}) ⟨rfl, rfl⟩ valid.closed s.rest
  obtain ⟨c', hleft, inside, hstart⟩ := scanFrom_unclosed rests hopen
  refine ⟨c'.state, ?_⟩
  rw [Literal.unterminated?, scan, s.text_closed, hrun, hleft]
  simp [Cursor.unterminated?, inside, hstart, hoffset]

/-- An offset at which a literal is left open divides what follows the pieces into gap and rest. -/
theorem Valid.exists_rest {s : Split} (valid : s.Valid) {start : Nat} (h : OpensAt s.text start) :
    ∃ s' : Split, s'.text = s.text ∧ s'.Valid ∧ s'.rest ≠ [] ∧ s'.closed.text.length = start := by
  obtain ⟨n, rfl⟩ := Nat.exists_eq_add_of_le h.behind
  obtain ⟨d, hopens⟩ := h.opens
  have hgap := h.gap
  have hunclosed := h.unclosed
  rw [valid.lastStop] at hopens hgap hunclosed ⊢
  have hpieces := valid.pieces
  obtain ⟨pieces, gap, rest⟩ := s
  simp only [text, List.append_assoc, List.drop_length_add_append] at hopens hgap hunclosed ⊢
  generalize gap ++ rest = behind at hopens hgap hunclosed ⊢
  rw [List.getElem?_append_right (Nat.le_add_right _ _), Nat.add_sub_cancel_left] at hopens
  obtain ⟨w, hdrop⟩ : ∃ w, behind.drop n = d.char :: w := by
    rw [← List.head?_drop] at hopens
    exact List.head?_eq_some_iff.mp hopens
  refine ⟨⟨pieces, behind.take n, behind.drop n⟩, by simp,
    ⟨hpieces, fun e he => ?_, .inr ⟨⟨d, w, hdrop⟩, hunclosed⟩⟩, by simp [hdrop], ?_⟩
  · obtain ⟨i, hi⟩ := List.mem_iff_getElem?.mp he
    rw [List.getElem?_take] at hi
    split at hi
    · next hlt =>
      refine hgap _ (Nat.le_add_right _ i) (Nat.add_lt_add_left hlt _) e ?_
      rw [List.getElem?_append_right (Nat.le_add_right _ _), Nat.add_sub_cancel_left, hi]
    · cases hi
  · have hle : n < behind.length := by
      have hlen := congrArg List.length hdrop
      simp at hlen
      omega
    simp [Split.closed, Nat.min_eq_left hle.le]

/-- What is left of a decomposition is a literal left open. -/
theorem Valid.opensAt {s : Split} (valid : s.Valid) (hne : s.rest ≠ []) :
    OpensAt s.text s.closed.text.length := by
  obtain ⟨⟨d, w, hrest⟩, hunclosed⟩ := valid.rest.resolve_left hne
  have hstop := valid.lastStop
  have hdrop : s.text.drop s.closed.text.length = s.rest := by
    rw [s.text_closed, List.drop_left]
  refine ⟨?_, ?_, ⟨d, ?_⟩, ?_⟩
  · rw [hstop]
    simp [closed_eq]
  · intro i hle hlt e he
    rw [hstop] at hle
    obtain ⟨n, rfl⟩ := Nat.exists_eq_add_of_le hle
    rw [s.text_closed, List.getElem?_append_left hlt, s.closed_eq] at he
    rw [List.getElem?_append_right (Nat.le_add_right _ _), Nat.add_sub_cancel_left] at he
    exact valid.gap e (List.mem_of_getElem? he)
  · rw [← List.head?_drop, hdrop, hrest]
    rfl
  · rw [hdrop]
    exact hunclosed

end Split

theorem unterminated?_iff {content : Text} {start : Nat} :
    (∃ state, unterminated? content = some ⟨start, state⟩) ↔ OpensAt content start := by
  constructor
  · rintro ⟨state, h⟩
    obtain ⟨s, rfl, valid⟩ := Split.exists_valid content
    have hne : s.rest ≠ [] := by
      intro hnil
      rw [(unterminated?_split valid).mpr hnil] at h
      cases h
    obtain ⟨state', h'⟩ := valid.unterminated? hne
    obtain ⟨rfl, -⟩ : s.closed.text.length = start ∧ state' = state := by simpa [h'] using h
    exact valid.opensAt hne
  · intro h
    obtain ⟨s, rfl, valid⟩ := Split.exists_valid content
    obtain ⟨s', htext, valid', hne, rfl⟩ := valid.exists_rest h
    rw [← htext]
    exact valid'.unterminated? hne

/-! ### What is missing -/

theorem templateEnd_braces (n : Nat) :
    TemplateEnd n (List.replicate n '\x7d' ++ [Delimiter.backtick.char]) := by
  induction n with
  | zero => exact templateEnd_backtick.mpr rfl
  | succ n ih => exact templateEnd_closeBrace.mpr ih

theorem not_templateEnd_braces {k n : Nat} (h : k < n) {v : Text}
    (hv : v <+: List.replicate k '\x7d' ++ [Delimiter.backtick.char]) : ¬TemplateEnd n v := by
  obtain ⟨n, rfl⟩ : ∃ m, n = m + 1 := ⟨n - 1, by omega⟩
  induction k generalizing n v with
  | zero =>
    rcases List.prefix_cons_iff.mp hv with rfl | ⟨u, rfl, hu⟩
    · exact not_templateEnd_nil
    · obtain rfl := List.prefix_nil.mp hu
      rw [templateEnd_plain_succ (by decide) (by decide) (by decide)]
      exact not_templateEnd_nil
  | succ k ih =>
    rcases List.prefix_cons_iff.mp hv with rfl | ⟨u, rfl, hu⟩
    · exact not_templateEnd_nil
    · obtain ⟨n, rfl⟩ : ∃ m, n = m + 1 := ⟨n - 1, by omega⟩
      rw [templateEnd_closeBrace]
      exact ih hu n (by omega)

theorem State.end_braces {s : State} {d : Delimiter} (balanced : s.Balanced)
    (hd : s.mode.delimiter? = some d) :
    s.End (List.replicate s.depth.toNat '\x7d' ++ [d.char]) := by
  obtain ⟨mode, depth⟩ := s
  cases mode with
  | outside => cases hd
  | single =>
    obtain rfl : depth = 0 := by simpa [State.Balanced] using balanced
    cases hd
    exact (quotedEnd_close (by decide)).mpr rfl
  | double =>
    obtain rfl : depth = 0 := by simpa [State.Balanced] using balanced
    cases hd
    exact (quotedEnd_close (by decide)).mpr rfl
  | template =>
    cases hd
    exact templateEnd_braces _
  | interpolation =>
    cases hd
    exact templateEnd_braces _

theorem State.not_end_braces {s : State} {d : Delimiter} (balanced : s.Balanced)
    (hd : s.mode.delimiter? = some d) {k : Nat} (hk : k < s.depth.toNat) {v : Text}
    (hv : v <+: List.replicate k '\x7d' ++ [d.char]) : ¬s.End v := by
  obtain ⟨mode, depth⟩ := s
  cases mode with
  | outside => cases hd
  | interpolation =>
    cases hd
    exact not_templateEnd_braces hk hv
  | _ =>
    obtain rfl : depth = 0 := by simpa [State.Balanced] using balanced
    exact absurd hk (Nat.not_lt_zero k)

theorem closes_owed {s : State} {escaped : Bool} {x : Text} (hx : x.length = escaped.toNat)
    (v : Text) : Closes s escaped (x ++ v) ↔ Closes s false v := by
  cases escaped with
  | false =>
    obtain rfl := List.length_eq_zero_iff.mp hx
    rfl
  | true =>
    obtain ⟨y, rfl⟩ := List.length_eq_one_iff.mp hx
    exact closes_true_cons

theorem not_closes_owed {s : State} {escaped : Bool} {x t : Text} (hx : x.length = escaped.toNat)
    (h : ∀ v, v <+: t → ¬Closes s false v) : ∀ v, v <+: x ++ t → ¬Closes s escaped v := by
  cases escaped with
  | false =>
    obtain rfl := List.length_eq_zero_iff.mp hx
    exact h
  | true =>
    obtain ⟨y, rfl⟩ := List.length_eq_one_iff.mp hx
    intro v hv
    rcases List.prefix_cons_iff.mp hv with rfl | ⟨u, rfl, hu⟩
    · exact not_closes_nil
    · rw [closes_true_cons]
      exact h u hu

/-! ### The scan of a longer text -/

/-- How many characters the last backslash of an open literal still wants: one, if it is not escaped
itself. -/
def owed (content : Text) (start : Nat) : Nat :=
  backslashes (inner content start content.length) % 2

/-- A character that is owed, if there is one, closing braces, and a delimiter. -/
def completion (x : Text) (braces : Nat) (d : Delimiter) : Text :=
  x ++ (List.replicate braces '\x7d' ++ [d.char])

/-- A scan of what a text with an open literal starts goes on from the state at the end of the
text. -/
theorem scan_unclosed {s : Split} (valid : s.Valid) {d : Delimiter} {w : Text}
    (hrest : s.rest = d.char :: w) :
    ∃ (state : State) (escaped : Bool), state.mode ≠ .outside ∧ state.Balanced ∧
      ∀ r, Apart w r → scan (s.text ++ r) =
        let later := scanFrom
          ⟨state, escaped, s.closed.text.length, s.rest ++ r, s.text.length⟩ 0 r
        (tokens s.text ++ later.1, later.2) := by
  have hopen : Split.Unclosed (d.char :: w) := by
    rw [← hrest]
    exact valid.rest.resolve_left (by simp [hrest])
  have hmode : d.mode ≠ .outside := by cases d <;> decide
  obtain ⟨state, escaped, inside, balanced, hrun⟩ :=
    scanFrom_open_append hmode (balanced_mode d) hopen.not_closes
  refine ⟨state, escaped, inside, balanced, fun r hr => ?_⟩
  obtain ⟨c, rests, hoffset, hscan⟩ :=
    scanFrom_closed (c := {}) ⟨rfl, rfl⟩ valid.closed (s.rest ++ r)
  have hstart : c.offset = s.closed.text.length := by simpa using hoffset
  have hlength : s.closed.text.length + 1 + w.length = s.text.length := by
    rw [s.text_closed, hrest]
    simp
    omega
  have hwhole : s.text ++ r = s.closed.text ++ (s.rest ++ r) := by
    rw [s.text_closed, List.append_assoc]
  rw [scan, hwhole, hscan, tokens_split valid, hrest, List.cons_append, scanFrom_delimiter rests,
    hstart, hrun _ _ _ r hr, hlength]
  rfl

/-- A text that leaves a literal open: the delimiter and what follows it, where the scan stands,
and how it goes on. -/
structure LeftOpen (content : Text) (start : Nat) (d : Delimiter) (w : Text) (state : State)
    (escaped : Bool) : Prop where
  drop : content.drop start = d.char :: w
  delimiter : state.mode.delimiter? = some d
  balanced : state.Balanced
  owed : escaped.toNat = owed content start
  scan : ∀ r, Apart w r → scan (content ++ r) =
    let later := scanFrom ⟨state, escaped, start, content.drop start ++ r, content.length⟩ 0 r
    (tokens content ++ later.1, later.2)

theorem exists_leftOpen {content : Text} {start : Nat} {state : State}
    (h : unterminated? content = some ⟨start, state⟩) :
    ∃ d w escaped, LeftOpen content start d w state escaped := by
  obtain ⟨s, rfl, valid⟩ := Split.exists_valid content
  have hne : s.rest ≠ [] := by
    intro hnil
    rw [(unterminated?_split valid).mpr hnil] at h
    cases h
  obtain ⟨⟨d, w, hrest⟩, -⟩ := valid.rest.resolve_left hne
  obtain ⟨state', escaped, inside, balanced, hrun⟩ := scan_unclosed valid hrest
  have hend : (scan s.text).2 = ⟨state', escaped, s.closed.text.length, s.rest, s.text.length⟩ := by
    have happart : Apart w [] := by simp [Apart]
    simpa [scanFrom] using congrArg Prod.snd (hrun [] happart)
  obtain ⟨rfl, rfl⟩ : s.closed.text.length = start ∧ state' = state := by
    simpa [unterminated?, hend, Cursor.unterminated?, inside] using h
  have hdrop : s.text.drop s.closed.text.length = s.rest := by
    rw [s.text_closed, List.drop_left]
  -- The invariant of the scan ties mode and escape at its end to the text.
  have sound := (reached_scan s.text).sound
  rw [hend] at sound
  obtain ⟨-, e, hdelimiter, he⟩ := sound.delimiter inside
  obtain rfl : e = d := by
    rw [← List.head?_drop, hdrop, hrest] at he
    have hchar : d.char = e.char := by simpa using he
    rw [← Option.some.injEq, ← Delimiter.ofChar?_char e, ← Delimiter.ofChar?_char d, hchar]
  refine ⟨e, w, escaped, hdrop.trans hrest, hdelimiter, balanced, ?_, fun r hr => ?_⟩
  · have hescaped := sound.escaped inside
    unfold owed
    cases escaped <;> simp at hescaped ⊢ <;> omega
  · rw [hdrop]
    exact hrun r hr

namespace LeftOpen

variable {content : Text} {start : Nat} {d : Delimiter} {w : Text} {state : State} {escaped : Bool}

theorem inside (left : LeftOpen content start d w state escaped) : state.mode ≠ .outside := by
  intro houtside
  have hdelimiter := left.delimiter
  rw [houtside] at hdelimiter
  cases hdelimiter

theorem start_lt (left : LeftOpen content start d w state escaped) : start < content.length := by
  have hlen := congrArg List.length left.drop
  simp at hlen
  omega

/-- Neither a brace nor a delimiter nor an owed character makes a dollar sign open anything. -/
theorem apart (left : LeftOpen content start d w state escaped) {x : Text}
    (hx : x.length = Literal.owed content start) (braces : Nat) :
    Apart w (completion x braces d) := by
  have hinner : inner content start content.length = w := by
    have hw := (drop_succ left.drop).2
    rw [inner, List.extract_eq_take_drop, hw, ← hw, ← List.length_drop, List.take_length]
  unfold Literal.owed at hx
  rw [hinner] at hx
  intro hlast
  obtain ⟨before, rfl⟩ := List.getLast?_eq_some_iff.mp hlast
  -- A text that ends in a dollar sign ends in no backslash, so that nothing is owed.
  obtain rfl : x = [] := by
    rw [backslashes_concat] at hx
    simpa using hx
  cases braces with
  | zero => cases d <;> simp [completion, Delimiter.char]
  | succ braces => simp [completion, List.replicate_succ]

theorem closed (left : LeftOpen content start d w state escaped) {r : Text} (hr : Apart w r)
    (h : Closes state escaped r) :
    tokens (content ++ r) = tokens content ++ [⟨(content ++ r).drop start, start⟩] ∧
      unterminated? (content ++ r) = none := by
  have hclose := scanFrom_closes
    (c := ⟨state, escaped, start, content.drop start ++ r, content.length⟩) left.inside
    left.balanced h []
  rw [List.append_nil] at hclose
  have hscan := left.scan r hr
  rw [hclose] at hscan
  have hlength : content.length + r.length - start = (content.drop start ++ r).length := by
    have hlt := left.start_lt
    simp
    omega
  constructor
  · rw [tokens, hscan, List.drop_append_of_le_length left.start_lt.le, hlength, List.take_length]
    rfl
  · rw [unterminated?, hscan]
    rfl

theorem longer (left : LeftOpen content start d w state escaped) {r : Text} (hr : Apart w r)
    (h : ∀ v, v <+: r → ¬Closes state escaped v) :
    tokens (content ++ r) = tokens content ∧
      ∃ state', unterminated? (content ++ r) = some ⟨start, state'⟩ := by
  obtain ⟨c, hopen, hmode, hstart⟩ := scanFrom_open
    (c := ⟨state, escaped, start, content.drop start ++ r, content.length⟩) left.inside
    left.balanced h
  have hscan := left.scan r hr
  rw [hopen] at hscan
  constructor
  · rw [tokens, hscan]
    exact List.append_nil _
  · refine ⟨c.state, ?_⟩
    rw [unterminated?, hscan]
    simp [Cursor.unterminated?, hmode, hstart]

end LeftOpen

/-- The literal that a text leaves open at an offset is closed by the character that is owed, so
many braces and the delimiter, and stays open with fewer braces. -/
structure ClosedBy (content : Text) (start depth : Nat) (d : Delimiter) : Prop where
  closes : ∀ x : Text, x.length = owed content start →
    let whole := content ++ completion x depth d
    tokens whole = tokens content ++ [⟨whole.drop start, start⟩] ∧ unterminated? whole = none
  leaves : ∀ x : Text, x.length = owed content start → ∀ braces < depth,
    let longer := content ++ completion x braces d
    tokens longer = tokens content ∧ ∃ state, unterminated? longer = some ⟨start, state⟩

theorem exists_completion {content : Text} {start : Nat} {state : State}
    (h : unterminated? content = some ⟨start, state⟩) :
    ∃ (d : Delimiter) (depth : Nat), content[start]? = some d.char ∧
      state.mode.delimiter? = some d ∧ state.depth = depth ∧ ClosedBy content start depth d := by
  obtain ⟨d, w, escaped, left⟩ := exists_leftOpen h
  have hdepth : state.depth = (state.depth.toNat : Int) := by
    have hbalanced := left.balanced
    unfold State.Balanced at hbalanced
    split at hbalanced <;> omega
  refine ⟨d, state.depth.toNat, (drop_succ left.drop).1, left.delimiter, hdepth, ?_, ?_⟩
  · intro x hx
    have hend := State.end_braces left.balanced left.delimiter
    exact left.closed (left.apart hx _) ((closes_owed (hx.trans left.owed.symm) _).mpr hend)
  · intro x hx braces hbraces
    have hopen := not_closes_owed (hx.trans left.owed.symm) fun v =>
      State.not_end_braces left.balanced left.delimiter hbraces
    exact left.longer (left.apart hx braces) hopen

end DqlScan.Literal
