import DqlScan.Proofs.Literal.Runs

/-!
# Decomposition of a text

Every text is, in exactly one way, gaps without delimiters and literals in turn, and at its end at
most one literal that is never closed. The tokens of the text are the literals of this
decomposition at their offsets (`exists_split`).
-/

namespace DqlScan.Literal

/-- A text in pieces: gaps, each with the literal after it, the gap after the last literal, and
what is left. -/
structure Split where
  pieces : List (Text × Text)
  gap : Text
  rest : Text

namespace Split

def text (s : Split) : Text := s.pieces.flatMap (fun piece => piece.1 ++ piece.2) ++ s.gap ++ s.rest

/-- What is left of a text opens a literal of which no first part is one. -/
def Unclosed (t : Text) : Prop :=
  (∃ (d : Delimiter) (w : Text), t = d.char :: w) ∧ ∀ v, v <+: t → ¬IsLiteral v

structure Valid (s : Split) : Prop where
  pieces : ∀ piece ∈ s.pieces, DelimiterFree piece.1 ∧ IsLiteral piece.2
  gap : DelimiterFree s.gap
  rest : s.rest = [] ∨ Unclosed s.rest

/-- The literals of pieces that start at an offset. -/
def tokensFrom : Nat → List (Text × Text) → List Token
  | _, [] => []
  | offset, (gap, t) :: later =>
    ⟨t, offset + gap.length⟩ :: tokensFrom (offset + gap.length + t.length) later

def tokens (s : Split) : List Token := tokensFrom 0 s.pieces

end Split

/-! ### The scan of a decomposition -/

theorem IsLiteral.ne_nil {t : Text} (h : IsLiteral t) : t ≠ [] := by
  obtain ⟨d, v, rfl, _⟩ := isLiteral_iff.mp h
  simp

theorem Split.Unclosed.not_closes {d : Delimiter} {w : Text} (h : Split.Unclosed (d.char :: w)) :
    ∀ v, v <+: w → ¬Closes ⟨d.mode, 0⟩ false v := by
  intro v hv hc
  have hliteral : IsLiteral (d.char :: v) := isLiteral_iff.mpr ⟨d, v, rfl, hc⟩
  exact h.2 (d.char :: v) (List.cons_prefix_cons.mpr ⟨rfl, hv⟩) hliteral

theorem scanFrom_unclosed {c : Cursor} (rests : c.Rests) {t : Text} (h : Split.Unclosed t) :
    ∃ c' : Cursor, scanFrom c 0 t = ([], c') ∧ c'.state.mode ≠ .outside ∧ c'.start = c.offset := by
  obtain ⟨d, w, rfl⟩ := h.1
  have hmode : d.mode ≠ .outside := by cases d <;> decide
  rw [scanFrom_delimiter rests]
  exact scanFrom_open (c := ⟨⟨d.mode, 0⟩, false, c.offset, d.char :: w, c.offset + 1⟩) hmode
    (balanced_mode d) h.not_closes

namespace Split

theorem text_cons (piece : Text × Text) (pieces : List (Text × Text)) (gap rest : Text) :
    text ⟨piece :: pieces, gap, rest⟩ = piece.1 ++ (piece.2 ++ text ⟨pieces, gap, rest⟩) := by
  simp [text]

def closed (s : Split) : Split := { s with rest := [] }

theorem text_closed (s : Split) : s.text = s.closed.text ++ s.rest := by
  simp [text, closed]

theorem Valid.closed {s : Split} (valid : s.Valid) : s.closed.Valid :=
  ⟨valid.pieces, valid.gap, .inl rfl⟩

theorem Valid.tail {piece : Text × Text} {pieces : List (Text × Text)} {gap rest : Text}
    (valid : Valid ⟨piece :: pieces, gap, rest⟩) : Valid ⟨pieces, gap, rest⟩ :=
  ⟨fun p h => valid.pieces p (List.mem_cons_of_mem _ h), valid.gap, valid.rest⟩

end Split

/-- Behind gaps and literals a scan goes on as it does between any two literals. -/
theorem scanFrom_closed {c : Cursor} (rests : c.Rests) {s : Split} (valid : s.closed.Valid)
    (t : Text) :
    ∃ c' : Cursor, c'.Rests ∧ c'.offset = c.offset + s.closed.text.length ∧
      scanFrom c 0 (s.closed.text ++ t) =
        (Split.tokensFrom c.offset s.pieces ++ (scanFrom c' 0 t).1, (scanFrom c' 0 t).2) := by
  obtain ⟨pieces, gap, rest⟩ := s
  simp only [Split.closed] at valid ⊢
  induction pieces generalizing c with
  | nil =>
    refine ⟨c.skip gap.length, rests, by simp [Split.text, Cursor.skip], ?_⟩
    simp only [Split.text, List.flatMap_nil, List.nil_append, List.append_nil]
    rw [scanFrom_delimiterFree rests valid.gap]
    rfl
  | cons piece pieces ih =>
    obtain ⟨hg, ht⟩ := valid.pieces _ List.mem_cons_self
    have hrun := scanFrom_literal (c := c.skip piece.1.length) rests ht
      (Split.text ⟨pieces, gap, []⟩ ++ t)
    obtain ⟨c', hrests, hoffset, hlater⟩ := ih (c := ⟨{}, false, c.offset + piece.1.length,
      piece.2 ++ (Split.text ⟨pieces, gap, []⟩ ++ t), c.offset + piece.1.length + piece.2.length⟩)
      ⟨rfl, rfl⟩ valid.tail
    refine ⟨c', hrests, ?_, ?_⟩
    · rw [hoffset, Split.text_cons]
      simp only [List.length_append]
      omega
    · rw [Split.text_cons, List.append_assoc, List.append_assoc,
        scanFrom_delimiterFree rests hg, hrun]
      simp only [Cursor.skip, hlater]
      rfl

theorem scanFrom_split {c : Cursor} (rests : c.Rests) {s : Split} (valid : s.Valid) :
    (scanFrom c 0 s.text).1 = Split.tokensFrom c.offset s.pieces := by
  obtain ⟨c', hrests, -, hrun⟩ := scanFrom_closed rests valid.closed s.rest
  rw [s.text_closed, hrun]
  rcases valid.rest with hnil | hopen
  · simp [hnil, scanFrom]
  · obtain ⟨_, hleft, -⟩ := scanFrom_unclosed hrests hopen
    simp [hleft]

theorem tokens_split {s : Split} (valid : s.Valid) : Literal.tokens s.text = s.tokens :=
  scanFrom_split ⟨rfl, rfl⟩ valid

/-! ### Uniqueness -/

theorem IsLiteral.append {t r : Text} (h : IsLiteral t) (hr : IsLiteral (t ++ r)) : r = [] := by
  obtain ⟨d, v, rfl, hv⟩ := isLiteral_iff.mp h
  obtain ⟨e, w, hw, he⟩ := isLiteral_iff.mp hr
  obtain ⟨hd, rfl⟩ := List.cons.inj hw
  obtain rfl : d = e := by cases d <;> cases e <;> simp_all [Delimiter.char]
  have hmode : d.mode ≠ .outside := by cases d <;> decide
  exact closes_append hmode (balanced_mode d) hv he

theorem IsLiteral.append_inj {t t' r r' : Text} (h : IsLiteral t) (h' : IsLiteral t')
    (heq : t ++ r = t' ++ r') : t = t' ∧ r = r' := by
  rcases List.append_eq_append_iff.mp heq with ⟨u, rfl, rfl⟩ | ⟨u, rfl, rfl⟩
  · obtain rfl := h.append h'
    simp
  · obtain rfl := h'.append h
    simp

def EndsGap (t : Text) : Prop := t = [] ∨ ∃ (d : Delimiter) (w : Text), t = d.char :: w

theorem IsLiteral.endsGap {t : Text} (h : IsLiteral t) (r : Text) : EndsGap (t ++ r) := by
  obtain ⟨d, v, rfl, _⟩ := isLiteral_iff.mp h
  exact .inr ⟨d, v ++ r, rfl⟩

theorem EndsGap.exists_delimiter {t : Text} {c : Char} (h : EndsGap t) (hc : t.head? = some c) :
    ∃ d : Delimiter, c = d.char := by
  rcases h with rfl | ⟨d, w, rfl⟩
  · cases hc
  · exact ⟨d, (Option.some.inj hc).symm⟩

theorem DelimiterFree.append_inj {g g' t t' : Text} (hg : DelimiterFree g) (hg' : DelimiterFree g')
    (ht : EndsGap t) (ht' : EndsGap t') (heq : g ++ t = g' ++ t') : g = g' ∧ t = t' := by
  refine Text.append_inj_of_boundary (P := fun c => ¬∃ d : Delimiter, c = d.char) ?_ ?_
    (fun c hc => not_not_intro (ht.exists_delimiter hc))
    (fun c hc => not_not_intro (ht'.exists_delimiter hc)) heq
  · rintro c hc ⟨d, rfl⟩
    exact hg d hc
  · rintro c hc ⟨d, rfl⟩
    exact hg' d hc

theorem Split.Valid.endsGap {s : Split} (valid : s.Valid) : EndsGap s.rest :=
  valid.rest.imp_right fun h => h.1

theorem Split.Valid.not_append {gap rest : Text} (valid : Split.Valid ⟨[], gap, rest⟩)
    {g t r : Text} (hg : DelimiterFree g) (ht : IsLiteral t) : gap ++ rest ≠ g ++ (t ++ r) := by
  intro heq
  obtain ⟨_, hrest⟩ := valid.gap.append_inj hg valid.endsGap (ht.endsGap r) heq
  rcases valid.rest with hnil | hopen
  · have hnil : t ++ r = [] := hrest.symm.trans hnil
    exact ht.ne_nil (List.append_eq_nil_iff.mp hnil).1
  · exact hopen.2 t ⟨r, hrest.symm⟩ ht

theorem Split.Valid.unique {s s' : Split} (valid : s.Valid) (valid' : s'.Valid)
    (heq : s.text = s'.text) : s = s' := by
  obtain ⟨pieces, gap, rest⟩ := s
  obtain ⟨pieces', gap', rest'⟩ := s'
  induction pieces generalizing pieces' with
  | nil =>
    cases pieces' with
    | nil =>
      have hgap : gap ++ rest = gap' ++ rest' := by simpa [Split.text] using heq
      obtain ⟨rfl, rfl⟩ := valid.gap.append_inj valid'.gap valid.endsGap valid'.endsGap hgap
      rfl
    | cons piece pieces' =>
      obtain ⟨hg, ht⟩ := valid'.pieces _ List.mem_cons_self
      rw [Split.text_cons] at heq
      exact absurd (by simpa [Split.text] using heq) (valid.not_append hg ht)
  | cons piece pieces ih =>
    obtain ⟨hg, ht⟩ := valid.pieces _ List.mem_cons_self
    rw [Split.text_cons] at heq
    cases pieces' with
    | nil => exact absurd (by simpa [Split.text] using heq.symm) (valid'.not_append hg ht)
    | cons piece' pieces' =>
      obtain ⟨hg', ht'⟩ := valid'.pieces _ List.mem_cons_self
      rw [Split.text_cons] at heq
      obtain ⟨hgap, htail⟩ := hg.append_inj hg' (ht.endsGap _) (ht'.endsGap _) heq
      obtain ⟨hlit, htext⟩ := ht.append_inj ht' htail
      have hpiece : piece = piece' := Prod.ext hgap hlit
      cases ih valid.tail pieces' valid'.tail htext
      rw [hpiece]

/-! ### Existence -/

theorem exists_gap (t : Text) : ∃ g r, t = g ++ r ∧ DelimiterFree g ∧ EndsGap r := by
  induction t with
  | nil => exact ⟨[], [], rfl, fun _ => List.not_mem_nil, .inl rfl⟩
  | cons x t ih =>
    by_cases hx : ∃ d : Delimiter, x = d.char
    · obtain ⟨d, rfl⟩ := hx
      exact ⟨[], d.char :: t, rfl, fun _ => List.not_mem_nil, .inr ⟨d, t, rfl⟩⟩
    · obtain ⟨g, r, rfl, hg, hr⟩ := ih
      refine ⟨x :: g, r, rfl, fun d hd => ?_, hr⟩
      rcases List.mem_cons.mp hd with h | h
      · exact hx ⟨d, h.symm⟩
      · exact hg d h

theorem Split.exists_valid (t : Text) : ∃ s : Split, s.text = t ∧ s.Valid := by
  induction hn : t.length using Nat.strongRecOn generalizing t with
  | ind n ih =>
    obtain ⟨g, r, rfl, hg, hr⟩ := exists_gap t
    by_cases hlit : ∃ v, v <+: r ∧ IsLiteral v
    · obtain ⟨v, ⟨w, rfl⟩, hv⟩ := hlit
      have hpos : 0 < v.length := List.length_pos_iff.mpr hv.ne_nil
      obtain ⟨s, rfl, valid⟩ := ih w.length (by simp at hn; omega) w rfl
      refine ⟨⟨(g, v) :: s.pieces, s.gap, s.rest⟩, Split.text_cons _ _ _ _, ?_, valid.gap,
        valid.rest⟩
      intro piece hpiece
      rcases List.mem_cons.mp hpiece with rfl | h
      · exact ⟨hg, hv⟩
      · exact valid.pieces piece h
    · refine ⟨⟨[], g, r⟩, rfl, by simp, hg, ?_⟩
      exact hr.imp_right fun h => ⟨h, fun v hv hl => hlit ⟨v, hv, hl⟩⟩

/-- No literal goes on as another, every text has one valid decomposition, and its tokens are the
literals of that decomposition. -/
theorem literal_decomposition :
    (∀ t r, IsLiteral t → IsLiteral (t ++ r) → r = []) ∧
      ∀ content, ∃ s : Split, s.text = content ∧ s.Valid ∧ Literal.tokens content = s.tokens ∧
        ∀ s' : Split, s'.text = content → s'.Valid → s' = s := by
  refine ⟨fun t r => IsLiteral.append, fun content => ?_⟩
  obtain ⟨s, rfl, valid⟩ := Split.exists_valid content
  exact ⟨s, rfl, valid, tokens_split valid, fun s' heq valid' => valid'.unique valid heq⟩

end DqlScan.Literal
