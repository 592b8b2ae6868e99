import DqlScan.Proofs.Literal.Tokens

/-!
# Tokens of texts side by side

Behind a text that leaves no literal open, a text has the tokens that it has on its own, so much
further on (`tokens_append`). Behind any text, what follows adds tokens and changes none
(`exists_tokens_append`).
-/

namespace DqlScan.Literal

def Token.shift (n : Nat) (token : Token) : Token := { token with offset := token.offset + n }

namespace Split

theorem tokensFrom_add (offset n : Nat) (pieces : List (Text × Text)) :
    tokensFrom (offset + n) pieces = (tokensFrom offset pieces).map (·.shift n) := by
  induction pieces generalizing offset with
  | nil => rfl
  | cons piece pieces ih =>
    have hgap : offset + n + piece.1.length = offset + piece.1.length + n := by omega
    have hlater : offset + n + piece.1.length + piece.2.length =
        offset + piece.1.length + piece.2.length + n := by omega
    simp only [tokensFrom, List.map_cons]
    rw [hlater, ih, hgap]
    rfl

theorem text_tokensFrom (offset : Nat) (pieces : List (Text × Text)) :
    (tokensFrom offset pieces).map (·.text) = pieces.map (·.2) := by
  induction pieces generalizing offset with
  | nil => rfl
  | cons piece pieces ih => exact congrArg (piece.2 :: ·) (ih _)

end Split

theorem scanFrom_rests {c : Cursor} (rests : c.Rests) (t : Text) :
    (scanFrom c 0 t).1 = (tokens t).map (·.shift c.offset) := by
  obtain ⟨s, rfl, valid⟩ := Split.exists_valid t
  have hoffset := Split.tokensFrom_add 0 c.offset s.pieces
  rw [Nat.zero_add] at hoffset
  rw [scanFrom_split rests valid, hoffset, tokens_split valid]
  rfl

/-- A scan ends between two literals exactly if nothing is left of its text. -/
theorem unterminated?_split {s : Split} (valid : s.Valid) :
    unterminated? s.text = none ↔ s.rest = [] := by
  obtain ⟨c, rests, -, hrun⟩ := scanFrom_closed (c := {}) ⟨rfl, rfl⟩ valid.closed s.rest
  rw [unterminated?, scan, s.text_closed, hrun]
  rcases valid.rest with hnil | hopen
  · have houtside : c.unterminated? = none := by
      rw [Cursor.unterminated?, rests.1]
      rfl
    simp [hnil, scanFrom, houtside]
  · obtain ⟨c', hleft, inside, -⟩ := scanFrom_unclosed rests hopen
    have hne : s.rest ≠ [] := by
      obtain ⟨⟨d, w, h⟩, -⟩ := hopen
      simp [h]
    simp [hleft, hne, Cursor.unterminated?, inside]

/-- Behind the literals of a decomposition a text has the tokens of what is left of it. -/
theorem tokens_split_append {s : Split} (valid : s.Valid) (t : Text) :
    tokens (s.text ++ t) =
      tokens s.text ++ (tokens (s.rest ++ t)).map (·.shift s.closed.text.length) := by
  obtain ⟨c, rests, hoffset, hrun⟩ :=
    scanFrom_closed (c := {}) ⟨rfl, rfl⟩ valid.closed (s.rest ++ t)
  rw [← List.append_assoc, ← s.text_closed] at hrun
  rw [tokens, scan, hrun, scanFrom_rests rests, hoffset, tokens_split valid, Nat.zero_add]
  rfl

theorem tokens_append {s : Text} (h : unterminated? s = none) (t : Text) :
    tokens (s ++ t) = tokens s ++ (tokens t).map (·.shift s.length) := by
  obtain ⟨split, rfl, valid⟩ := Split.exists_valid s
  have hrest := (unterminated?_split valid).mp h
  have hclosed : split.closed.text = split.text := by
    rw [split.text_closed, hrest, List.append_nil]
  rw [tokens_split_append valid, hrest, hclosed, List.nil_append]

/-! ### Texts that leave a literal open -/

/-- In a text that opens a literal, no token ends before some literal at its start does. -/
theorem exists_literal_of_mem_tokens {d : Delimiter} {w : Text} {token : Token}
    (h : token ∈ tokens (d.char :: w)) :
    ∃ v, v <+: d.char :: w ∧ IsLiteral v ∧ v.length ≤ token.stop := by
  obtain ⟨⟨pieces, gap, rest⟩, hsplit, valid⟩ := Split.exists_valid (d.char :: w)
  rw [← hsplit, tokens_split valid] at h
  cases pieces with
  | nil => exact absurd h List.not_mem_nil
  | cons piece pieces =>
    obtain ⟨g, v⟩ := piece
    obtain ⟨hg, hv⟩ := valid.pieces _ List.mem_cons_self
    rw [Split.text_cons] at hsplit
    obtain rfl : g = [] := by
      cases g with
      | nil => rfl
      | cons c g =>
        obtain ⟨rfl, -⟩ := List.cons.inj hsplit
        exact absurd List.mem_cons_self (hg d)
    refine ⟨v, ⟨_, hsplit⟩, hv, ?_⟩
    rcases List.mem_cons.mp h with rfl | hlater
    · exact Nat.le_add_left _ _
    · have hoffset := Split.offset_le_of_mem_tokensFrom hlater
      simp only [List.length_nil] at hoffset
      unfold Token.stop
      omega

/-- What is left of a decomposition holds no token, whatever is put behind it. -/
theorem Split.Valid.rest_lt_stop {s : Split} (valid : s.Valid) {t : Text} {token : Token}
    (h : token ∈ Literal.tokens (s.rest ++ t)) : s.rest.length < token.stop := by
  rcases valid.rest with hnil | ⟨⟨d, w, hrest⟩, hunclosed⟩
  · have hpos := List.length_pos_iff.mpr (isLiteral_of_mem_tokens h).ne_nil
    rw [hnil, Token.stop, List.length_nil]
    omega
  · have hopens := h
    rw [hrest, List.cons_append] at hopens
    obtain ⟨v, hprefix, hv, hstop⟩ := exists_literal_of_mem_tokens hopens
    rw [← List.cons_append, ← hrest] at hprefix
    -- A literal that is no longer than what is left would be a first part of it.
    refine Nat.lt_of_not_le fun hle => ?_
    have hshort : v.length ≤ s.rest.length := by omega
    exact hunclosed v (List.prefix_of_prefix_length_le hprefix (List.prefix_append _ t) hshort) hv

/-- A text has its tokens in every text that it starts, and the others end behind it. -/
theorem exists_tokens_append (s t : Text) :
    ∃ later, tokens (s ++ t) = tokens s ++ later ∧ ∀ token ∈ later, s.length < token.stop := by
  obtain ⟨split, rfl, valid⟩ := Split.exists_valid s
  refine ⟨_, tokens_split_append valid t, fun token htoken => ?_⟩
  obtain ⟨first, hfirst, rfl⟩ := List.mem_map.mp htoken
  have hlt := valid.rest_lt_stop hfirst
  rw [split.text_closed, List.length_append]
  show _ < first.offset + split.closed.text.length + first.text.length
  unfold Token.stop at hlt
  omega

end DqlScan.Literal
