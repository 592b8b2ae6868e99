import DqlScan.Proofs.Literal.Decomposition

/-!
# Tokens as parts of their text

A token stands between two equal delimiters, at its offset in the text, and behind the tokens
before it.
-/

namespace DqlScan.Literal

def Token.StandsIn (token : Token) (content : Text) : Prop :=
  ∃ before after, content = before ++ token.text ++ after ∧ before.length = token.offset

def Token.stop (token : Token) : Nat := token.offset + token.text.length

theorem Token.StandsIn.offset_le {token : Token} {content : Text} (h : token.StandsIn content) :
    token.offset ≤ content.length := by
  obtain ⟨before, after, rfl, hlen⟩ := h
  simp [← hlen]

theorem IsLiteral.delimited {t : Text} (h : IsLiteral t) :
    ∃ (d : Delimiter) (body : Text), t = d.char :: (body ++ [d.char]) := by
  cases h with
  | quoted _ _ => exact ⟨_, _, rfl⟩
  | template _ => exact ⟨.backtick, _, rfl⟩

namespace Split

theorem offset_le_of_mem_tokensFrom {n : Nat} {pieces : List (Text × Text)} {token : Token}
    (h : token ∈ tokensFrom n pieces) : n ≤ token.offset := by
  induction pieces generalizing n with
  | nil => exact absurd h List.not_mem_nil
  | cons piece pieces ih =>
    rcases List.mem_cons.mp h with rfl | h
    · exact Nat.le_add_right _ _
    · have := ih h
      omega

theorem pairwise_tokensFrom (n : Nat) (pieces : List (Text × Text)) :
    (tokensFrom n pieces).Pairwise fun a b => a.stop ≤ b.offset := by
  induction pieces generalizing n with
  | nil => exact .nil
  | cons piece pieces ih =>
    exact .cons (fun token h => offset_le_of_mem_tokensFrom h) (ih _)

theorem standsIn_of_mem_tokensFrom (before : Text) {pieces : List (Text × Text)} {gap rest : Text}
    {token : Token} (h : token ∈ tokensFrom before.length pieces) :
    token.StandsIn (before ++ text ⟨pieces, gap, rest⟩) := by
  induction pieces generalizing before with
  | nil => exact absurd h List.not_mem_nil
  | cons piece pieces ih =>
    rw [text_cons]
    rcases List.mem_cons.mp h with rfl | h
    · exact ⟨before ++ piece.1, text ⟨pieces, gap, rest⟩, by simp, by simp⟩
    · have hlater := ih (before ++ piece.1 ++ piece.2) (by simpa [Nat.add_assoc] using h)
      simpa using hlater

theorem mem_pieces_of_mem_tokensFrom {n : Nat} {pieces : List (Text × Text)} {token : Token}
    (h : token ∈ tokensFrom n pieces) : ∃ piece ∈ pieces, token.text = piece.2 := by
  induction pieces generalizing n with
  | nil => exact absurd h List.not_mem_nil
  | cons piece pieces ih =>
    rcases List.mem_cons.mp h with rfl | h
    · exact ⟨piece, List.mem_cons_self, rfl⟩
    · obtain ⟨other, hmem, htext⟩ := ih h
      exact ⟨other, List.mem_cons_of_mem _ hmem, htext⟩

end Split

theorem isLiteral_of_mem_tokens {content : Text} {token : Token} (h : token ∈ tokens content) :
    IsLiteral token.text := by
  obtain ⟨s, rfl, valid⟩ := Split.exists_valid content
  rw [tokens_split valid] at h
  obtain ⟨piece, hmem, htext⟩ := Split.mem_pieces_of_mem_tokensFrom h
  rw [htext]
  exact (valid.pieces piece hmem).2

theorem standsIn_of_mem_tokens {content : Text} {token : Token} (h : token ∈ tokens content) :
    token.StandsIn content := by
  obtain ⟨s, rfl, valid⟩ := Split.exists_valid content
  rw [tokens_split valid] at h
  exact Split.standsIn_of_mem_tokensFrom [] h

theorem pairwise_tokens (content : Text) :
    (tokens content).Pairwise fun a b => a.stop ≤ b.offset := by
  obtain ⟨s, rfl, valid⟩ := Split.exists_valid content
  rw [tokens_split valid]
  exact Split.pairwise_tokensFrom 0 s.pieces

end DqlScan.Literal
