import DqlScan.Proofs.Literal.Concatenation
import DqlScan.Proofs.Query.Grammar
import DqlScan.Proofs.Query.Location

/-!
# Texts embedded in a source

Any texts, written as literals between gaps without delimiters, are what the source's literals are
found to hold, and its queries are those of the texts that are queries (`queryTexts_embed`). The
gaps have no part in it.
-/

namespace DqlScan

open Literal

/-- Quotations, each behind a gap, and the gap behind the last. -/
def Literal.embed (parts : List (Text × Quotation)) (last : Text) : Text :=
  parts.flatMap (fun part => part.1 ++ part.2.literal) ++ last

theorem exists_split_embed {parts : List (Text × Quotation)} {last : Text}
    (gaps : ∀ part ∈ parts, DelimiterFree part.1) (hlast : DelimiterFree last) :
    ∃ s : Split, s.text = embed parts last ∧ s.Valid ∧ s.rest = [] ∧
      s.pieces.map (·.2) = (parts.map (·.2)).map (·.literal) := by
  refine ⟨⟨parts.map fun part => (part.1, part.2.literal), last, []⟩, ?_, ⟨?_, hlast, .inl rfl⟩,
    rfl, ?_⟩
  · simp [Split.text, embed, List.flatMap_map]
  · intro piece hpiece
    obtain ⟨part, hpart, rfl⟩ := List.mem_map.mp hpiece
    exact ⟨gaps part hpart, part.2.isLiteral⟩
  · simp

theorem unwrap_literal (q : Quotation) : unwrap q.literal = q.body :=
  unwrap_delimited q.delimiter q.body

theorem isQuery_literal (q : Quotation) : isQuery q.literal = decide (IsQueryBody q.text) := by
  have hquery : isQuery q.literal = startsQuery q.text :=
    (isQuery_delimited q.delimiter q.body).trans (startsQuery_escape q.delimiter q.text)
  rw [hquery]
  exact Bool.eq_iff_iff.mpr (startsQuery_iff.trans decide_eq_true_iff.symm)

theorem queryTexts_eq (content : Text) :
    queryTexts content = (((tokens content).map (·.text)).filter isQuery).map unwrap := by
  unfold queryTexts queryTokens
  rw [List.filter_map, List.map_map]
  rfl

/-- The literals of texts embedded in a source are those that write the texts, none is left open,
they give the texts back, and the queries are the texts that are queries, as they are written. -/
theorem queryTexts_embed (parts : List (Text × Quotation)) (last : Text)
    (gaps : ∀ part ∈ parts, DelimiterFree part.1) (hlast : DelimiterFree last) :
    let content := embed parts last
    let quotations := parts.map (·.2)
    (tokens content).map (·.text) = quotations.map (·.literal) ∧
      unterminated? content = none ∧
      (tokens content).map (fun token => unescape (unwrap token.text)) =
        quotations.map (·.text) ∧
      queryTexts content = (quotations.filter fun q => IsQueryBody q.text).map (·.body) := by
  intro content quotations
  obtain ⟨s, htext, valid, hrest, hpieces⟩ := exists_split_embed gaps hlast
  have htexts : (tokens content).map (·.text) = quotations.map (·.literal) := by
    show (tokens (embed parts last)).map (·.text) = _
    rw [← htext, tokens_split valid, Split.tokens, Split.text_tokensFrom, hpieces]
  have hunescape : ∀ q : Quotation, unescape (unwrap q.literal) = q.text := by
    intro q
    rw [unwrap_literal]
    exact unescape_escape q.delimiter q.text
  refine ⟨htexts, ?_, ?_, ?_⟩
  · show unterminated? (embed parts last) = none
    rw [← htext]
    exact (unterminated?_split valid).mpr hrest
  · have hmap := congrArg (List.map fun t => unescape (unwrap t)) htexts
    simpa [Function.comp_def, hunescape] using hmap
  · rw [queryTexts_eq, htexts, List.filter_map, List.map_map]
    simp only [Function.comp_def, isQuery_literal, unwrap_literal]

/-- All three delimiters, texts that end in a backslash or hold the delimiter, and gaps with a
backslash, braces and line feeds. -/
theorem queryTexts_embed_sample :
    let parts : List (Text × Quotation) :=
      [("f(\\ $\x7b\n".toList, ⟨.backtick, " fetch $\x7b`x\\".toList⟩),
        (",".toList, ⟨.quotationMark, "| filter \"a\"".toList⟩),
        ("\x7d\n".toList, ⟨.apostrophe, "filter".toList⟩)]
    let last : Text := ")\\".toList
    let content := embed parts last
    let quotations := parts.map (·.2)
    (∀ part ∈ parts, DelimiterFree part.1) ∧ DelimiterFree last ∧
      (tokens content).map (·.text) = quotations.map (·.literal) ∧
      unterminated? content = none ∧
      (tokens content).map (fun token => unescape (unwrap token.text)) =
        quotations.map (·.text) ∧
      queryTexts content = (quotations.filter fun q => IsQueryBody q.text).map (·.body) := by
  intro parts last content quotations
  have gaps : ∀ part ∈ parts, DelimiterFree part.1 := by
    intro part hpart d
    revert part
    cases d <;> decide
  have hlast : DelimiterFree last := by
    intro d
    cases d <;> decide
  exact ⟨gaps, hlast, queryTexts_embed parts last gaps hlast⟩

end DqlScan
