import DqlScan.Proofs.Query.Embedding

/-!
# The normal form of a text

The literals of a text that are queries, with a line feed between any two, are a text of which they
are all the literals. It has the same queries and is its own normal form
(`queryTexts_normalForm`).
-/

namespace DqlScan

open Vocabulary Literal

/-- The literals of a text that are queries, with line feeds between them. -/
def normalForm (content : Text) : Text :=
  List.intercalate ['\n'] ((queryTokens content).map (·.text))

/-! ### Literals on lines of their own -/

namespace Literal

theorem delimiterFree_newline : DelimiterFree ['\n'] := by
  intro d
  cases d <;> decide

theorem intercalate_cons (separator first : Text) (later : List Text) :
    List.intercalate separator (first :: later) = first ++ later.flatMap (separator ++ ·) := by
  induction later generalizing first with
  | nil => simp
  | cons second later ih =>
    rw [List.intercalate_cons_cons, ih]
    simp

/-- The line feeds are the gaps, and nothing is left. -/
theorem exists_split_intercalate {literals : List Text} (h : ∀ t ∈ literals, IsLiteral t) :
    ∃ s : Split, s.text = List.intercalate ['\n'] literals ∧ s.Valid ∧ s.rest = [] ∧
      s.pieces.map (·.2) = literals := by
  have hnil : DelimiterFree [] := fun _ => List.not_mem_nil
  cases literals with
  | nil => exact ⟨⟨[], [], []⟩, rfl, ⟨by simp, hnil, .inl rfl⟩, rfl, rfl⟩
  | cons first later =>
    refine ⟨⟨([], first) :: later.map (['\n'], ·), [], []⟩, ?_, ⟨?_, hnil, .inl rfl⟩, rfl, ?_⟩
    · rw [intercalate_cons]
      simp [Split.text, List.flatMap_map]
    · intro piece hpiece
      rcases List.mem_cons.mp hpiece with rfl | hlater
      · exact ⟨hnil, h first List.mem_cons_self⟩
      · obtain ⟨t, ht, rfl⟩ := List.mem_map.mp hlater
        exact ⟨delimiterFree_newline, h t (List.mem_cons_of_mem _ ht)⟩
    · simp [Function.comp_def]

/-- Literals with line feeds between them keep apart, whatever they hold. -/
theorem tokens_intercalate {literals : List Text} (h : ∀ t ∈ literals, IsLiteral t) :
    (tokens (List.intercalate ['\n'] literals)).map (·.text) = literals ∧
      unterminated? (List.intercalate ['\n'] literals) = none := by
  obtain ⟨s, htext, valid, hrest, hpieces⟩ := exists_split_intercalate h
  rw [← htext]
  refine ⟨?_, (unterminated?_split valid).mpr hrest⟩
  rw [tokens_split valid, Split.tokens, Split.text_tokensFrom, hpieces]

end Literal

/-! ### Queries without delimiters -/

theorem startsQuery_delimiter (d : Delimiter) (t : Text) : startsQuery (d.char :: t) = false := by
  have hblank : d.char ∉ blanks := by cases d <;> decide
  have hpipe : d.char ≠ pipe := by cases d <;> decide
  have hletter : d.char.isAlpha = false := by cases d <;> decide
  rw [← Bool.not_eq_true, startsQuery_cons (trimBlanks_cons hblank t), if_neg hpipe]
  intro h
  obtain ⟨c, rest, heq, hc⟩ := h.exists_cons (by decide)
  rw [← (List.cons.inj heq).1, hletter] at hc
  cases hc

/-- A query starts with no delimiter, so that nothing is taken off it a second time. -/
theorem unwrap_of_startsQuery {body : Text} (h : startsQuery body = true) : unwrap body = body := by
  cases body with
  | nil => rfl
  | cons c t =>
    rw [unwrap, if_neg]
    rintro ⟨-, hdelimiter⟩
    obtain ⟨d, hd⟩ := Option.isSome_iff_exists.mp hdelimiter
    obtain rfl := Delimiter.ofChar?_eq_some_iff.mp hd
    rw [startsQuery_delimiter] at h
    cases h

theorem isQuery_of_mem_queryTexts {content body : Text} (h : body ∈ queryTexts content) :
    unwrap body = body ∧ isQuery body = true := by
  obtain ⟨token, htoken, rfl⟩ := List.mem_map.mp h
  have hquery : startsQuery (unwrap token.text) = true := (mem_queryTokens.mp htoken).2
  have hbody := unwrap_of_startsQuery hquery
  refine ⟨hbody, ?_⟩
  rw [isQuery, hbody]
  exact hquery

/-! ### The normal form -/

theorem text_queryTokens (content : Text) :
    (queryTokens content).map (·.text) = ((tokens content).map (·.text)).filter isQuery := by
  unfold queryTokens
  rw [List.filter_map]
  rfl

/-- The literals of the normal form are the literals that are queries, no literal is left open in
it, its queries are those of the text, it is its own normal form, and every query is one also
without its delimiters. -/
theorem queryTexts_normalForm (content : Text) :
    (tokens (normalForm content)).map (·.text) = (queryTokens content).map (·.text) ∧
      unterminated? (normalForm content) = none ∧
      queryTexts (normalForm content) = queryTexts content ∧
      normalForm (normalForm content) = normalForm content ∧
      ∀ body ∈ queryTexts content, unwrap body = body ∧ isQuery body = true := by
  have hliterals : ∀ t ∈ (queryTokens content).map (·.text), IsLiteral t := by
    intro t ht
    obtain ⟨token, htoken, rfl⟩ := List.mem_map.mp ht
    exact isLiteral_of_mem_tokens (mem_queryTokens.mp htoken).1
  obtain ⟨htexts, hclosed⟩ := tokens_intercalate hliterals
  -- All literals of the normal form pass the filter that its literals have passed before.
  have hqueries : (queryTokens (normalForm content)).map (·.text) =
      (queryTokens content).map (·.text) := by
    rw [text_queryTokens, normalForm, htexts, text_queryTokens, List.filter_filter]
    simp
  refine ⟨htexts, hclosed, ?_, ?_, fun body => isQuery_of_mem_queryTexts⟩
  · have hbodies := congrArg (List.map unwrap) hqueries
    simpa only [queryTexts, List.map_map, Function.comp_def] using hbodies
  · rw [normalForm, hqueries]
    rfl

end DqlScan
