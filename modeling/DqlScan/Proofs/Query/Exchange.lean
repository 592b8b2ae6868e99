import DqlScan.Proofs.Literal.Exchange
import DqlScan.Proofs.Text.Position
import DqlScan.Scan.Directory

/-!
# Queries in exchanged quotation marks

A text whose quotation marks change places is read as before, with the marks exchanged in its tokens
and queries (`Reading.ofContent_swapQuotes`). No place changes, and no query is found or lost.
-/

namespace DqlScan

open Vocabulary Literal

/-! ### Classification -/

theorem swapQuote_mem_blanks (c : Char) : swapQuote c ∈ blanks ↔ c ∈ blanks :=
  swapQuote_iff (P := (· ∈ blanks)) (by decide) c

theorem swapQuote_eq_pipe (c : Char) : swapQuote c = pipe ↔ c = pipe :=
  swapQuote_iff (P := (· = pipe)) (by decide) c

theorem trimBlanks_swapQuotes (t : Text) : trimBlanks (swapQuotes t) = swapQuotes (trimBlanks t) := by
  unfold trimBlanks swapQuotes
  rw [List.dropWhile_map]
  simp only [Function.comp_def, swapQuote_mem_blanks]

/-- The letters at the start of a text are no quotation marks. -/
theorem leadingWord_swapQuotes (t : Text) : leadingWord (swapQuotes t) = leadingWord t := by
  unfold leadingWord
  induction t with
  | nil => rfl
  | cons c t ih =>
    rw [swapQuotes_cons]
    rcases swapQuote_cases c with ⟨rfl, h⟩ | ⟨rfl, h⟩ | ⟨-, -, h⟩ <;> rw [h]
    · rfl
    · rfl
    · rw [List.takeWhile_cons, List.takeWhile_cons, ih]

theorem startsQuery_swapQuotes (body : Text) : startsQuery (swapQuotes body) = startsQuery body := by
  unfold startsQuery
  rw [trimBlanks_swapQuotes]
  cases trimBlanks body with
  | nil => rfl
  | cons c rest =>
    have hword := leadingWord_swapQuotes (c :: rest)
    rw [swapQuotes_cons] at hword ⊢
    simp only [swapQuote_eq_pipe, hword, trimBlanks_swapQuotes, leadingWord_swapQuotes]

theorem unwrap_swapQuotes (raw : Text) : unwrap (swapQuotes raw) = swapQuotes (unwrap raw) := by
  cases raw with
  | nil => rfl
  | cons c rest =>
    have hlast : (swapQuotes rest).getLast? = some (swapQuote c) ↔ rest.getLast? = some c := by
      rw [swapQuotes, List.getLast?_map, ← Option.map_some,
        (Option.map_injective swapQuote_injective).eq_iff]
    have hdelimiter : (Delimiter.ofChar? (swapQuote c)).isSome = (Delimiter.ofChar? c).isSome := by
      rw [Delimiter.ofChar?_swapQuote, Option.isSome_map]
    simp only [swapQuotes_cons, unwrap, hlast, hdelimiter]
    split
    · exact List.map_dropLast.symm
    · rfl

theorem isQuery_swapQuotes (raw : Text) : isQuery (swapQuotes raw) = isQuery raw := by
  rw [isQuery, unwrap_swapQuotes, startsQuery_swapQuotes, isQuery]

/-! ### Places -/

theorem swapQuote_eq_newline (c : Char) : swapQuote c = '\n' ↔ c = '\n' :=
  swapQuote_iff (P := (· = '\n')) (by decide) c

theorem Text.position_swapQuotes (t : Text) (offset : Nat) :
    position (swapQuotes t) offset = position t offset :=
  position_map swapQuote_eq_newline t offset

/-! ### Queries -/

def Query.swap (q : Query) : Query := { q with text := swapQuotes q.text }

/-- An open literal is told of with its mode exchanged, all else as it is. -/
def Notice.swap : Notice → Notice
  | .unterminated literal => .unterminated literal.swap
  | notice => notice

theorem queryTokens_swapQuotes (content : Text) :
    queryTokens (swapQuotes content) = (queryTokens content).map Token.swap := by
  unfold queryTokens
  rw [tokens_swapQuotes, List.filter_map]
  simp only [Function.comp_def, Token.swap, isQuery_swapQuotes]

theorem findQueries_swapQuotes (content file : Text) :
    findQueries (swapQuotes content) file = (findQueries content file).map Query.swap := by
  unfold findQueries
  rw [queryTokens_swapQuotes, List.map_map, List.map_map]
  refine List.map_congr_left fun token _ => ?_
  simp only [Function.comp_def, Query.ofToken, Query.swap, Token.swap, Text.position_swapQuotes,
    unwrap_swapQuotes]

theorem Reading.notices_swapQuotes (content file : Text) :
    (ofContent (swapQuotes content) file).notices =
      (ofContent content file).notices.map Notice.swap := by
  unfold ofContent
  rw [unterminated?_swapQuotes]
  cases unterminated? content <;> rfl

/-- With the quotation marks exchanged, a text has the tokens that it had, at their offsets and with
the marks exchanged in them, its queries are those that it had, at their places, and a literal that it
leaves open is told of as before, but for the kind of the quotation mark. -/
theorem Reading.ofContent_swapQuotes (content file : Text) :
    tokens (swapQuotes content) = (tokens content).map Token.swap ∧
      (ofContent (swapQuotes content) file).queries =
        (ofContent content file).queries.map Query.swap ∧
      (ofContent (swapQuotes content) file).notices =
        (ofContent content file).notices.map Notice.swap :=
  ⟨tokens_swapQuotes content, findQueries_swapQuotes content file, notices_swapQuotes content file⟩

example :
    let content : Text := "a = \"fetch 'x'\"; b = 'it".toList
    swapQuotes content = "a = 'fetch \"x\"'; b = \"it".toList ∧
      findQueries (swapQuotes content) [] = [⟨"fetch \"x\"".toList, [], 1, 4⟩] ∧
      unterminated? (swapQuotes content) = some ⟨21, ⟨.double, 0⟩⟩ := by
  decide

end DqlScan
