import DqlScan.Proofs.Literal.Concatenation
import DqlScan.Proofs.Query.Location

/-!
# Queries of texts side by side

Behind a text that leaves no literal open, a text has the queries that it has on its own
(`findQueries_append`). Their lines are counted on, and on the first of them so are the columns.
Behind any text, what follows adds queries and changes none (`findQueries_prefix`).
-/

namespace DqlScan

open Literal

/-- The query as it is placed behind another text: all lines count on from those of the text, and
the columns of the first line from its last line. -/
def Query.shift (before : Text) (q : Query) : Query :=
  { q with
    line := q.line + before.count '\n'
    column := if q.line = 1 then q.column + (Text.lastLine before).length else q.column }

namespace Query

theorem ofToken_append {s : Text} {token : Token} (h : token ∈ tokens s) (t file : Text) :
    ofToken (s ++ t) file token = ofToken s file token := by
  have hle := (standsIn_of_mem_tokens h).offset_le
  have hplace : Text.position (s ++ t) token.offset = Text.position s token.offset := by
    unfold Text.position
    rw [List.take_append_of_le_length hle]
  unfold ofToken
  rw [hplace]

theorem ofToken_shift (s t file : Text) (token : Token) :
    ofToken (s ++ t) file (token.shift s.length) = (ofToken t file token).shift s := by
  have hplace : Text.position (s ++ t) (token.shift s.length).offset =
      ⟨(Text.position t token.offset).line + s.count '\n', (Text.position t token.offset).column +
        if (Text.position t token.offset).line = 1 then (Text.lastLine s).length else 0⟩ := by
    rw [← Text.position_append, Nat.add_comm]
    rfl
  have hfirst : (((Text.position t token.offset).line : Nat) : Int) = 1 ↔
      (Text.position t token.offset).line = 1 := by omega
  unfold ofToken shift
  rw [hplace]
  simp only [hfirst, Token.shift]
  split <;> simp

end Query

theorem queryTokens_append {s : Text} (h : unterminated? s = none) (t : Text) :
    queryTokens (s ++ t) = queryTokens s ++ (queryTokens t).map (·.shift s.length) := by
  unfold queryTokens
  rw [tokens_append h, List.filter_append, List.filter_map]
  rfl

/-- The queries of a text keep their places where the text goes on. -/
theorem map_ofToken_append (s t file : Text) :
    (queryTokens s).map (Query.ofToken (s ++ t) file) = findQueries s file :=
  List.map_congr_left fun _ htoken => Query.ofToken_append (mem_queryTokens.mp htoken).1 t file

theorem findQueries_append (s t file : Text) (h : unterminated? s = none) :
    tokens (s ++ t) = tokens s ++ (tokens t).map (·.shift s.length) ∧
      findQueries (s ++ t) file = findQueries s file ++ (findQueries t file).map (·.shift s) := by
  have hsecond : (queryTokens t).map (fun token => Query.ofToken (s ++ t) file
      (token.shift s.length)) = (findQueries t file).map (·.shift s) := by
    rw [findQueries, List.map_map]
    exact List.map_congr_left fun token _ => Query.ofToken_shift s t file token
  refine ⟨tokens_append h t, ?_⟩
  rw [findQueries, queryTokens_append h, List.map_append, map_ofToken_append, List.map_map]
  exact congrArg (findQueries s file ++ ·) hsecond

/-- The cut is between a dollar sign and a brace, and the line on which it is goes on. -/
theorem findQueries_append_sample :
    let s : Text := "a = 'fetch logs'\nb $".toList
    let t : Text := "\x7b 'load x' \x7d\n`| sort y`".toList
    let file : Text := "f.js".toList
    unterminated? s = none ∧
      tokens (s ++ t) = tokens s ++ (tokens t).map (·.shift s.length) ∧
      findQueries (s ++ t) file = findQueries s file ++ (findQueries t file).map (·.shift s) := by
  intro s t file
  have h : unterminated? s = none := by decide
  exact ⟨h, findQueries_append s t file h⟩

/-- Wherever a text is cut, the tokens and queries of its first part are the first ones of the whole
text, at the same places, and all others end behind the cut. -/
theorem findQueries_prefix (s t file : Text) :
    tokens s <+: tokens (s ++ t) ∧ findQueries s file <+: findQueries (s ++ t) file ∧
      (∀ token ∈ tokens (s ++ t), token ∈ tokens s ∨ s.length < token.stop) ∧
      ∀ q ∈ findQueries (s ++ t) file, q ∈ findQueries s file ∨ s.length < q.stop (s ++ t) := by
  obtain ⟨later, htokens, hlater⟩ := exists_tokens_append s t
  have hqueries : findQueries (s ++ t) file =
      findQueries s file ++ (later.filter (isQuery ·.text)).map (Query.ofToken (s ++ t) file) := by
    rw [findQueries, queryTokens, htokens, List.filter_append, List.map_append]
    exact congrArg (· ++ _) (map_ofToken_append s t file)
  refine ⟨⟨later, htokens.symm⟩, ⟨_, hqueries.symm⟩, fun token htoken => ?_, fun q hq => ?_⟩
  · rw [htokens, List.mem_append] at htoken
    exact htoken.imp_right (hlater token)
  · rw [hqueries, List.mem_append] at hq
    refine hq.imp_right fun hq => ?_
    obtain ⟨token, htoken, rfl⟩ := List.mem_map.mp hq
    have hmem : token ∈ later := (List.mem_filter.mp htoken).1
    rw [Query.stop_ofToken file (htokens ▸ List.mem_append_right _ hmem)]
    exact hlater token hmem

end DqlScan
