import DqlScan.Proofs.Literal.Tokens
import DqlScan.Proofs.Text.Position
import DqlScan.Query.Find

/-!
# Locations of queries

The line and column of a query lead back to its literal.
-/

namespace DqlScan

open Literal

theorem unwrap_delimited (d : Delimiter) (body : Text) :
    unwrap (d.char :: (body ++ [d.char])) = body := by
  simp [unwrap, Delimiter.ofChar?_char]

theorem isQuery_delimited (d : Delimiter) (body : Text) :
    isQuery (d.char :: (body ++ [d.char])) = startsQuery body := by
  rw [isQuery, unwrap_delimited]

theorem delimited_slices (before body after : Text) (c : Char) :
    (before ++ c :: (body ++ c :: after))[before.length]? = some c ∧
      ((before ++ c :: (body ++ c :: after)).drop (before.length + 1)).take body.length = body ∧
      (before ++ c :: (body ++ c :: after))[before.length + 1 + body.length]? = some c := by
  refine ⟨by simp, ?_, ?_⟩
  · rw [List.drop_length_add_append]
    simp
  · rw [Nat.add_assoc, List.getElem?_append_right (Nat.le_add_right _ _), Nat.add_sub_cancel_left,
      Nat.add_comm]
    simp

namespace Query

def position (q : Query) : Position := ⟨q.line.toNat, q.column.toNat⟩

def start (content : Text) (q : Query) : Nat := Text.offset content q.position

def stop (content : Text) (q : Query) : Nat := q.start content + q.text.length + 2

/-- The line and column are those of exactly one offset, at which the text of the query stands
between two equal delimiters. -/
structure Located (content : Text) (q : Query) : Prop where
  line : q.line = q.position.line
  column : q.column = q.position.column
  holds : Text.Holds content q.position
  unique : ∀ o ≤ content.length, Text.position content o = q.position ↔ o = q.start content
  delimited : ∃ d : Delimiter, content[q.start content]? = some d.char ∧
    (content.drop (q.start content + 1)).take q.text.length = q.text ∧
    content[q.start content + 1 + q.text.length]? = some d.char

/-! ### The query of a token -/

theorem position_ofToken (content file : Text) (token : Token) :
    (ofToken content file token).position = Text.position content token.offset := by
  simp [position, ofToken]

theorem start_ofToken {content : Text} (file : Text) {token : Token}
    (h : token ∈ tokens content) : (ofToken content file token).start content = token.offset := by
  rw [start, position_ofToken, Text.offset_position (standsIn_of_mem_tokens h).offset_le]

theorem stop_ofToken {content : Text} (file : Text) {token : Token} (h : token ∈ tokens content) :
    (ofToken content file token).stop content = token.stop := by
  obtain ⟨d, body, htext⟩ := (isLiteral_of_mem_tokens h).delimited
  have hbody : (ofToken content file token).text = body := by
    simp only [ofToken, htext, unwrap_delimited]
  rw [stop, start_ofToken file h, hbody, Token.stop, htext]
  simp [Nat.add_assoc]

theorem located_ofToken {content : Text} (file : Text) {token : Token}
    (h : token ∈ tokens content) : (ofToken content file token).Located content := by
  have hstart := start_ofToken file h
  obtain ⟨d, body, htext⟩ := (isLiteral_of_mem_tokens h).delimited
  obtain ⟨before, after, hcontent, hlen⟩ := standsIn_of_mem_tokens h
  have hle := (standsIn_of_mem_tokens h).offset_le
  refine ⟨by simp [position, ofToken], by simp [position, ofToken], ?_, ?_, d, ?_⟩
  · rw [position_ofToken]
    exact Text.holds_position hle
  · intro o ho
    rw [position_ofToken, hstart]
    constructor
    · intro heq
      rw [← Text.offset_position ho, heq, Text.offset_position hle]
    · rintro rfl
      rfl
  · have hslices := delimited_slices before body after d.char
    rw [hstart, ← hlen, hcontent, htext]
    simpa [ofToken, htext, unwrap_delimited] using hslices

theorem before_ofToken {content : Text} (file : Text) {a b : Token} (ha : a ∈ tokens content)
    (hb : b ∈ tokens content) (h : a.stop ≤ b.offset) :
    let q := ofToken content file a
    let r := ofToken content file b
    (q.line < r.line ∨ q.line = r.line ∧ q.column < r.column) ∧
      q.stop content ≤ r.start content := by
  have hpos : 0 < a.text.length := List.length_pos_iff.mpr (isLiteral_of_mem_tokens ha).ne_nil
  have hlt : a.offset < b.offset := by unfold Token.stop at h; omega
  have hle := (standsIn_of_mem_tokens hb).offset_le
  constructor
  · rcases Text.position_before hlt hle with hline | ⟨hline, hcolumn⟩
    · exact .inl (Int.ofNat_lt.mpr hline)
    · exact .inr ⟨congrArg Int.ofNat hline, Int.ofNat_lt.mpr hcolumn⟩
  · rw [stop_ofToken file ha, start_ofToken file hb]
    exact h

end Query

theorem mem_queryTokens {content : Text} {token : Token} :
    token ∈ queryTokens content ↔ token ∈ tokens content ∧ isQuery token.text = true :=
  List.mem_filter

/-- Every query names exactly one offset, where it stands between equal delimiters; queries follow
one another without overlap; the literals left out are no queries; and without their places the
queries are those of `queryTexts`. -/
theorem findQueries_located (content file : Text) :
    (∀ q ∈ findQueries content file, q.file = file ∧ q.Located content) ∧
      (findQueries content file).Pairwise (fun q r =>
        (q.line < r.line ∨ q.line = r.line ∧ q.column < r.column) ∧
          q.stop content ≤ r.start content) ∧
      (∀ token ∈ tokens content, (∀ q ∈ findQueries content file, q.start content ≠ token.offset) →
        isQuery token.text = false) ∧
      (findQueries content file).map (·.text) = queryTexts content := by
  refine ⟨?_, ?_, ?_, ?_⟩
  · intro q hq
    obtain ⟨token, htoken, rfl⟩ := List.mem_map.mp hq
    exact ⟨rfl, Query.located_ofToken file (mem_queryTokens.mp htoken).1⟩
  · have hpairs : (queryTokens content).Pairwise fun a b => a.stop ≤ b.offset :=
      (pairwise_tokens content).filter _
    refine List.pairwise_map.mpr (hpairs.imp_of_mem fun ha hb h => ?_)
    exact Query.before_ofToken file (mem_queryTokens.mp ha).1 (mem_queryTokens.mp hb).1 h
  · intro token htoken hnone
    cases hquery : isQuery token.text with
    | false => rfl
    | true =>
      have hmem : token ∈ queryTokens content := mem_queryTokens.mpr ⟨htoken, hquery⟩
      exact absurd (Query.start_ofToken file htoken) (hnone _ (List.mem_map_of_mem hmem))
  · simp [findQueries, queryTexts, Query.ofToken]

end DqlScan
