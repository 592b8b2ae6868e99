import DqlScan.Proofs.Json.Scalar
import DqlScan.Proofs.Query.Location
import DqlScan.Proofs.Text.Lines
import DqlScan.Report

/-!
# Line reports and line feeds

A report has a line of its own for each query exactly if no literal that is a query holds a line
feed; each line feed in such a literal is one line more (`lines_sourceQueries`).
-/

namespace DqlScan

open Literal

/-! ### The record of a query -/

def Query.record (placed : Bool) (q : Query) : Text := if placed then q.placedLine else q.plainLine

theorem Report.lines_eq (placed : Bool) (r : ScanResult) :
    lines placed r = Text.unlines (r.queries.map (Query.record placed)) := rfl

theorem Text.mem_ofInt {n : Int} {c : Char} (h : c ∈ Text.ofInt n) :
    c = '-' ∨ c.isDigit = true := by
  cases n with
  | ofNat n => exact .inr (Json.isDigit_of_mem_ofNat h)
  | negSucc n =>
    rcases List.mem_cons.mp h with rfl | h
    · exact .inl rfl
    · exact .inr (Json.isDigit_of_mem_ofNat h)

theorem Text.newline_not_mem_ofInt (n : Int) : '\n' ∉ Text.ofInt n := by
  intro h
  exact absurd (mem_ofInt h) (by decide)

namespace Query

/-- Only the text of a query brings line feeds into its record, if its file does not. -/
theorem count_record (placed : Bool) {q : Query} (h : '\n' ∉ q.file) :
    (q.record placed).count '\n' = q.text.count '\n' := by
  have hplace : q.place.count '\n' = 0 := by
    rw [List.count_eq_zero]
    simp [place, h, Text.newline_not_mem_ofInt]
  have hcolon : (": ".toList).count '\n' = 0 := by decide
  have hplain : ("dql-format: ".toList).count '\n' = 0 := by decide
  cases placed with
  | true =>
    show (q.place ++ ": ".toList ++ q.text).count '\n' = _
    rw [List.count_append, List.count_append, hplace, hcolon, Nat.zero_add]
  | false =>
    show ("dql-format: ".toList ++ q.text).count '\n' = _
    rw [List.count_append, hplain, Nat.zero_add]

theorem count_ofToken {content : Text} (file : Text) {token : Token}
    (h : token ∈ tokens content) :
    (ofToken content file token).text.count '\n' = token.text.count '\n' := by
  obtain ⟨d, body, htext⟩ := (isLiteral_of_mem_tokens h).delimited
  have hdelimiter : d.char ≠ '\n' := by cases d <;> decide
  simp [ofToken, htext, unwrap_delimited, hdelimiter]

end Query

/-! ### The queries of sources -/

def sourceQueries (sources : List (Text × Text)) : List Query :=
  sources.flatMap fun source => findQueries source.1 source.2

def sourceTokens (sources : List (Text × Text)) : List Token :=
  sources.flatMap fun source => queryTokens source.1

theorem count_sourceQueries (placed : Bool) {sources : List (Text × Text)}
    (files : ∀ source ∈ sources, '\n' ∉ source.2) :
    ((sourceQueries sources).map (Query.record placed)).map (·.count '\n') =
      (sourceTokens sources).map (·.text.count '\n') := by
  rw [List.map_map, sourceQueries, sourceTokens, List.map_flatMap, List.map_flatMap]
  refine List.flatMap_congr fun source hsource => ?_
  rw [findQueries, List.map_map]
  refine List.map_congr_left fun token htoken => ?_
  exact (Query.count_record placed (files source hsource)).trans
    (Query.count_ofToken source.2 (mem_queryTokens.mp htoken).1)

theorem newline_not_mem_records_iff (placed : Bool) {sources : List (Text × Text)}
    (files : ∀ source ∈ sources, '\n' ∉ source.2) :
    (∀ row ∈ (sourceQueries sources).map (Query.record placed), '\n' ∉ row) ↔
      ∀ token ∈ sourceTokens sources, '\n' ∉ token.text := by
  have hcounts : (∀ n ∈ ((sourceQueries sources).map (Query.record placed)).map (·.count '\n'),
      n = 0) ↔ ∀ n ∈ (sourceTokens sources).map (·.text.count '\n'), n = 0 := by
    rw [count_sourceQueries placed files]
  simpa only [List.forall_mem_map, List.count_eq_zero] using hcounts

/-- The lines of a report are those of the records one by one. They are as many as the queries and
the line feeds in their literals together, and they are the records themselves exactly if there is
no such line feed. -/
theorem lines_sourceQueries (placed : Bool) (sources : List (Text × Text)) (filesScanned : Int)
    (unreadable : List Text) (files : ∀ source ∈ sources, '\n' ∉ source.2) :
    let r : ScanResult := ⟨sourceQueries sources, filesScanned, unreadable⟩
    let printed := Text.lines (Report.lines placed r)
    let feeds := (sourceTokens sources).map (·.text.count '\n')
    printed = r.queries.flatMap (fun q => Text.lines (q.record placed ++ ['\n'])) ∧
      printed.length = r.queries.length + feeds.sum ∧
      (printed = r.queries.map (fun q => q.record placed ++ ['\n']) ↔
        ∀ token ∈ sourceTokens sources, '\n' ∉ token.text) := by
  intro r printed feeds
  refine ⟨?_, ?_, ?_⟩
  · show Text.lines (Report.lines placed r) = _
    rw [Report.lines_eq, Text.lines_unlines, List.flatMap_map]
  · show (Text.lines (Report.lines placed r)).length = _
    rw [Report.lines_eq, Text.length_lines_unlines, List.length_map]
    exact congrArg (r.queries.length + List.sum ·) (count_sourceQueries placed files)
  · rw [← newline_not_mem_records_iff placed files, ← Text.lines_unlines_iff, List.map_map]
    exact Iff.rfl

theorem lines_sourceQueries_single :
    let sources : List (Text × Text) :=
      [("a = 'fetch logs'\nb = 'limit 5'\n".toList, "a.js".toList),
        ("\x60| sort x\x60".toList, "b.ts".toList)]
    let r : ScanResult := ⟨sourceQueries sources, 2, []⟩
    (∀ source ∈ sources, '\n' ∉ source.2) ∧
      (∀ token ∈ sourceTokens sources, '\n' ∉ token.text) ∧
      Text.lines (Report.lines true r) =
        r.queries.map (fun q => q.record true ++ ['\n']) := by
  intro sources r
  have files : ∀ source ∈ sources, '\n' ∉ source.2 := by decide
  have hsingle : ∀ token ∈ sourceTokens sources, '\n' ∉ token.text := by decide
  obtain ⟨-, -, hlines⟩ := lines_sourceQueries true sources 2 [] files
  exact ⟨files, hsingle, hlines.mpr hsingle⟩

/-- A query that goes over two lines is one query on two lines of the report. -/
theorem lines_sourceQueries_template :
    let sources : List (Text × Text) :=
      [("q = \x60fetch logs\n| limit 5\x60;\n".toList, "q.ts".toList)]
    let r : ScanResult := ⟨sourceQueries sources, 1, []⟩
    r.queries.map (·.text) = ["fetch logs\n| limit 5".toList] ∧
      Text.lines (Report.lines false r) =
        ["dql-format: fetch logs\n".toList, "| limit 5\n".toList] ∧
      Text.lines (Report.lines true r) =
        ["q.ts:1:4: fetch logs\n".toList, "| limit 5\n".toList] ∧
      ∀ placed, Text.lines (Report.lines placed r) ≠
        r.queries.map (fun q => q.record placed ++ ['\n']) := by
  decide

end DqlScan
