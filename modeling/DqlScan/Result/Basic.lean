import DqlScan.Json.Basic
import DqlScan.Query.Find

/-!
# Results

What scans find, and the counts that reports give of it.
-/

namespace DqlScan

structure ScanResult where
  queries : List Query := []
  filesScanned : Int := 0
  unreadable : List Text := []
  deriving DecidableEq

namespace ScanResult

def append (r s : ScanResult) : ScanResult :=
  ⟨r.queries ++ s.queries, r.filesScanned + s.filesScanned, r.unreadable ++ s.unreadable⟩

instance : Append ScanResult := ⟨append⟩

/-- How many different files the queries name. -/
def filesWithQueries (r : ScanResult) : Nat := ((r.queries.map (·.file)).eraseDups).length

theorem append_assoc (r s t : ScanResult) : r ++ s ++ t = r ++ (s ++ t) := by
  show append (append r s) t = append r (append s t)
  simp [append, Int.add_assoc]

theorem empty_append (r : ScanResult) : {} ++ r = r := by
  show append {} r = r
  simp [append]

end ScanResult

/-! ### Results as JSON -/

def Query.json (q : Query) : Json :=
  .record [("command", .str q.text), ("file_path", .str q.file), ("line_number", .int q.line),
    ("column_number", .int q.column)]

def Json.texts (ts : List Text) : Json := .arr (ts.map .str)

def ScanResult.json (r : ScanResult) : Json :=
  .record [("commands", .arr (r.queries.map Query.json)), ("files_scanned", .int r.filesScanned),
    ("unreadable_files", .texts r.unreadable)]

end DqlScan
