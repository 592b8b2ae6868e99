import DqlScan.Result.Basic
import DqlScan.Scan.Walk

/-!
# Directory scans

A directory scan reads the files of a walk one by one. A file that is not UTF-8 is left out with a
notice; it has no effect on other files.
-/

namespace DqlScan

/-! ### Languages

The languages whose files a directory scan reads, by the suffixes of their names. The case of a
suffix does not matter.
-/

namespace Language

/-- Suffixes in lower case with their languages. -/
def bySuffix : List (Text × Text) :=
  [(".js", "javascript"), (".jsx", "javascript"), (".mjs", "javascript"), (".cjs", "javascript"),
    (".ts", "typescript"), (".tsx", "typescript"), (".mts", "typescript"), (".cts", "typescript"),
    (".py", "python"), (".java", "java"), (".kt", "kotlin"), (".go", "go"), (".json", "json"),
    (".yaml", "yaml"), (".yml", "yaml")].map fun (suffix, language) =>
      (suffix.toList, language.toList)

def suffixes : List Text := bySuffix.map (·.1)

def ofSuffix (suffix : Text) : Text :=
  (bySuffix.lookup (Text.lower suffix)).getD "unknown".toList

end Language

/-! ### Readings

What reading the text of one file yields.
-/

/-- The queries of a file, and a notice if a literal was left open. -/
structure Reading where
  queries : List Query
  notices : List Notice

def Reading.ofContent (content file : Text) : Reading where
  queries := findQueries content file
  notices := (Literal.unterminated? content).toList.map .unterminated

inductive FileFault where
  | notFound (path : Path)
  | unread (path : Path) (fault : ReadFault)

def FileFault.message : FileFault → Text
  | .notFound path => "File not found: ".toList ++ path.text
  | .unread path fault => fault.message path

/-- Scans the file at a path. Results call it `shown`, or by its path if `shown` is empty. -/
def scanFile (fs : FileSystem) (path : Path) (shown : Text) : Except FileFault Reading :=
  match fs.find? path with
  | .error fault => .error (.unread path (.access fault))
  | .ok none => .error (.notFound path)
  | .ok (some node) =>
    match node.text with
    | .error fault => .error (.unread path fault)
    | .ok content => .ok (.ofContent content (if shown = [] then path.text else shown))

/-! ### Scans -/

inductive Outcome where
  | told (n : Notice)
  | scanned (file language : Text) (reading : Reading)
  | unreadable (file : Text) (fault : Utf8.Fault)

namespace Outcome

def ofVisit : Visit → Outcome
  | .notice n => .told n
  | .file parts content =>
    let file := Path.joined parts
    match Utf8.decode content with
    | .error fault => .unreadable file fault
    | .ok text =>
      let name := parts.getLast?.getD []
      .scanned file (Language.ofSuffix (Path.suffix name)) (.ofContent text file)

def queries : Outcome → List Query
  | .scanned _ _ reading => reading.queries
  | .told _ | .unreadable .. => []

def notices : Outcome → List Notice
  | .told n => [n]
  | .scanned _ _ reading => reading.notices
  | .unreadable file fault => [.unreadFile file fault]

def seen? : Outcome → Option (Text × Text)
  | .scanned file language _ => some (file, language)
  | .told _ | .unreadable .. => none

def unreadable? : Outcome → Option Text
  | .unreadable file _ => some file
  | .told _ | .scanned .. => none

end Outcome

/-- What a scan has done, and the fault that broke it off, if any did. -/
structure DirectoryScan where
  outcomes : List Outcome
  fault : Option Ignore.LoadFault

namespace DirectoryScan

def seen (s : DirectoryScan) : List (Text × Text) := s.outcomes.filterMap (·.seen?)

def notices (s : DirectoryScan) : List Notice := s.outcomes.flatMap (·.notices)

def result (s : DirectoryScan) : ScanResult where
  queries := s.outcomes.flatMap (·.queries)
  filesScanned := s.seen.length
  unreadable := s.outcomes.filterMap (·.unreadable?)

def ofWalk (w : Walk) : DirectoryScan where
  outcomes := w.visits.map .ofVisit
  fault := match w.ending with
    | .ok _ => none
    | .error fault => some fault

end DirectoryScan

/-- Scans the directory at a path for files with the given suffixes, or with those of all known
languages. -/
def scanDirectory (fs : FileSystem) (root : Path) (suffixes : Option (List Text)) :
    DirectoryScan :=
  .ofWalk (.ofRoot fs root ((suffixes.getD Language.suffixes).map Text.lower))

end DqlScan
