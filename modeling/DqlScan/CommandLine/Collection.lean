import DqlScan.Ignore.PathFilter
import DqlScan.Scan.Directory

/-!
# Collections

What the paths of a command line yield together: directories are walked and files are read, one
path after another, until one of them cannot be.

The lines for the error stream are given as they are handed over. What its console makes of tabs,
control characters, backslashes and words between colons is left out. Notices are written to the same
stream; they are kept apart here, so where they stand among the lines is left out too.
-/

namespace DqlScan.CommandLine

inductive PathFault where
  | notFound
  | unreadable
  | access (path : Path) (fault : AccessFault)
  | rules (fault : Ignore.LoadFault)

/-- What was found, what was written to the error stream, and the notices on the way. -/
structure Collection where
  result : ScanResult := {}
  errors : Text := []
  notices : List Notice := []

namespace Collection

def append (c d : Collection) : Collection :=
  ⟨c.result ++ d.result, c.errors ++ d.errors, c.notices ++ d.notices⟩

instance : Append Collection := ⟨append⟩

def progressLine (file language : Text) : Text :=
  "  (".toList ++ language ++ ") ".toList ++ file

/-- Scans a directory; `verbose` asks for a line on each file. -/
def ofDirectory (fs : FileSystem) (verbose : Bool) (path : Path) : Collection × Option PathFault :=
  let scan := scanDirectory fs path none
  let progress := scan.seen.map fun (file, language) => progressLine file language
  ({ result := scan.result, errors := if verbose then Text.unlines progress else [],
     notices := scan.notices },
    scan.fault.map .rules)

def ofFile (fs : FileSystem) (path : Path) : Collection × Option PathFault :=
  match scanFile fs path path.text with
  | .error fault =>
    let line := "Error reading file ".toList ++ path.text ++ ": ".toList ++ fault.message
    ({ errors := Text.unlines [line] }, some .unreadable)
  | .ok reading =>
    ({ result := ⟨reading.queries, 1, []⟩, notices := reading.notices }, none)

def ofPath (fs : FileSystem) (verbose : Bool) (path : Path) : Collection × Option PathFault :=
  match fs.find? path with
  | .error fault => ({}, some (.access path fault))
  | .ok none => ({ errors := Text.unlines [(FileFault.notFound path).message] }, some .notFound)
  | .ok (some (.directory _)) => ofDirectory fs verbose path
  | .ok (some (.file _)) => ofFile fs path

/-- Scans paths in order, up to the first that cannot be scanned. -/
def ofPaths (fs : FileSystem) (verbose : Bool) : List Path → Collection × Option PathFault
  | [] => ({}, none)
  | path :: paths =>
    match ofPath fs verbose path with
    | (here, some fault) => (here, some fault)
    | (here, none) =>
      let later := ofPaths fs verbose paths
      (here ++ later.1, later.2)

end Collection

end DqlScan.CommandLine
