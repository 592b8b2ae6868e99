import DqlScan.CommandLine.Arguments
import DqlScan.CommandLine.Collection
import DqlScan.Report

/-!
# Runs

A run reads its arguments, collects what the paths yield, and reports it. Nothing is reported
before everything is collected, so a run that fails reports nothing. The page of help is the
argument parser's own, and a run is given it.
-/

namespace DqlScan.CommandLine

def versionText : Text := "dql-format v0.1.0".toList

def usageText : Text := "Usage: dql-format <filename>".toList

inductive ReportFormat where
  | text
  | console
  | json
  deriving DecidableEq

def ReportFormat.ofName? (name : Text) : Option ReportFormat :=
  [("text".toList, text), ("rich".toList, console), ("json".toList, json)].lookup name

/-- How a run ends: with an exit code, or by a mistake in the arguments, a path that cannot be
looked up, or a rule file that cannot be used. -/
inductive Ending where
  | exit (code : Nat)
  | usage (fault : UsageFault)
  | access (path : Path) (fault : AccessFault)
  | rules (fault : Ignore.LoadFault)

def PathFault.ending : PathFault → Ending
  | .notFound => .exit 2
  | .unreadable => .exit 3
  | .access path fault => .access path fault
  | .rules fault => .rules fault

/-- What a run has written, what it has given to a console, and the notices that are shown. The
ending supposes that the console can draw what it is given. -/
structure Run where
  ending : Ending
  output : Text := []
  errors : Text := []
  blocks : List (Report.Block Report.Cell) := []
  notices : List Notice := []

namespace Run

def console (run : Run) : List Report.Block := Report.sources run.blocks

def DrawnBy (run : Run) (c : Report.Console) : Prop := (c.draw run.blocks).isSome = true

/-- How a run ends at a console. A console that cannot draw what it is given breaks off the run. -/
def endsAt (run : Run) (c : Report.Console) : Option Ending :=
  (c.draw run.blocks).map fun _ => run.ending

def failed (code : Nat) (line : Text) : Run :=
  { ending := .exit code, errors := Text.unlines [line] }

def answered (text : Text) : Run := { ending := .exit 0, output := text }

/-- The notices that a run shows: all of them if it is verbose, else those that warn. -/
def shown (verbose : Bool) (notices : List Notice) : List Notice :=
  notices.filter fun n => verbose || n.level = .warning

def totalLine (r : ScanResult) : Text :=
  "Scanned ".toList ++ Text.ofInt r.filesScanned ++ " files, found ".toList ++
    Text.ofNat r.queries.length ++ " DQL commands".toList

def target (paths : List Path) : Text := List.intercalate ", ".toList (paths.map Path.text)

def scan (fs : FileSystem) (o : Options) (format : ReportFormat) (paths : List Path) : Run :=
  match Collection.ofPaths fs o.verbose paths with
  | (found, some fault) =>
    { ending := fault.ending, errors := found.errors, notices := shown o.verbose found.notices }
  | (found, none) =>
    let result := found.result
    let total := if o.verbose then Text.unlines [totalLine result] else []
    { ending := .exit 0
      output := match format with
        | .text => Report.lines o.ide result
        | .console => []
        | .json => Report.jsonText result (target paths)
      errors := found.errors ++ total
      blocks := match format with
        | .console => Report.blocks result (target paths)
        | .text | .json => []
      notices := shown o.verbose found.notices }

/-- The run of options that were read; `page` is the page of help. -/
def ofOptions (fs : FileSystem) (o : Options) (page : Text := []) : Run :=
  if o.help then answered page
  else if o.version then answered (Text.unlines [versionText])
  else
    match o.paths, ReportFormat.ofName? o.format with
    | [], _ => failed 1 usageText
    | _, none => failed 1 ("Error: Unknown format: ".toList ++ o.format)
    | paths, some format => scan fs o format (paths.map Path.read)

def ofArguments (fs : FileSystem) (args : List Text) (page : Text := []) : Run :=
  match Options.read args with
  | .error fault => { ending := .usage fault }
  | .ok o => ofOptions fs o page

end Run

end DqlScan.CommandLine
