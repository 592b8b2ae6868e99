import DqlScan.CommandLine.Run

/-!
# The program

Reads what stands at the paths of a command line and performs the run. All that is decided here
is which part of the file system a run can see.
-/

namespace DqlScan

/-- Reads all that stands at a path: a file, or a directory with everything below it. -/
partial def readNode? (path : String) : IO (Option Node) := do
  let place := (← IO.currentDir) / path
  if !(← place.pathExists) then return none
  if !(← place.isDir) then return some (.file (← IO.FS.readBinFile place).toList)
  let mut entries := Listing.nil
  for entry in ← place.readDir do
    if let some node ← readNode? entry.path.toString then
      entries := entries.put entry.fileName.toList node
  return some (.directory entries)

def readWhole (fs : FileSystem) (parts : List Text) : IO FileSystem := do
  let path : Path := ⟨.root, parts⟩
  match ← readNode? (String.ofList path.text) with
  | some node => return { fs with root := fs.root.place node parts }
  | none => return fs

/-- Adds the directories that lead to a path and what stands at it. `done` are the components
that have been followed. -/
def readPath (fs : FileSystem) (done : List Text) : List Text → IO FileSystem
  | [] => readWhole fs done
  | name :: parts => do
    if name = Path.parent then readPath fs done.dropLast parts
    else
      let done := done ++ [name]
      let path : Path := ⟨.root, done⟩
      let place := (← IO.currentDir) / String.ofList path.text
      if ← place.isDir then readPath { fs with root := fs.root.addDirectory done } done parts
      else if parts.isEmpty then readWhole fs done
      else if ← place.pathExists then return { fs with root := fs.root.place (.file []) done }
      else return fs

def readPaths (fs : FileSystem) : List Text → IO FileSystem
  | [] => return fs
  | arg :: args => do readPaths (← readPath fs [] (fs.absolute (.read arg))) args

def helpPage : Text :=
  Text.unlines ["Usage: dql-format [OPTIONS] [PATHS]...".toList, [],
    "  Print every DQL query found in string and template literals.".toList, [],
    "  -f, --format TEXT  text (default), rich or json".toList,
    "      --ide          print text output as path:line:col: command".toList,
    "  -v, --verbose      show detailed output".toList,
    "      --version      show the version and exit".toList]

/-- Writes what a run has written. The console is one that always can draw. -/
def CommandLine.Run.perform (run : Run) : IO UInt32 := do
  let drawn := (Report.Console.bare.draw run.blocks).getD []
  (← IO.getStderr).putStr (String.ofList (Text.unlines (run.notices.map Notice.line) ++ run.errors))
  (← IO.getStdout).putStr (String.ofList (run.output ++ drawn.flatMap Report.Block.text))
  let complain := fun message => do
    (← IO.getStderr).putStr (String.ofList (Text.unlines [message]))
  match run.ending with
  | .exit code => return code.toUInt32
  | .usage fault => complain fault.message; return 2
  | .access path fault => complain (fault.message path); return 1
  | .rules fault => complain (fault.message?.getD "Invalid git pattern".toList); return 1

end DqlScan

def main (args : List String) : IO UInt32 := do
  let args := args.map String.toList
  let here := (DqlScan.Path.read (← IO.currentDir).toString.toList).parts
  let empty : DqlScan.FileSystem := ⟨DqlScan.Listing.nil.addDirectory here, here⟩
  let fs ← match DqlScan.CommandLine.Options.read args with
    | .ok options => DqlScan.readPaths empty options.paths
    | .error _ => pure empty
  (DqlScan.CommandLine.Run.ofArguments fs args DqlScan.helpPage).perform
