import DqlScan.Ignore.Rule
import DqlScan.Notice
import DqlScan.Text.Basic

/-!
# Filters

A filter joins the default rules, the rules of the root directory and those of the directories
below it that were loaded. Each of these lists decides on its own, and one that ignores a path is
enough; so a rule that keeps a path only takes back what its own list says.
-/

namespace DqlScan.Ignore

def ruleFileName : Text := ".gitignore".toList

/-- How many octets of a rule file are read at a time. -/
def blockSize : Nat := 8192

def ruleLines (node : Node) : Except ReadFault (List Text) := do
  let content ← node.content
  let text ← (Utf8.decodeBlocks blockSize content).mapError .encoding
  return Text.lines (Text.unifyNewlines text)

/-- The rules for the paths below a directory, which is given by its components from the root. -/
structure Scope where
  directory : List Text
  rules : List Rule

structure PathFilter where
  root : Path
  /-- Whether rule files below the root count. -/
  nested : Bool := true
  rootRules : List Rule := []
  scopes : List Scope := []

inductive LoadFault where
  | access (path : Path) (fault : AccessFault)
  | rule (fault : RuleFault)
  | outsideRoot (directory root : Path)

def LoadFault.message? : LoadFault → Option Text
  | .access path fault => some (fault.message path)
  | .rule fault => fault.message?
  | .outsideRoot directory root =>
    some (Text.quoted directory.text ++ " is not in the subpath of ".toList ++
      Text.quoted root.partsText ++
      " OR one path is relative and the other is absolute.".toList)

/-- The text by which rules know a path: its components, with a slash after a directory. The root
itself, as a directory, is the empty text. -/
def subject (parts : List Text) (isDirectory : Bool) : Text :=
  match parts, isDirectory with
  | [], true => []
  | [], false => ['.']
  | parts, true => Path.joined parts ++ ['/']
  | parts, false => Path.joined parts

def Scope.ignores (s : Scope) (parts : List Text) (isDirectory : Bool) : Bool :=
  match s.directory.isPrefixOf? parts with
  | none => false
  | some below => ignored s.rules (subject below isDirectory)

namespace PathFilter

/-- A filter with the rules of the root, given what stands at the root under the name of a rule
file. A file that cannot be read has no rules. -/
def ofRoot (root : Path) (nested : Bool) (ruleFile : Option Node) :
    Except RuleFault (PathFilter × List Notice) :=
  match ruleFile with
  | none => .ok ({ root, nested }, [])
  | some node =>
    match ruleLines node with
    | .error fault => .ok ({ root, nested }, [.unreadRules (root.child ruleFileName) fault])
    | .ok lines => (Rule.ofLines lines).map fun rules => ({ root, nested, rootRules := rules }, [])

/-- Adds the rules of a directory, given what stands in it under the name of a rule file. The
root has its rules already. -/
def load (f : PathFilter) (directory : Path) (ruleFile : Option Node) :
    Except LoadFault (PathFilter × List Notice) :=
  if f.nested ∧ directory ≠ f.root then
    match ruleFile with
    | some (.file content) =>
      match ruleLines (.file content) with
      | .error fault => .ok (f, [.unreadRules (directory.child ruleFileName) fault])
      | .ok lines =>
        match Rule.ofLines lines with
        | .error fault => .error (.rule fault)
        | .ok rules =>
          match directory.below? f.root with
          | none => .error (.outsideRoot directory f.root)
          | some parts => .ok ({ f with scopes := f.scopes ++ [⟨parts, rules⟩] }, [])
    | _ => .ok (f, [])
  else .ok (f, [])

/-- What stands in a directory under the name of a rule file. -/
def ruleFile (fs : FileSystem) (directory : Path) : Except LoadFault (Option Node) :=
  let path := directory.child ruleFileName
  (fs.find? path).mapError (.access path)

def ofDirectory (fs : FileSystem) (root : Path) (nested : Bool) :
    Except LoadFault (PathFilter × List Notice) :=
  match ruleFile fs root with
  | .error fault => .error fault
  | .ok file => (ofRoot root nested file).mapError .rule

/-- Adds the rules of the directory at a path. Where they would not count, nothing is looked
up. -/
def loadAt (f : PathFilter) (fs : FileSystem) (directory : Path) :
    Except LoadFault (PathFilter × List Notice) :=
  if f.nested ∧ directory ≠ f.root then
    match ruleFile fs directory with
    | .error fault => .error fault
    | .ok file => f.load directory file
  else .ok (f, [])

/-- The components by which rules know a path. An absolute path is taken from the root, a
relative one as it stands. -/
def parts? (f : PathFilter) (p : Path) : Option (List Text) :=
  if p.anchor = .relative then some p.parts else p.below? f.root

def ignoresParts (f : PathFilter) (parts : List Text) (isDirectory : Bool) : Bool :=
  ignored defaultRules (subject parts isDirectory) ||
    ignored f.rootRules (subject parts isDirectory) ||
    f.scopes.any (·.ignores parts isDirectory)

/-- Whether a path is ignored. An absolute path outside the root is not. -/
def ignores (f : PathFilter) (p : Path) (isDirectory : Bool) : Bool :=
  match f.parts? p with
  | none => false
  | some parts => f.ignoresParts parts isDirectory

end PathFilter

end DqlScan.Ignore
