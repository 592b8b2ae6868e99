import DqlScan.Ignore.Pattern
import DqlScan.Text.Quoted

/-!
# Ignore rules

One line of a rule file: nothing, a pattern, or a pattern whose paths are kept after all. Of the
rules that match a path, the last decides.
-/

namespace DqlScan.Ignore

/-- The segment that stands for any number of directories. -/
def doubleStar : Text := ['*', '*']

/-- Leaves one of several double stars in a row. -/
def collapse : List Text → List Text
  | a :: b :: rest =>
    if a = doubleStar ∧ b = doubleStar then collapse (b :: rest) else a :: collapse (b :: rest)
  | segments => segments

/-- The pieces of the segments that follow another. A pattern that ends with a name matches the
path and all below it, one that ends with a double star only what is below. -/
def followingPieces : List Text → Except GlobFault (List Piece)
  | [] => .ok [.boundary]
  | segment :: rest =>
    if segment = doubleStar then
      if rest = [] then .ok [.literal '/'] else (followingPieces rest).map (.innerDirectories :: ·)
    else do
      let here ← segmentPieces segment
      let later ← followingPieces rest
      return .literal '/' :: here ++ later

def startingPieces : List Text → Except GlobFault (List Piece)
  | [] => .ok []
  | segment :: rest => do
    let here ← segmentPieces segment
    let later ← followingPieces rest
    return here ++ later

/-- The pattern of segments in which no two double stars stand side by side. `ofDirectory` tells
whether the line ended with a slash. -/
def Pattern.ofSegments (ofDirectory : Bool) (segments : List Text) : Except GlobFault Pattern :=
  if segments = [doubleStar] then .ok (if ofDirectory then .insideDirectory else .everything)
  else if segments = [doubleStar, ['*']] then .ok .everything
  else if segments = [doubleStar, ['*'], doubleStar] then .ok .insideDirectory
  else
    match segments with
    | [] => .ok (.sequence [])
    | segment :: rest =>
      if segment = doubleStar then
        (startingPieces rest).map fun pieces => .sequence (.leadingDirectories :: pieces)
      else (startingPieces segments).map .sequence

/-- Anchors the segments of a line: a leading slash ties the pattern to its directory, and so
does a slash inside it; a lone name may lie at any depth. -/
def anchored : List Text → List Text
  | [] :: rest => rest
  | [name] => if name = doubleStar then [name] else [doubleStar, name]
  | [name, []] => if name = doubleStar then [name, []] else [doubleStar, name, []]
  | segments => segments

/-- An empty last segment, left by a slash at the end, stands for what lies below. -/
def openEnd : List Text → List Text
  | [] => []
  | [last] => if last = [] then [doubleStar] else [last]
  | segment :: rest => segment :: openEnd rest

inductive RuleFault where
  | invalidPattern (line : Text)
  /-- A set has a range whose ends are in the wrong order. -/
  | reversedRange
  deriving DecidableEq

def RuleFault.message? : RuleFault → Option Text
  | .invalidPattern line => some ("Invalid git pattern: ".toList ++ Text.quoted line)
  | .reversedRange => none

def CharSet.isReversed (s : CharSet) : Bool := s.ranges.any fun r => r.last < r.first

def Piece.isReversed : Piece → Bool
  | .oneOf set => set.isReversed
  | _ => false

def Pattern.isReversed : Pattern → Bool
  | .sequence pieces => pieces.any Piece.isReversed
  | _ => false

/-- A pattern, and whether it keeps the paths that it matches. -/
structure Rule where
  negated : Bool
  pattern : Pattern
  deriving DecidableEq

/-- The line without the whitespace at its end, unless it ends with an escaped space. -/
def trimmed (line : Text) : Text :=
  if ['\\', ' '].isSuffixOf line then line else Text.trimEnd line

/-- The pattern of a line from which the sign has been taken; none if the line says nothing. -/
def Pattern.ofBody (line body : Text) : Except RuleFault (Option Pattern) :=
  let segments := body.splitOn '/'
  match anchored segments with
  | [] => .error (.invalidPattern line)
  | kept =>
    match ofSegments (segments.getLast? = some []) (collapse (openEnd kept)) with
    | .error .unclosedSet => .ok none
    | .error .danglingEscape => .error (.invalidPattern line)
    | .ok pattern => if pattern.isReversed then .error .reversedRange else .ok (some pattern)

/-- The rule of a line; none for a comment and for a line that says nothing. -/
def Rule.ofLine (line : Text) : Except RuleFault (Option Rule) :=
  let rule := fun negated body => (Pattern.ofBody line body).map (·.map (Rule.mk negated))
  match trimmed line with
  | [] => .ok none
  | ['/'] => .ok none
  | '#' :: _ => .ok none
  | '!' :: body => rule true body
  | body => rule false body

def Rule.ofLines : List Text → Except RuleFault (List Rule)
  | [] => .ok []
  | line :: later => do
    let here ← ofLine line
    let rules ← ofLines later
    return here.toList ++ rules

/-- What the last rule that matches says: whether the path is ignored. -/
def verdict? (rules : List Rule) (t : Text) : Option Bool :=
  (rules.reverse.find? (·.pattern.matches t)).map fun rule => !rule.negated

def ignored (rules : List Rule) (t : Text) : Bool := verdict? rules t = some true

/-! ### Default rules

What a scan ignores without any rule file: the directories of tools and build results, and
minified and declaration files.
-/

def defaultPatterns : List Text :=
  ["node_modules/", "venv/", ".venv/", "__pycache__/", ".git/", "dist/", "build/", "vendor/",
    "coverage/", "*.min.js", "*.d.ts", ".idea/", ".vscode/", ".next/", "target/"].map String.toList

/-- The rules of the default patterns, all of which compile. -/
def defaultRules : List Rule :=
  match Rule.ofLines defaultPatterns with
  | .ok rules => rules
  | .error _ => []

theorem ofLines_defaultPatterns : Rule.ofLines defaultPatterns = .ok defaultRules := by
  rfl

end DqlScan.Ignore
