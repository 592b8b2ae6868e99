import DqlScan.Result.Basic

/-!
# Reports

A result is reported as lines for a reader or an editor, as JSON, or as blocks for a console to draw: a
table of the queries, if there are any, and a panel with the counts.

A block holds texts of two kinds. Some are markup, which the console reads: it takes words in brackets
for tags and words between colons for emoji, and may refuse what it reads. The places of queries are
given to it in this way, with nothing escaped. The other texts are shown as they are. How a console
reads markup is left to it but for two laws (`Console`). How it lays texts out is left out: colours,
widths, tabs, and where lines are cut or broken.
-/

namespace DqlScan.Report

/-! ### Lines -/

/-- The lines of a report; `placed` asks for the form that tells the place. -/
def lines (placed : Bool) (r : ScanResult) : Text :=
  Text.unlines (r.queries.map fun q => if placed then q.placedLine else q.plainLine)

/-! ### JSON -/

def summary (r : ScanResult) : Json :=
  .record [("total_commands", .int r.queries.length), ("files_scanned", .int r.filesScanned),
    ("files_with_commands", .int r.filesWithQueries), ("unreadable_files", .texts r.unreadable)]

def json (r : ScanResult) (target : Text) : Json :=
  .record [("target", .str target), ("commands", .arr (r.queries.map Query.json)),
    ("summary", summary r)]

def jsonText (r : ScanResult) (target : Text) : Text := Text.unlines [(json r target).write]

/-! ### Texts for a console -/

/-- The control characters that a console acts on: bell, backspace, vertical tab, form feed and
carriage return. -/
def consoleControls : Text := ['\x07', '\x08', '\x0b', '\x0c', '\r']

/-- A text as a console shows it, without the control characters that it acts on. -/
def shownText (t : Text) : Text := t.filter (· ∉ consoleControls)

inductive Cell where
  | markup (source : Text)
  | plain (text : Text)
  deriving DecidableEq

def Cell.source : Cell → Text
  | .markup source => source
  | .plain text => text

def boldTag : Text := "[bold]".toList

def boldEnd : Text := "[/bold]".toList

def bold (t : Text) : Text := boldTag ++ t ++ boldEnd

/-- Whether a text starts with a tag: after a bracket stands a small letter or one of `#/@`, and the
next bracket is a closing one. -/
def startsTag : Text → Bool
  | '[' :: c :: rest =>
    (c.isLower || c ∈ ['#', '/', '@']) && rest.find? (fun x => x = '[' ∨ x = ']') = some ']'
  | _ => false

def isTagged : Text → Bool
  | [] => false
  | c :: rest => startsTag (c :: rest) || ['\\', '['].isPrefixOf (c :: rest) || isTagged rest

/-- Whether a text has a tag, a bracket behind a backslash, or an emoji between two colons. -/
def isMarked (isEmoji : Text → Bool) (t : Text) : Bool :=
  isTagged t || (t.splitOn ':').tail.dropLast.any isEmoji

/-! ### Blocks -/

inductive Block (α : Type := Text) where
  | blank
  | table (headers : List α) (rows : List (List α))
  | panel (content title : α) (border : Text)
  deriving DecidableEq

namespace Block

variable {α β : Type}

def map (f : α → β) : Block α → Block β
  | .blank => .blank
  | .table headers rows => .table (headers.map f) (rows.map (·.map f))
  | .panel content title border => .panel (f content) (f title) border

def mapM (f : α → Option β) : Block α → Option (Block β)
  | .blank => some .blank
  | .table headers rows => do
    let headers ← headers.mapM f
    let rows ← rows.mapM (·.mapM f)
    return .table headers rows
  | .panel content title border => do
    let content ← f content
    let title ← f title
    return .panel content title border

/-- A block as a console draws it that has neither colours nor boxes. -/
def text : Block → Text
  | .blank => ['\n']
  | .table headers rows =>
    Text.unlines ((headers :: rows).map fun cells => List.intercalate "  ".toList cells)
  | .panel content _ _ => Text.unlines [content]

end Block

def maxQueryWidth : Nat := 100

def shortened (t : Text) : Text :=
  if maxQueryWidth < t.length then t.take (maxQueryWidth - 1) ++ ['…'] else t

def row (number : Nat) (q : Query) : List Cell :=
  [.markup (Text.ofNat number), .markup q.place, .plain (shownText (shortened q.text))]

def rowsFrom (number : Nat) : List Query → List (List Cell)
  | [] => []
  | q :: queries => row number q :: rowsFrom (number + 1) queries

def queryTable (r : ScanResult) : Block Cell :=
  .table [.markup "#".toList, .markup "位置".toList, .markup "DQL 命令".toList] (rowsFrom 1 r.queries)

/-- What a panel counts. Unreadable files are counted only if there are any. -/
@[ext]
structure Counts where
  queries : Nat
  filesScanned : Int
  filesWithQueries : Nat
  unreadable : Option Nat
  deriving DecidableEq

def counts (r : ScanResult) : Counts where
  queries := r.queries.length
  filesScanned := r.filesScanned
  filesWithQueries := r.filesWithQueries
  unreadable := if r.unreadable = [] then none else some r.unreadable.length

def Counts.unreadableLine (c : Counts) : Text :=
  match c.unreadable with
  | none => []
  | some n => "无法读取: ".toList ++ Text.ofNat n ++ ['\n']

def Counts.panel (c : Counts) (target : Text) : Text :=
  "DQL 命令: ".toList ++ Text.ofNat c.queries ++ "\n扫描文件: ".toList ++
    Text.ofInt c.filesScanned ++ "  含命令文件: ".toList ++ Text.ofNat c.filesWithQueries ++
    ['\n'] ++ c.unreadableLine ++ "目标: ".toList ++ target

def summaryPanel (r : ScanResult) (target : Text) : Block Cell :=
  .panel (.plain ((counts r).panel (shownText target))) (.markup (bold "📋 dql-format".toList))
    (if r.queries = [] then "yellow" else "green").toList

def blocks (r : ScanResult) (target : Text) : List (Block Cell) :=
  let table := if r.queries = [] then [] else [queryTable r, .blank]
  .blank :: table ++ [summaryPanel r target, .blank]

/-- The texts of blocks, before any markup is read. -/
def sources (given : List (Block Cell)) : List Block := given.map (.map Cell.source)

def console (r : ScanResult) (target : Text) : List Block := sources (blocks r target)

/-! ### Drawing -/

/-- What a report relies on in the console that draws it. A text without markup is shown as it is, and
so is what stands between tags for bold type. Of other markup nothing is said: a console may drop or
replace parts of it, or refuse it. -/
structure Console where
  isEmoji : Text → Bool
  read : Text → Option Text
  read_unmarked : ∀ t, isMarked isEmoji t = false → read t = some (shownText t)
  read_bold : ∀ t, '[' ∉ t → '\\' ∉ t → ':' ∉ t → read (bold t) = some (shownText t)

namespace Console

def cell (c : Console) : Cell → Option Text
  | .markup source => c.read source
  | .plain text => some text

/-- What a console shows of blocks, if it can read all their markup. -/
def draw (c : Console) (given : List (Block Cell)) : Option (List Block) :=
  given.mapM (Block.mapM c.cell)

/-- The text between tags for bold type; any other text as it is. -/
def unbold (t : Text) : Text :=
  if boldTag.isPrefixOf t && boldEnd.isSuffixOf t then
    (t.drop boldTag.length).take (t.length - boldTag.length - boldEnd.length)
  else t

theorem unbold_bold (t : Text) : unbold (bold t) = t := by
  have hstart : boldTag.isPrefixOf (bold t) = true :=
    List.isPrefixOf_iff_prefix.mpr ⟨t ++ boldEnd, (List.append_assoc ..).symm⟩
  have hend : boldEnd.isSuffixOf (bold t) = true :=
    List.isSuffixOf_iff_suffix.mpr ⟨boldTag ++ t, rfl⟩
  have hlength : (bold t).length - boldTag.length - boldEnd.length = t.length := by
    simp only [bold, List.length_append]
    omega
  rw [unbold, hstart, hend, hlength, bold, List.append_assoc, List.drop_left]
  exact List.take_left

theorem unbold_of_unmarked {isEmoji : Text → Bool} {t : Text} (h : isMarked isEmoji t = false) :
    unbold t = t := by
  cases hstart : boldTag.isPrefixOf t with
  | false => rw [unbold, hstart]; rfl
  | true =>
    obtain ⟨rest, rfl⟩ := List.isPrefixOf_iff_prefix.mp hstart
    cases h

/-- A console without emoji that knows no tags but those for bold type. -/
def bare : Console where
  isEmoji _ := false
  read t := some (shownText (unbold t))
  read_unmarked t h := by rw [unbold_of_unmarked h]
  read_bold t _ _ _ := by rw [unbold_bold]

end Console

end DqlScan.Report
