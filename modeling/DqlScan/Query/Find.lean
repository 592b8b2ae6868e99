import DqlScan.Literal.Scan

/-!
# Queries of a text

The literals of a text that are DQL expressions, without their delimiters, each with the place of
its opening delimiter. A text is a DQL expression by its first word: a root command, or a
transformation command after a pipe. Blanks may stand before the pipe and before the word, and words
are compared with case.
-/

namespace DqlScan

/-! ### Vocabulary -/

namespace Vocabulary

/-- The commands that may start an expression. -/
def rootCommands : List Text :=
  ["data", "describe", "fetch", "load", "timeseries", "metrics"].map String.toList

/-- The commands that may follow a pipe. -/
def transformationCommands : List Text :=
  ["dedup", "filter", "filterOut", "search", "fields", "fieldsAdd", "fieldsKeep", "fieldsRemove",
    "fieldsRename", "parse", "limit", "sort", "expand", "fieldsFlatten", "fieldsSummary",
    "makeTimeseries", "summarize", "append", "join", "joinNested", "lookup", "smartscapeNodes",
    "smartscapeEdges", "traverse"].map String.toList

/-- The white space and line terminators that ECMAScript trims from the start of a string. -/
def blanks : Text :=
  ['\t', '\n', '\x0b', '\x0c', '\r', ' ', '\u00a0', '\u1680', '\u2000', '\u2001', '\u2002',
    '\u2003', '\u2004', '\u2005', '\u2006', '\u2007', '\u2008', '\u2009', '\u200a', '\u2028',
    '\u2029', '\u202f', '\u205f', '\u3000', '\ufeff']

def pipe : Char := '|'

/-- Two vocabularies share these commands, which are in order and pairwise different. -/
structure Overlap where
  commands : List Text

def Overlap.message (o : Overlap) : Text :=
  "command vocabularies overlap: [".toList ++
    List.intercalate ", ".toList (o.commands.map Text.quoted) ++ "]".toList

/-- The commands that stand in both lists, in the order of their code points. -/
def shared (root transformation : List Text) : List Text :=
  (root.eraseDups.filter (transformation.contains ·)).mergeSort (fun a b => !decide (b < a))

def checkDisjoint (root transformation : List Text) : Except Overlap Unit :=
  match shared root transformation with
  | [] => .ok ()
  | commands => .error ⟨commands⟩

end Vocabulary

/-! ### Classification -/

open Vocabulary

/-- The text without its first and last character, if they are the same delimiter. -/
def unwrap : Text → Text
  | [] => []
  | c :: rest =>
    if rest.getLast? = some c ∧ (Literal.Delimiter.ofChar? c).isSome then rest.dropLast
    else c :: rest

def trimBlanks (t : Text) : Text := t.dropWhile (· ∈ blanks)

def leadingWord (t : Text) : Text := t.takeWhile Char.isAlpha

def leadingWord? (t : Text) : Option Text :=
  match leadingWord t with
  | [] => none
  | word => some word

/-- Whether an expression without delimiters starts with a command that may stand there. -/
def startsQuery (body : Text) : Bool :=
  match trimBlanks body with
  | [] => false
  | c :: rest =>
    if c = pipe then transformationCommands.contains (leadingWord (trimBlanks rest))
    else rootCommands.contains (leadingWord (c :: rest))

/-- Whether a literal, with or without its delimiters, is a DQL expression. -/
def isQuery (raw : Text) : Bool := startsQuery (unwrap raw)

/-! ### Queries and their places -/

/-- A DQL expression, the file that it was found in, and where its literal starts: the line
counts from 1 and the column from 0. -/
structure Query where
  text : Text
  file : Text
  line : Int
  column : Int := 0
  deriving DecidableEq

def queryTokens (content : Text) : List Literal.Token :=
  (Literal.tokens content).filter (isQuery ·.text)

def queryTexts (content : Text) : List Text := (queryTokens content).map (unwrap ·.text)

def Query.ofToken (content file : Text) (token : Literal.Token) : Query :=
  let place := Text.position content token.offset
  ⟨unwrap token.text, file, place.line, place.column⟩

def findQueries (content file : Text) : List Query :=
  (queryTokens content).map (Query.ofToken content file)

/-- `PATH:LINE:COLUMN` -/
def Query.place (q : Query) : Text :=
  q.file ++ ':' :: Text.ofInt q.line ++ ':' :: Text.ofInt q.column

def Query.plainLine (q : Query) : Text := "dql-format: ".toList ++ q.text

def Query.placedLine (q : Query) : Text := q.place ++ ": ".toList ++ q.text

end DqlScan
