import DqlScan.Text.Basic

/-!
# Patterns

A compiled pattern is a sequence of pieces that is matched from the start of a path's text. Each
piece yields all texts that may remain after it; the pattern matches if some choice leads through
all pieces, whatever then remains.

Only paths without a line feed are covered. The patterns stand for regular expressions in which a
dot takes no line feed and the end may lie before one, while pieces take it for a character like any
other.
-/

namespace DqlScan.Ignore

/-- The characters in the ranges, or all others. A slash is a character like any other. -/
structure CharSet where
  negated : Bool
  ranges : List CodeRange
  deriving DecidableEq

def CharSet.contains (s : CharSet) (c : Char) : Bool :=
  CodeRange.anyContains s.ranges c != s.negated

inductive Piece where
  | literal (c : Char)
  | oneOf (set : CharSet)
  /-- One character that is no slash. -/
  | anyChar
  /-- Any number of characters that are no slashes. -/
  | star
  /-- At least one character, and no slash. -/
  | name
  /-- Nothing, or at least one character and a slash. -/
  | leadingDirectories
  /-- Nothing, or a slash and at least one character. -/
  | innerDirectories
  /-- A slash, or the end of the text. -/
  | boundary
  deriving DecidableEq

/-- The text and all shorter ends of it. -/
def suffixes : Text → List Text
  | [] => [[]]
  | c :: rest => (c :: rest) :: suffixes rest

def afterSlashes : Text → List Text
  | [] => []
  | c :: rest => if c = '/' then rest :: afterSlashes rest else afterSlashes rest

/-- What remains after some characters before the first slash. -/
def afterStar : Text → List Text
  | [] => [[]]
  | c :: rest => (c :: rest) :: if c = '/' then [] else afterStar rest

def afterChar (p : Char → Bool) : Text → List Text
  | [] => []
  | c :: rest => if p c then [rest] else []

/-- What may remain of a text after a piece. -/
def Piece.rests : Piece → Text → List Text
  | .literal c, t => afterChar (· = c) t
  | .oneOf set, t => afterChar set.contains t
  | .anyChar, t => afterChar (· ≠ '/') t
  | .star, t => afterStar t
  | .name, t => (afterChar (· ≠ '/') t).flatMap afterStar
  | .leadingDirectories, t => t :: afterSlashes t.tail
  | .innerDirectories, t =>
    t :: match t with
      | '/' :: _ :: rest => suffixes rest
      | _ => []
  | .boundary, t => if t = [] then [[]] else afterChar (· = '/') t

def matchesPieces : List Piece → Text → Bool
  | [], _ => true
  | piece :: pieces, t => (piece.rests t).any (matchesPieces pieces)

inductive Pattern where
  /-- Every path but the empty one. -/
  | everything
  /-- Every path with a slash: all but the files that lie in no directory. -/
  | insideDirectory
  | sequence (pieces : List Piece)
  deriving DecidableEq

def Pattern.matches (p : Pattern) (t : Text) : Bool :=
  match p with
  | .everything => !t.isEmpty
  | .insideDirectory => '/' ∈ t
  | .sequence pieces => matchesPieces pieces t

/-! ### Globs

One segment of a pattern, between two slashes: `*`, `?`, sets in brackets, and characters that
stand for themselves, after a backslash or without one.
-/

inductive GlobFault where
  /-- A bracket has no end. -/
  | unclosedSet
  /-- A backslash has nothing after it. -/
  | danglingEscape
  deriving DecidableEq

/-- The members of a set: characters, and ranges written with a hyphen between two characters. A
backslash is a member like any other. -/
def setRanges : Text → List CodeRange
  | [] => []
  | first :: '-' :: last :: rest => ⟨first.toNat, last.toNat⟩ :: setRanges rest
  | c :: rest => .single c :: setRanges rest

/-- The set that a text after `[` starts with, and its length up to and with the `]` that ends it.
A `]` that comes first is a member. -/
def set? (t : Text) : Option (CharSet × Nat) :=
  let negated := t.head?.any fun c => c = '!' ∨ c = '^'
  let body := if negated then t.tail else t
  let first := body.take (if body.head? = some ']' then 1 else 0)
  let members := first ++ (body.drop first.length).takeWhile (· ≠ ']')
  if members.length < body.length then
    some (⟨negated, setRanges members⟩, t.length - body.length + members.length + 1)
  else none

/-- The pieces of a segment without its first `taken` characters. -/
def globFrom (taken : Nat) : Text → Except GlobFault (List Piece)
  | [] => .ok []
  | c :: rest =>
    match taken with
    | n + 1 => globFrom n rest
    | 0 =>
      if c = '\\' then
        match rest with
        | [] => .error .danglingEscape
        | x :: _ => (globFrom 1 rest).map (.literal x :: ·)
      else if c = '*' then (globFrom 0 rest).map (.star :: ·)
      else if c = '?' then (globFrom 0 rest).map (.anyChar :: ·)
      else if c = '[' then
        match set? rest with
        | none => .error .unclosedSet
        | some (set, n) => (globFrom n rest).map (.oneOf set :: ·)
      else (globFrom 0 rest).map (.literal c :: ·)

/-- The pieces of a segment. A lone star needs at least one character. -/
def segmentPieces (segment : Text) : Except GlobFault (List Piece) :=
  if segment = ['*'] then .ok [.name] else globFrom 0 segment

end DqlScan.Ignore
