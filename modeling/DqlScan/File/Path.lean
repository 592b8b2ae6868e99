import DqlScan.Text.Utf8

/-!
# Paths

A path is an anchor and its components. Empty components and `.` are dropped where a path is read;
`..` stays, because only a file system can tell where it leads. A path is looked up by its text, so
it must not be too long, and neither must be its components.
-/

namespace DqlScan

/-- What a path starts from. Exactly two leading slashes are kept apart from the root. -/
inductive Anchor where
  | relative
  | root
  | doubleRoot
  deriving DecidableEq

structure Path where
  anchor : Anchor := .relative
  parts : List Text := []
  deriving DecidableEq

namespace Path

/-- The component that leads to the parent directory. -/
def parent : Text := ['.', '.']

def readAnchor (t : Text) : Anchor :=
  match (t.takeWhile (· = '/')).length with
  | 0 => .relative
  | 2 => .doubleRoot
  | _ => .root

def readParts (t : Text) : List Text := (t.splitOn '/').filter fun part => part ≠ [] ∧ part ≠ ['.']

def read (t : Text) : Path := ⟨readAnchor t, readParts t⟩

def joined (parts : List Text) : Text := List.intercalate ['/'] parts

/-- The text of a path; `.` if it has neither anchor nor component. -/
def text (p : Path) : Text :=
  match p.anchor, p.parts with
  | .relative, [] => ['.']
  | .relative, parts => joined parts
  | .root, parts => '/' :: joined parts
  | .doubleRoot, parts => '/' :: '/' :: joined parts

/-- How many octets the text of a path may have to be looked up. -/
def maxSize : Nat := 4095

/-- How many octets a component may have to be looked up. -/
def maxNameSize : Nat := 255

def fits (p : Path) : Bool := (Utf8.encode p.text).length ≤ maxSize

def nameFits (name : Text) : Bool := (Utf8.encode name).length ≤ maxNameSize

/-- The components of a relative path as a text; none for `.`. -/
def partsText (p : Path) : Text := if p = {} then [] else p.text

def child (p : Path) (name : Text) : Path := { p with parts := p.parts ++ [name] }

def extend (p : Path) (parts : List Text) : Path := { p with parts := p.parts ++ parts }

/-- The components that lead from `base` to `p`, if `p` starts with `base`. -/
def below? (p base : Path) : Option (List Text) :=
  if p.anchor = base.anchor then base.parts.isPrefixOf? p.parts else none

/-- The part of a name from its last dot on, unless that dot is its first or last character. -/
def suffix (name : Text) : Text :=
  let last := (name.reverse.takeWhile (· ≠ '.')).reverse
  if last ≠ [] ∧ last.length + 1 < name.length then '.' :: last else []

end Path

end DqlScan
