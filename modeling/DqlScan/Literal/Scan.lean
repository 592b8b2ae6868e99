import DqlScan.Literal.Machine

/-!
# Literals of a text

`scan` runs the machine over a text from left to right. Its results are the closed literals in
order and the cursor at the end, which tells whether a literal was left open.
-/

namespace DqlScan.Literal

/-- A closed literal with its delimiters, and the offset of the first. -/
structure Token where
  text : Text
  offset : Nat
  deriving DecidableEq

structure Cursor where
  state : State := {}
  escaped : Bool := false
  /-- The offset of the last opening delimiter. -/
  start : Nat := 0
  /-- The text from that delimiter on. -/
  opened : Text := []
  offset : Nat := 0
  deriving DecidableEq

structure Move where
  cursor : Cursor
  consumed : Nat
  token : Option Token

/-- Reads the character `x` that stands before `rest`. -/
def Cursor.advance (c : Cursor) (x : Char) (rest : Text) : Move :=
  let t := step c.state (.ofChar x) c.escaped (rest.head?.map .ofChar)
  let opens := c.state.mode = .outside ∧ t.state.mode ≠ .outside
  let start := if opens then c.offset else c.start
  let opened := if opens then x :: rest else c.opened
  let offset := c.offset + t.consumed
  { cursor := ⟨t.state, t.escaped, start, opened, offset⟩
    consumed := t.consumed
    token := if t.closes then some ⟨opened.take (offset - start), start⟩ else none }

/-- Scans on from a cursor, past the `taken` characters that its last transition has read
beyond the first. -/
def scanFrom (c : Cursor) (taken : Nat) : Text → List Token × Cursor
  | [] => ([], c)
  | x :: rest =>
    match taken with
    | n + 1 => scanFrom c n rest
    | 0 =>
      let move := c.advance x rest
      let later := scanFrom move.cursor (move.consumed - 1) rest
      (move.token.toList ++ later.1, later.2)

def scan (content : Text) : List Token × Cursor := scanFrom {} 0 content

/-- The closed literals of a text in order. -/
def tokens (content : Text) : List Token := (scan content).1

/-- A literal that the text ends in: its offset and the state at the end. -/
structure Unterminated where
  offset : Nat
  state : State
  deriving DecidableEq

def Cursor.unterminated? (c : Cursor) : Option Unterminated :=
  if c.state.mode = .outside then none else some ⟨c.start, c.state⟩

def unterminated? (content : Text) : Option Unterminated := (scan content).2.unterminated?

theorem scanFrom_taken (c : Cursor) (n : Nat) (t : Text) :
    scanFrom c n t = scanFrom c 0 (t.drop n) := by
  induction t generalizing n with
  | nil => simp [scanFrom]
  | cons x rest ih =>
    cases n with
    | zero => rfl
    | succ n => simpa [scanFrom] using ih n

end DqlScan.Literal
