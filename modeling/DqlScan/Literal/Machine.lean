import DqlScan.Text.Quoted

/-!
# The literal machine

A literal stands between two equal delimiters. Five modes and one rule, `step`: from the state, the
symbol, whether the symbol is escaped and the symbol after it, to the next state. Outside a literal
nothing is escaped; inside one, a backslash takes the meaning from the symbol after it.
-/

namespace DqlScan.Literal

/-! ### Symbols -/

inductive Delimiter where
  | apostrophe
  | quotationMark
  | backtick
  deriving DecidableEq

def Delimiter.char : Delimiter → Char
  | .apostrophe => '\x27'
  | .quotationMark => '"'
  | .backtick => '\x60'

def Delimiter.all : List Delimiter := [.quotationMark, .apostrophe, .backtick]

def Delimiter.ofChar? (c : Char) : Option Delimiter := all.find? (·.char = c)

inductive Symbol where
  | delimiter (d : Delimiter)
  | backslash
  | dollar
  | openBrace
  | closeBrace
  | ordinary
  deriving DecidableEq

namespace Symbol

def ofChar (c : Char) : Symbol :=
  match Delimiter.ofChar? c with
  | some d => .delimiter d
  | none =>
    if c = '\\' then .backslash
    else if c = '$' then .dollar
    else if c = '\x7b' then .openBrace
    else if c = '\x7d' then .closeBrace
    else .ordinary

/-- A text of one character means what the character means; no other text means anything. -/
def ofText : Text → Symbol
  | [c] => ofChar c
  | _ => .ordinary

end Symbol

theorem Delimiter.ofChar?_char (d : Delimiter) : ofChar? d.char = some d := by
  cases d <;> decide

theorem Delimiter.ofChar?_eq_some_iff {c : Char} {d : Delimiter} :
    ofChar? c = some d ↔ c = d.char := by
  constructor
  · intro h
    have hd : d.char = c := by simpa using List.find?_some h
    exact hd.symm
  · rintro rfl
    exact ofChar?_char d

@[simp]
theorem Symbol.ofChar_eq_delimiter_iff {c : Char} {d : Delimiter} :
    ofChar c = .delimiter d ↔ c = d.char := by
  rw [← Delimiter.ofChar?_eq_some_iff, ofChar]
  split
  · simp_all
  · split <;> (try split) <;> (try split) <;> (try split) <;> simp_all

/-! ### Modes and transitions -/

inductive Mode where
  | outside
  | single
  | double
  | template
  | interpolation
  deriving DecidableEq

namespace Mode

def all : List Mode := [.outside, .single, .double, .template, .interpolation]

def name : Mode → Text
  | .outside => "outside".toList
  | .single => "in_single".toList
  | .double => "in_double".toList
  | .template => "in_template".toList
  | .interpolation => "in_interpolation".toList

end Mode

structure UnknownMode where
  name : Text

def UnknownMode.message (u : UnknownMode) : Text :=
  Text.quoted u.name ++ " is not a valid Mode".toList

def Mode.ofName (name : Text) : Except UnknownMode Mode :=
  match all.find? (·.name = name) with
  | some mode => .ok mode
  | none => .error ⟨name⟩

def Delimiter.mode : Delimiter → Mode
  | .apostrophe => .single
  | .quotationMark => .double
  | .backtick => .template

/-- The depth counts the braces that an interpolation has open, its own included. Elsewhere it
means nothing: it is zero unless a caller sets it, and is kept as it is. -/
structure State where
  mode : Mode := .outside
  depth : Int := 0
  deriving DecidableEq

structure Transition where
  state : State
  /-- Whether the symbol that follows is escaped. -/
  escaped : Bool := false
  /-- How many characters the transition takes. -/
  consumed : Nat := 1
  /-- Whether a literal ends here. -/
  closes : Bool := false
  deriving DecidableEq

/-- One transition of a symbol that is not escaped, inside a literal. -/
def stepInside (s : State) (x : Symbol) (next : Option Symbol) : Transition :=
  match s.mode, x with
  | _, .backslash => { state := s, escaped := true }
  | .template, .dollar =>
    if next = some .openBrace then { state := ⟨.interpolation, 1⟩, consumed := 2 }
    else { state := s }
  | .interpolation, .openBrace => { state := ⟨.interpolation, s.depth + 1⟩ }
  | .interpolation, .closeBrace =>
    { state := if 0 < s.depth - 1 then ⟨.interpolation, s.depth - 1⟩ else ⟨.template, 0⟩ }
  | mode, .delimiter d => if d.mode = mode then { state := {}, closes := true } else { state := s }
  | _, _ => { state := s }

def step (s : State) (x : Symbol) (escaped : Bool) (next : Option Symbol) : Transition :=
  match s.mode, x with
  | .outside, .delimiter d => { state := ⟨d.mode, 0⟩ }
  | .outside, _ => { state := s }
  | _, _ => if escaped then { state := s } else stepInside s x next

end DqlScan.Literal
