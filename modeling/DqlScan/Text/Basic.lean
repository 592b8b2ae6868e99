/-!
# Texts

A text is the list of its characters, so that every offset, column and length of this library
counts characters. Octets appear only where a file is decoded.
-/

namespace DqlScan

abbrev Text := List Char

abbrev Bytes := List UInt8

namespace Text

def ofNat (n : Nat) : Text := Nat.toDigits 10 n

def ofInt : Int → Text
  | .ofNat n => ofNat n
  | .negSucc n => '-' :: ofNat (n + 1)

/-- The hexadecimal digits of a number in lower case, filled with zeros on the left. -/
def hex (width n : Nat) : Text := (Nat.toDigits 16 n).leftpad width '0'

def unlines (lines : List Text) : Text := lines.flatMap (· ++ ['\n'])

/-- Two first parts that go as far as a property does are the same. -/
theorem append_inj_of_boundary {P : Char → Prop} {a b s t : Text} (ha : ∀ c ∈ a, P c)
    (hb : ∀ c ∈ b, P c) (hs : ∀ c, s.head? = some c → ¬P c) (ht : ∀ c, t.head? = some c → ¬P c)
    (h : a ++ s = b ++ t) : a = b ∧ s = t := by
  rcases List.append_eq_append_iff.mp h with ⟨u, rfl, rfl⟩ | ⟨u, rfl, rfl⟩
  · cases u with
    | nil => simp
    | cons c u => exact absurd (hb c (by simp)) (hs c rfl)
  · cases u with
    | nil => simp
    | cons c u => exact absurd (ha c (by simp)) (ht c rfl)

/-! ### Lines

A line ends with a line feed, a carriage return, or a carriage return and a line feed. All three
are read as one line feed, which stays at the end of its line.
-/

/-- Every `\r\n` and every other `\r` becomes a line feed. -/
def unifyNewlines : Text → Text
  | [] => []
  | '\r' :: '\n' :: rest => '\n' :: unifyNewlines rest
  | c :: rest => (if c = '\r' then '\n' else c) :: unifyNewlines rest

/-- The lines of a text, each with the line feed that ends it; the last may lack one. -/
def lines : Text → List Text
  | [] => []
  | c :: rest =>
    if c = '\n' then ['\n'] :: lines rest
    else match lines rest with
      | [] => [[c]]
      | line :: later => (c :: line) :: later

@[simp]
theorem flatten_lines (t : Text) : (lines t).flatten = t := by
  induction t with
  | nil => rfl
  | cons c rest ih =>
    by_cases h : c = '\n'
    · simp [lines, h, ih]
    · cases hl : lines rest <;> simp_all [lines]

end Text

/-! ### Lines and columns

Only a line feed starts a new line. Lines count from 1 and columns from 0.
-/

structure Position where
  line : Nat
  column : Nat
  deriving DecidableEq

namespace Text

def lastLine (t : Text) : Text := (t.reverse.takeWhile (· ≠ '\n')).reverse

def position (t : Text) (offset : Nat) : Position where
  line := (t.take offset).count '\n' + 1
  column := (lastLine (t.take offset)).length

end Text

/-! ### Ranges of code points

Properties of characters are tables of inclusive ranges; so are the sets of a pattern.
-/

/-- The characters from `first` to `last`, both included; none if `last < first`. -/
structure CodeRange where
  first : Nat
  last : Nat
  deriving DecidableEq

namespace CodeRange

def contains (r : CodeRange) (c : Char) : Bool := r.first ≤ c.toNat && c.toNat ≤ r.last

def single (c : Char) : CodeRange := ⟨c.toNat, c.toNat⟩

def anyContains (table : List CodeRange) (c : Char) : Bool := table.any (·.contains c)

theorem contains_single {c d : Char} : (single c).contains d ↔ d = c := by
  rw [contains, single, Bool.and_eq_true, decide_eq_true_eq, decide_eq_true_eq]
  constructor
  · rintro ⟨h₁, h₂⟩
    exact Char.ext (UInt32.toNat_inj.mp (Nat.le_antisymm h₂ h₁))
  · rintro rfl
    exact ⟨Nat.le_refl _, Nat.le_refl _⟩

end CodeRange

/-! ### Trailing whitespace

The characters removed from the end of an ignore rule: those with the Unicode property
White_Space and the four information separators U+001C to U+001F.
-/

namespace Text

def whitespace : List CodeRange :=
  [⟨0x0009, 0x000D⟩, ⟨0x001C, 0x0020⟩, ⟨0x0085, 0x0085⟩, ⟨0x00A0, 0x00A0⟩, ⟨0x1680, 0x1680⟩,
    ⟨0x2000, 0x200A⟩, ⟨0x2028, 0x2029⟩, ⟨0x202F, 0x202F⟩, ⟨0x205F, 0x205F⟩, ⟨0x3000, 0x3000⟩]

def isWhitespace (c : Char) : Bool := CodeRange.anyContains whitespace c

def trimEnd (t : Text) : Text := (t.reverse.dropWhile isWhitespace).reverse

end Text

end DqlScan
