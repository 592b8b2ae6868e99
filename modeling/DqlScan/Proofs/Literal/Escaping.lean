import DqlScan.Proofs.Literal.Grammar

/-!
# Escaping

Any text becomes the body of a literal if a backslash is put before each backslash, each dollar
sign and each delimiter of the literal (`Quotation.isLiteral`), and comes back when they are taken
away (`unescape_escape`).
-/

namespace DqlScan.Literal

def escapeChar (d : Delimiter) (c : Char) : Text :=
  if c = '\\' ∨ c = '$' ∨ c = d.char then ['\\', c] else [c]

/-- The text with a backslash before each character that means something between two such
delimiters. -/
def escape (d : Delimiter) (t : Text) : Text := t.flatMap (escapeChar d)

def unescape : Text → Text
  | '\\' :: c :: rest => c :: unescape rest
  | c :: rest => c :: unescape rest
  | [] => []

theorem escape_cons (d : Delimiter) (c : Char) (t : Text) :
    escape d (c :: t) = escapeChar d c ++ escape d t := by
  simp [escape]

theorem escapeChar_cases (d : Delimiter) (c : Char) :
    escapeChar d c = ['\\', c] ∨
      escapeChar d c = [c] ∧ c ≠ '\\' ∧ c ≠ '$' ∧ c ≠ d.char := by
  unfold escapeChar
  split
  · exact .inl rfl
  · next h => exact .inr ⟨rfl, by simpa using h⟩

theorem unescape_plain {c : Char} (h : c ≠ '\\') (t : Text) :
    unescape (c :: t) = c :: unescape t := by
  rw [unescape]
  rintro x rest rfl
  exact absurd rfl h

theorem unescape_escape (d : Delimiter) (t : Text) : unescape (escape d t) = t := by
  induction t with
  | nil => rfl
  | cons c t ih =>
    rw [escape_cons]
    rcases escapeChar_cases d c with hpair | ⟨hplain, hb, -, -⟩
    · rw [hpair]
      exact congrArg (c :: ·) ih
    · rw [hplain, List.singleton_append, unescape_plain hb, ih]

theorem quoted_escape (d : Delimiter) (t : Text) : Quoted d (escape d t) := by
  induction t with
  | nil => exact .nil
  | cons c t ih =>
    rw [escape_cons]
    rcases escapeChar_cases d c with hpair | ⟨hplain, hb, -, hd⟩
    · rw [hpair]
      exact .pair c ih
    · rw [hplain]
      exact .plain hd hb ih

theorem templated_escape (t : Text) : Templated (escape .backtick t) := by
  induction t with
  | nil => exact .nil
  | cons c t ih =>
    rw [escape_cons]
    rcases escapeChar_cases .backtick c with hpair | ⟨hplain, hb, hdollar, hd⟩
    · rw [hpair]
      exact .pair c ih
    · rw [hplain]
      exact .plain hd hb (fun h => hdollar h.1) ih

structure Quotation where
  delimiter : Delimiter
  text : Text

namespace Quotation

def body (q : Quotation) : Text := escape q.delimiter q.text

def literal (q : Quotation) : Text := q.delimiter.char :: (q.body ++ [q.delimiter.char])

theorem isLiteral (q : Quotation) : IsLiteral q.literal := by
  obtain ⟨d, t⟩ := q
  by_cases hd : d = .backtick
  · subst hd
    exact .template (templated_escape t)
  · exact .quoted hd (quoted_escape d t)

end Quotation

end DqlScan.Literal
