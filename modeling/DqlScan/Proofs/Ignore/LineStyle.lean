import DqlScan.Proofs.Except
import DqlScan.Proofs.Ignore.Scopes
import DqlScan.Proofs.Text.LineEnds
import DqlScan.Proofs.Text.Utf8

/-!
# Line ends of rule files

How the lines of a rule file end makes no difference to the rules, and whether the last line does
makes none unless it ends with an escaped space, which only counts there
(`PathFilter.lineStyle_irrelevant`).
-/

namespace DqlScan

def LineStyle.file (s : LineStyle) (rows : List Text) : Node := .file (Utf8.encode (s.text rows))

namespace Ignore

/-! ### Rules of a line -/

/-- The fault without the line that it names. -/
def RuleFault.unnamed : RuleFault → RuleFault
  | .invalidPattern _ => .invalidPattern []
  | .reversedRange => .reversedRange

def EndsEscaped (line : Text) : Prop := ['\\', ' '] <:+ line

variable {line other : Text}

theorem Pattern.unnamed_ofBody (line body : Text) :
    (Pattern.ofBody line body).mapError RuleFault.unnamed = Pattern.ofBody [] body := by
  unfold Pattern.ofBody
  dsimp only
  split
  · rfl
  · split
    · rfl
    · rfl
    · split <;> rfl

/-- The rule of a line depends on the line as it is trimmed, but for the fault that names it. -/
theorem Rule.unnamed_ofLine_congr (h : trimmed line = trimmed other) :
    (ofLine line).mapError RuleFault.unnamed = (ofLine other).mapError RuleFault.unnamed := by
  unfold ofLine
  rw [h]
  split
  · rfl
  · rfl
  · rfl
  all_goals rw [mapError_map, mapError_map, Pattern.unnamed_ofBody, Pattern.unnamed_ofBody]

theorem trimEnd_newline (line : Text) : Text.trimEnd (line ++ ['\n']) = Text.trimEnd line := by
  rw [Text.trimEnd, Text.trimEnd, List.reverse_append, List.reverse_singleton,
    List.singleton_append, List.dropWhile_cons_of_pos (by decide)]

theorem trimmed_newline (line : Text) : trimmed (line ++ ['\n']) = Text.trimEnd line := by
  rw [trimmed, if_neg, trimEnd_newline]
  rw [List.isSuffixOf_iff_suffix]
  rintro ⟨before, h⟩
  have hlast := congrArg List.getLast? h
  simp at hlast

theorem trimEnd_cons {c : Char} (h : Text.isWhitespace c = false) (line : Text) :
    Text.trimEnd (c :: line) = c :: Text.trimEnd line := by
  rw [Text.trimEnd, Text.trimEnd, List.reverse_cons, List.dropWhile_append]
  split <;> simp_all

theorem Rule.ofLine_comment (line : Text) : ofLine ('#' :: line) = .ok none := by
  have htrimmed : ∃ rest, trimmed ('#' :: line) = '#' :: rest := by
    unfold trimmed
    split
    · exact ⟨line, rfl⟩
    · exact ⟨_, trimEnd_cons (by decide) line⟩
  obtain ⟨rest, hrest⟩ := htrimmed
  rw [ofLine, hrest]
  rfl

/-- A line feed behind a line takes an escaped space at its end away, and nothing else. -/
theorem Rule.unnamed_ofLine_newline (h : EndsEscaped line → line.head? = some '#') :
    (ofLine (line ++ ['\n'])).mapError RuleFault.unnamed =
      (ofLine line).mapError RuleFault.unnamed := by
  by_cases hescaped : EndsEscaped line
  · obtain ⟨rest, rfl⟩ := List.head?_eq_some_iff.mp (h hescaped)
    rw [List.cons_append, ofLine_comment, ofLine_comment]
  · -- Where no escaped space ends the line, trimming takes the line feed away with the blanks.
    have htrimmed : trimmed line = Text.trimEnd line := by
      rw [trimmed, if_neg]
      rwa [List.isSuffixOf_iff_suffix]
    exact unnamed_ofLine_congr ((trimmed_newline line).trans htrimmed.symm)

/-! ### Rules of a file -/

variable {lines lines' : List Text}

theorem Rule.unnamed_ofLines_cons
    (hline : (ofLine line).mapError RuleFault.unnamed = (ofLine other).mapError RuleFault.unnamed)
    (hlines : (ofLines lines).mapError RuleFault.unnamed =
      (ofLines lines').mapError RuleFault.unnamed) :
    (ofLines (line :: lines)).mapError RuleFault.unnamed =
      (ofLines (other :: lines')).mapError RuleFault.unnamed := by
  rw [ofLines, ofLines]
  rcases cases_of_mapError_eq hline with ⟨here, h, h'⟩ | ⟨fault, fault', h, h', heq⟩
  · rw [h, h']
    rcases cases_of_mapError_eq hlines with ⟨rules, h, h'⟩ | ⟨fault, fault', h, h', heq⟩
    · rw [h, h']
    · rw [h, h']
      exact congrArg Except.error heq
  · rw [h, h']
    exact congrArg Except.error heq

theorem Rule.unnamed_ofLines_append (before : List Text)
    (h : (ofLines lines).mapError RuleFault.unnamed =
      (ofLines lines').mapError RuleFault.unnamed) :
    (ofLines (before ++ lines)).mapError RuleFault.unnamed =
      (ofLines (before ++ lines')).mapError RuleFault.unnamed := by
  induction before with
  | nil => exact h
  | cons line before ih => exact unnamed_ofLines_cons rfl ih

theorem ruleLines_encode (t : Text) :
    ruleLines (.file (Utf8.encode t)) = .ok (Text.lines (Text.unifyNewlines t)) := by
  rw [ruleLines_file, Utf8.decodeBlocks, Utf8.decode_encode]
  rfl

/-- Whether the last line of a file ends makes no difference to it. An escaped space at its end
would not be there if something ended the line, which only a comment does not mind. -/
def LastEndsFreely (rows : List Text) : Prop :=
  ∀ row ∈ rows.getLast?, EndsEscaped row → row.head? = some '#'

variable {s s' : LineStyle} {rows : List Text}

theorem Rule.unnamed_ofLines_open (unbroken : ∀ row ∈ rows, row.Unbroken)
    (hopen : s.closed = false) (hlast : LastEndsFreely rows) :
    (ofLines (s.lines rows)).mapError RuleFault.unnamed =
      (ofLines (rows.map (· ++ ['\n']))).mapError RuleFault.unnamed := by
  rcases List.eq_nil_or_concat' rows with rfl | ⟨before, last, rfl⟩
  · rw [LineStyle.lines_nil]
    rfl
  rw [LineStyle.lines_open hopen unbroken, List.map_append, List.map_singleton]
  apply unnamed_ofLines_append
  split
  · next h =>
    subst h
    rfl
  · have hfree : EndsEscaped last → last.head? = some '#' := hlast last (by simp)
    exact unnamed_ofLines_cons (unnamed_ofLine_newline hfree).symm rfl

theorem Rule.unnamed_ofLines_lines (unbroken : ∀ row ∈ rows, row.Unbroken)
    (hlast : s.closed = s'.closed ∨ LastEndsFreely rows) :
    (ofLines (s.lines rows)).mapError RuleFault.unnamed =
      (ofLines (s'.lines rows)).mapError RuleFault.unnamed := by
  rcases hlast with hclosed | hlast
  · rw [LineStyle.lines_congr hclosed unbroken]
  have hterminated : ∀ style : LineStyle, (ofLines (style.lines rows)).mapError RuleFault.unnamed =
      (ofLines (rows.map (· ++ ['\n']))).mapError RuleFault.unnamed := by
    intro style
    rcases hclosed : style.closed with _ | _
    · exact unnamed_ofLines_open unbroken hclosed hlast
    · rw [LineStyle.lines_closed hclosed unbroken]
  rw [hterminated s, hterminated s']

/-! ### Filters -/

def LoadFault.unnamed : LoadFault → LoadFault
  | .rule fault => .rule fault.unnamed
  | fault => fault

theorem LoadFault.unnamed_mapError {α : Type} (x : Except RuleFault α) :
    (x.mapError LoadFault.rule).mapError LoadFault.unnamed =
      (x.mapError RuleFault.unnamed).mapError LoadFault.rule := by
  cases x <;> rfl

namespace PathFilter

variable {fs fs' : FileSystem} {directory : Path} {content content' : Bytes}

theorem ruleFile_eq_ok {node : Option Node}
    (h : fs.find? (directory.child ruleFileName) = .ok node) :
    ruleFile fs directory = .ok node := by
  rw [ruleFile, h]
  rfl

theorem unnamed_ofRoot (root : Path) (nested : Bool) (h : ruleLines (.file content) = .ok lines)
    (h' : ruleLines (.file content') = .ok lines')
    (hrules : (Rule.ofLines lines).mapError RuleFault.unnamed =
      (Rule.ofLines lines').mapError RuleFault.unnamed) :
    (ofRoot root nested (some (.file content))).mapError RuleFault.unnamed =
      (ofRoot root nested (some (.file content'))).mapError RuleFault.unnamed := by
  simp only [ofRoot, h, h', mapError_map, hrules]

theorem unnamed_load (f : PathFilter) (directory : Path) (h : ruleLines (.file content) = .ok lines)
    (h' : ruleLines (.file content') = .ok lines')
    (hrules : (Rule.ofLines lines).mapError RuleFault.unnamed =
      (Rule.ofLines lines').mapError RuleFault.unnamed) :
    (f.load directory (some (.file content))).mapError LoadFault.unnamed =
      (f.load directory (some (.file content'))).mapError LoadFault.unnamed := by
  unfold load
  split
  · rcases cases_of_mapError_eq hrules with ⟨rules, hok, hok'⟩ | ⟨fault, fault', he, he', heq⟩
    · simp only [h, h', hok, hok']
    · simp only [h, h', he, he']
      exact congrArg (fun fault => Except.error (LoadFault.rule fault)) heq
  · rfl

/-- Of two files with the same lines, as the rules of a root and as those of a directory below it,
either both make the same filter, or both fail in the same way. -/
theorem lineStyle_irrelevant (unbroken : ∀ row ∈ rows, row.Unbroken)
    (hlast : s.closed = s'.closed ∨ LastEndsFreely rows)
    (h : fs.find? (directory.child ruleFileName) = .ok (some (s.file rows)))
    (h' : fs'.find? (directory.child ruleFileName) = .ok (some (s'.file rows))) :
    (∀ nested, (ofDirectory fs directory nested).mapError LoadFault.unnamed =
        (ofDirectory fs' directory nested).mapError LoadFault.unnamed) ∧
      ∀ f : PathFilter, (f.loadAt fs directory).mapError LoadFault.unnamed =
        (f.loadAt fs' directory).mapError LoadFault.unnamed := by
  have hrules := Rule.unnamed_ofLines_lines unbroken hlast
  have hlines : ruleLines (s.file rows) = .ok (s.lines rows) := ruleLines_encode _
  have hlines' : ruleLines (s'.file rows) = .ok (s'.lines rows) := ruleLines_encode _
  constructor
  · intro nested
    have hroot := unnamed_ofRoot directory nested hlines hlines' hrules
    rw [ofDirectory, ofDirectory, ruleFile_eq_ok h, ruleFile_eq_ok h']
    dsimp only
    rw [LoadFault.unnamed_mapError, LoadFault.unnamed_mapError]
    exact congrArg (Except.mapError LoadFault.rule) hroot
  · intro f
    rw [loadAt, loadAt, ruleFile_eq_ok h, ruleFile_eq_ok h']
    split
    · exact unnamed_load f directory hlines hlines' hrules
    · rfl

theorem lineStyle_irrelevant_sample :
    let rows : List Text := ["gen.* \t".toList, "!gen.js".toList, [], "# \\ ".toList]
    let s : LineStyle := ⟨.both, true⟩
    let s' : LineStyle := ⟨.carriageReturn, false⟩
    let fs : FileSystem := ⟨.file ruleFileName (Utf8.encode (s.text rows)) .nil, []⟩
    let fs' : FileSystem := ⟨.file ruleFileName (Utf8.encode (s'.text rows)) .nil, []⟩
    let directory : Path := ⟨.root, []⟩
    (∀ row ∈ rows, row.Unbroken) ∧ LastEndsFreely rows ∧
      fs.find? (directory.child ruleFileName) = .ok (some (s.file rows)) ∧
      fs'.find? (directory.child ruleFileName) = .ok (some (s'.file rows)) ∧
      (∀ nested, (ofDirectory fs directory nested).mapError LoadFault.unnamed =
        (ofDirectory fs' directory nested).mapError LoadFault.unnamed) ∧
      ∀ f : PathFilter, (f.loadAt fs directory).mapError LoadFault.unnamed =
        (f.loadAt fs' directory).mapError LoadFault.unnamed := by
  intro rows s s' fs fs' directory
  have unbroken : ∀ row ∈ rows, row.Unbroken := by
    simp [rows, Text.Unbroken]
  have hlast : LastEndsFreely rows := by
    rintro row ⟨⟩ -
    rfl
  have h : fs.find? (directory.child ruleFileName) = .ok (some (s.file rows)) := rfl
  have h' : fs'.find? (directory.child ruleFileName) = .ok (some (s'.file rows)) := rfl
  exact ⟨unbroken, hlast, h, h', lineStyle_irrelevant unbroken (.inr hlast) h h'⟩

/-- A last line that ends with an escaped space names a file if nothing ends the line, and is no rule
if a line feed does. -/
theorem lineStyle_escaped :
    let rows : List Text := ["foo\\ ".toList]
    let tree (s : LineStyle) : FileSystem :=
      ⟨.file ruleFileName (Utf8.encode (s.text rows)) .nil, []⟩
    let root : Path := ⟨.root, []⟩
    (∃ f, ofDirectory (tree ⟨.lineFeed, false⟩) root true = .ok (f, []) ∧
        f.ignores (root.child "foo ".toList) false = true) ∧
      ofDirectory (tree ⟨.lineFeed, true⟩) root true =
        .error (.rule (.invalidPattern "foo\\ \n".toList)) := by
  intro rows tree root
  let f : PathFilter := { root, rootRules := (Rule.ofLines rows).toOption.getD [] }
  exact ⟨⟨f, rfl, by decide +kernel⟩, rfl⟩

end PathFilter

end Ignore

end DqlScan
