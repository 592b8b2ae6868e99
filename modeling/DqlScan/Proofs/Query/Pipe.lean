import DqlScan.Proofs.Query.Grammar
import DqlScan.Proofs.Query.Location
import Mathlib.Data.List.Lattice

/-!
# Texts with and without a pipe

A pipe in front of a text asks for the other vocabulary. No text is a query both with it and without
it, since the vocabularies share no command, and of a text that starts with a letter the first word
alone decides both (`isQuery_pipe`).
-/

namespace DqlScan

open Vocabulary Literal

/-! ### Two vocabularies -/

theorem Vocabulary.mem_shared {root transformation : List Text} {command : Text} :
    command ∈ shared root transformation ↔ command ∈ root ∧ command ∈ transformation := by
  unfold shared
  rw [List.mem_mergeSort, List.mem_filter, List.mem_eraseDups, List.contains_iff_mem]

theorem Vocabulary.checkDisjoint_eq_ok_iff {root transformation : List Text} :
    checkDisjoint root transformation = .ok () ↔ root.Disjoint transformation := by
  have hshared : shared root transformation = [] ↔ root.Disjoint transformation := by
    simp only [List.eq_nil_iff_forall_not_mem, mem_shared, not_and, List.disjoint_left]
  rw [← hshared, checkDisjoint]
  cases shared root transformation <;> simp

theorem Vocabulary.checkDisjoint_commands :
    checkDisjoint rootCommands transformationCommands = .ok () := by
  have hnone : rootCommands.eraseDups.filter (transformationCommands.contains ·) = [] := by decide
  rw [checkDisjoint, shared, hnone, List.mergeSort_nil]

theorem Vocabulary.disjoint_commands : rootCommands.Disjoint transformationCommands :=
  checkDisjoint_eq_ok_iff.mp checkDisjoint_commands

/-! ### Texts behind a pipe -/

theorem startsWith_word {commands : List Text} {word rest : Text}
    (hletters : ∀ c ∈ word, c.isAlpha = true)
    (hstop : ∀ c, rest.head? = some c → c.isAlpha = false) :
    StartsWith commands (word ++ rest) ↔ word ∈ commands := by
  rw [startsWith_iff, leadingWord_append hletters hstop]

/-- What a pipe in front makes a query is none without it. -/
theorem not_startsQuery {t : Text} (h : StartsWith transformationCommands (trimBlanks t)) :
    startsQuery t = false := by
  obtain ⟨c, rest, htrim, hletter⟩ := h.exists_cons (by decide)
  obtain ⟨w, hw, hsplit⟩ := exists_blanks t
  rw [hsplit, startsQuery_append hw, htrim, ← Bool.not_eq_true, startsQuery_letter hletter, ← htrim]
  intro hroot
  exact disjoint_commands (startsWith_iff.mp hroot) (startsWith_iff.mp h)

/-- Between delimiters and behind blanks, no text is a query both without a pipe in front and with
one. If it starts with a letter, it is one or the other by its first word, whatever comes after
that. -/
theorem isQuery_pipe (d : Delimiter) (s : Text) {w v : Text} (hw : w ⊆ blanks) (hv : v ⊆ blanks) :
    let bare := d.char :: (w ++ s ++ [d.char])
    let piped := d.char :: (w ++ pipe :: (v ++ s) ++ [d.char])
    ¬(isQuery bare = true ∧ isQuery piped = true) ∧
      ∀ word rest, s = word ++ rest → word ≠ [] → (∀ c ∈ word, c.isAlpha = true) →
        (∀ c, rest.head? = some c → c.isAlpha = false) →
        (isQuery bare = true ↔ word ∈ rootCommands) ∧
          (isQuery piped = true ↔ word ∈ transformationCommands) := by
  intro bare piped
  have hbare : isQuery bare = startsQuery s := by
    rw [isQuery_delimited, startsQuery_append hw]
  have hpiped : isQuery piped = true ↔ StartsWith transformationCommands (trimBlanks s) := by
    rw [isQuery_delimited, startsQuery_append hw, startsQuery_pipe hv]
  refine ⟨?_, ?_⟩
  · rintro ⟨h, h'⟩
    rw [hbare, not_startsQuery (hpiped.mp h')] at h
    cases h
  · rintro word rest rfl hne hletters hstop
    obtain ⟨c, letters, rfl⟩ := List.exists_cons_of_ne_nil hne
    have hletter : c.isAlpha = true := hletters c List.mem_cons_self
    have htrim : trimBlanks (c :: letters ++ rest) = c :: letters ++ rest :=
      trimBlanks_cons (not_mem_blanks hletter) _
    constructor
    · rw [hbare, List.cons_append, startsQuery_letter hletter, ← List.cons_append,
        startsWith_word hletters hstop]
    · rw [hpiped, htrim, startsWith_word hletters hstop]

/-- The text ends in a delimiter of its own, and pipes and a line feed follow its first word. -/
theorem isQuery_pipe_sample :
    let w : Text := " \u3000".toList
    let v : Text := "\n\ufeff".toList
    let s : Text := "filterOut'|\n| fetch'".toList
    w ⊆ blanks ∧ v ⊆ blanks ∧
      isQuery ('\x27' :: (w ++ s ++ ['\x27'])) = false ∧
      isQuery ('\x27' :: (w ++ pipe :: (v ++ s) ++ ['\x27'])) = true := by
  intro w v s
  have hw : w ⊆ blanks := by decide
  have hv : v ⊆ blanks := by decide
  have hletters : ("filterOut".toList).all Char.isAlpha = true := by decide
  have hstop : ∀ c, ("'|\n| fetch'".toList).head? = some c → c.isAlpha = false := by
    rintro c ⟨⟩
    rfl
  obtain ⟨hnot, hword⟩ := isQuery_pipe .apostrophe s hw hv
  have hpiped := (hword _ _ rfl (by decide) (List.all_eq_true.mp hletters) hstop).2.mpr (by decide)
  refine ⟨hw, hv, ?_, hpiped⟩
  exact Bool.eq_false_iff.mpr fun hbare => hnot ⟨hbare, hpiped⟩

end DqlScan
