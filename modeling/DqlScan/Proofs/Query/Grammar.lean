import DqlScan.Proofs.Literal.Escaping
import DqlScan.Query.Find
import Mathlib.Data.List.TakeWhile

/-!
# The grammar of queries

`IsQueryBody` says which texts are queries, without a search for their first word
(`startsQuery_iff`). Blanks, pipes and letters are never escaped, so what stands between delimiters
is a query exactly if the text that it writes is one (`startsQuery_escape`).
-/

namespace DqlScan

open Vocabulary Literal

def StartsWith (commands : List Text) (t : Text) : Prop :=
  ∃ word rest, t = word ++ rest ∧ word ∈ commands ∧ (∀ c ∈ word, c.isAlpha = true) ∧
    ∀ c, rest.head? = some c → c.isAlpha = false

/-- A root command behind blanks, or a transformation command behind blanks, a pipe and blanks. -/
inductive IsQueryBody : Text → Prop where
  | root {w t : Text} : w ⊆ blanks → StartsWith rootCommands t → IsQueryBody (w ++ t)
  | piped {w v t : Text} : w ⊆ blanks → v ⊆ blanks → StartsWith transformationCommands t →
      IsQueryBody (w ++ pipe :: (v ++ t))

/-! ### Blanks and words -/

theorem isAlpha_of_mem_blanks : ∀ c ∈ blanks, c.isAlpha = false := by
  have hall : (blanks.all fun c => !c.isAlpha) = true := by decide
  simpa using hall

theorem not_mem_blanks {c : Char} (h : c.isAlpha = true) : c ∉ blanks := by
  intro hc
  rw [isAlpha_of_mem_blanks c hc] at h
  cases h

theorem pipe_not_mem_blanks : pipe ∉ blanks := by decide

theorem trimBlanks_append {w : Text} (h : w ⊆ blanks) (t : Text) :
    trimBlanks (w ++ t) = trimBlanks t := by
  unfold trimBlanks
  exact List.dropWhile_append_of_pos fun c hc => by simpa using h hc

theorem trimBlanks_cons {c : Char} (h : c ∉ blanks) (t : Text) :
    trimBlanks (c :: t) = c :: t := by
  simp [trimBlanks, h]

theorem exists_blanks (t : Text) : ∃ w, w ⊆ blanks ∧ t = w ++ trimBlanks t := by
  refine ⟨t.takeWhile (· ∈ blanks), fun c hc => ?_, List.takeWhile_append_dropWhile.symm⟩
  simpa using List.mem_takeWhile_imp hc

/-- A word is as long as its letters go. -/
theorem leadingWord_append {word rest : Text} (hletters : ∀ c ∈ word, c.isAlpha = true)
    (hstop : ∀ c, rest.head? = some c → c.isAlpha = false) : leadingWord (word ++ rest) = word := by
  have hrest : rest.takeWhile Char.isAlpha = [] := by
    cases rest with
    | nil => rfl
    | cons c rest => simp [hstop c rfl]
  unfold leadingWord
  rw [List.takeWhile_append_of_pos hletters, hrest, List.append_nil]

theorem startsWith_iff {commands : List Text} {t : Text} :
    StartsWith commands t ↔ leadingWord t ∈ commands := by
  constructor
  · intro h
    obtain ⟨word, rest, rfl, hmem, hletters, hstop⟩ := h
    rwa [leadingWord_append hletters hstop]
  · intro h
    refine ⟨leadingWord t, t.dropWhile Char.isAlpha, List.takeWhile_append_dropWhile.symm, h,
      fun c hc => List.mem_takeWhile_imp hc, fun c hc => ?_⟩
    have hnot := List.head?_dropWhile_not Char.isAlpha t
    rw [hc] at hnot
    simpa using hnot

theorem StartsWith.exists_cons {commands : List Text} {t : Text} (h : StartsWith commands t)
    (hne : [] ∉ commands) : ∃ c rest, t = c :: rest ∧ c.isAlpha = true := by
  obtain ⟨word, rest, rfl, hmem, hletters, -⟩ := h
  cases word with
  | nil => exact absurd hmem hne
  | cons c word => exact ⟨c, word ++ rest, rfl, hletters c List.mem_cons_self⟩

theorem StartsWith.trimBlanks {commands : List Text} {t : Text} (h : StartsWith commands t)
    (hne : [] ∉ commands) : DqlScan.trimBlanks t = t := by
  obtain ⟨c, rest, rfl, hletter⟩ := h.exists_cons hne
  exact trimBlanks_cons (not_mem_blanks hletter) rest

/-! ### The classification -/

theorem startsQuery_cons {t : Text} {c : Char} {rest : Text} (h : trimBlanks t = c :: rest) :
    startsQuery t = true ↔
      if c = pipe then StartsWith transformationCommands (trimBlanks rest)
      else StartsWith rootCommands (c :: rest) := by
  unfold startsQuery
  rw [h]
  dsimp only
  split <;> simp [startsWith_iff]

theorem startsQuery_append {w : Text} (h : w ⊆ blanks) (t : Text) :
    startsQuery (w ++ t) = startsQuery t := by
  unfold startsQuery
  rw [trimBlanks_append h]

theorem startsQuery_pipe {v : Text} (h : v ⊆ blanks) (t : Text) :
    startsQuery (pipe :: (v ++ t)) = true ↔
      StartsWith transformationCommands (trimBlanks t) := by
  rw [startsQuery_cons (trimBlanks_cons pipe_not_mem_blanks (v ++ t)), if_pos rfl,
    trimBlanks_append h]

theorem startsQuery_letter {c : Char} (h : c.isAlpha = true) (t : Text) :
    startsQuery (c :: t) = true ↔ StartsWith rootCommands (c :: t) := by
  have hpipe : c ≠ pipe := by
    rintro rfl
    exact absurd h (by decide)
  rw [startsQuery_cons (trimBlanks_cons (not_mem_blanks h) t), if_neg hpipe]

theorem startsQuery_iff {t : Text} : startsQuery t = true ↔ IsQueryBody t := by
  constructor
  · intro h
    obtain ⟨w, hw, hsplit⟩ := exists_blanks t
    cases htrim : trimBlanks t with
    | nil =>
      unfold startsQuery at h
      rw [htrim] at h
      cases h
    | cons c rest =>
      rw [startsQuery_cons htrim] at h
      rw [hsplit, htrim]
      split at h
      · next hpipe =>
        subst hpipe
        obtain ⟨v, hv, hrest⟩ := exists_blanks rest
        rw [hrest]
        exact .piped hw hv h
      · exact .root hw h
  · intro h
    cases h with
    | @root w t hw hstart =>
      obtain ⟨c, rest, rfl, hletter⟩ := hstart.exists_cons (by decide)
      rwa [startsQuery_append hw, startsQuery_letter hletter]
    | @piped w v t hw hv hstart =>
      rw [startsQuery_append hw, startsQuery_pipe hv, hstart.trimBlanks (by decide)]
      exact hstart

instance : DecidablePred IsQueryBody := fun t =>
  decidable_of_iff (startsQuery t = true) startsQuery_iff

/-! ### Escaped texts -/

theorem escapeChar_of_blank (d : Delimiter) : ∀ c ∈ blanks, escapeChar d c = [c] := by
  have hall : (blanks.all fun c => escapeChar d c = [c]) = true := by cases d <;> decide
  simpa using hall

theorem escapeChar_of_letter (d : Delimiter) {c : Char} (h : c.isAlpha = true) :
    escapeChar d c = [c] := by
  unfold escapeChar
  rw [if_neg]
  rintro (rfl | rfl | rfl)
  · exact absurd h (by decide)
  · exact absurd h (by decide)
  · revert h
    cases d <;> decide

theorem trimBlanks_escape (d : Delimiter) (t : Text) :
    trimBlanks (escape d t) = escape d (trimBlanks t) := by
  induction t with
  | nil => rfl
  | cons c t ih =>
    by_cases hc : c ∈ blanks
    · have hself : [c] ⊆ blanks := by simpa using hc
      rw [escape_cons, escapeChar_of_blank d c hc, trimBlanks_append hself, ih]
      exact congrArg (escape d) (trimBlanks_append hself t).symm
    · rw [trimBlanks_cons hc, escape_cons]
      rcases escapeChar_cases d c with hpair | ⟨hplain, -⟩
      · rw [hpair]
        exact trimBlanks_cons (by decide) _
      · rw [hplain]
        exact trimBlanks_cons hc _

theorem leadingWord_escape (d : Delimiter) (t : Text) :
    leadingWord (escape d t) = leadingWord t := by
  unfold leadingWord
  induction t with
  | nil => rfl
  | cons c t ih =>
    rw [escape_cons]
    by_cases hc : c.isAlpha = true
    · rw [escapeChar_of_letter d hc, List.singleton_append, List.takeWhile_cons_of_pos hc,
        List.takeWhile_cons_of_pos hc, ih]
    · rw [List.takeWhile_cons_of_neg hc]
      rcases escapeChar_cases d c with hpair | ⟨hplain, -⟩
      · rw [hpair]
        exact List.takeWhile_cons_of_neg (by decide)
      · rw [hplain]
        exact List.takeWhile_cons_of_neg hc

/-- Escaping hides no command and makes none. -/
theorem startsQuery_escape (d : Delimiter) (t : Text) :
    startsQuery (escape d t) = startsQuery t := by
  have htrim := trimBlanks_escape d t
  unfold startsQuery
  cases hrest : trimBlanks t with
  | nil => rw [htrim, hrest]; rfl
  | cons c rest =>
    rw [htrim, hrest]
    have hword := leadingWord_escape d (c :: rest)
    rw [escape_cons] at hword ⊢
    rcases escapeChar_cases d c with hpair | ⟨hplain, -⟩
    · -- An escaped character is no pipe, and neither is its backslash.
      have hpipe : c ≠ pipe := by
        rintro rfl
        revert hpair
        cases d <;> decide
      rw [hpair] at hword ⊢
      simp only [List.cons_append, List.nil_append] at hword ⊢
      rw [if_neg (by decide), if_neg hpipe, hword]
    · rw [hplain] at hword ⊢
      simp only [List.cons_append, List.nil_append] at hword ⊢
      rw [hword, trimBlanks_escape, leadingWord_escape]

end DqlScan
