import DqlScan.Proofs.Query.Grammar

/-!
# The parts of a query

A query is blanks, perhaps a pipe and blanks after it, a command, and a rest that does not go on
with a letter. A text is a query exactly if it has such parts, and it has them in one way only
(`isQuery_iff_parts`).
-/

namespace DqlScan

open Vocabulary Literal

/-! ### What a literal holds -/

def Enclosed (raw : Text) : Prop :=
  2 ≤ raw.length ∧ ∃ d ∈ Delimiter.all, raw.head? = some d.char ∧ raw.getLast? = some d.char

instance (raw : Text) : Decidable (Enclosed raw) := inferInstanceAs (Decidable (_ ∧ _))

/-- The text without the two delimiters that enclose it, if there are two. -/
def stripped (raw : Text) : Text := if Enclosed raw then raw.tail.dropLast else raw

theorem Literal.Delimiter.mem_all (d : Delimiter) : d ∈ Delimiter.all := by
  cases d <;> decide

theorem enclosed_cons {c : Char} {t : Text} :
    Enclosed (c :: t) ↔ t.getLast? = some c ∧ (Delimiter.ofChar? c).isSome := by
  constructor
  · rintro ⟨hlen, d, -, hhead, hlast⟩
    obtain rfl : c = d.char := by simpa using hhead
    have hne : t ≠ [] := by
      rintro rfl
      simp at hlen
    rw [List.getLast?_cons_of_ne_nil hne] at hlast
    exact ⟨hlast, by simp [Delimiter.ofChar?_char]⟩
  · rintro ⟨hlast, hdelimiter⟩
    obtain ⟨d, hd⟩ := Option.isSome_iff_exists.mp hdelimiter
    obtain rfl := Delimiter.ofChar?_eq_some_iff.mp hd
    have hne : t ≠ [] := by
      rintro rfl
      simp at hlast
    refine ⟨?_, d, d.mem_all, rfl, ?_⟩
    · exact Nat.succ_le_succ (List.length_pos_iff.mpr hne)
    · rw [List.getLast?_cons_of_ne_nil hne, hlast]

theorem unwrap_eq_stripped (raw : Text) : unwrap raw = stripped raw := by
  cases raw with
  | nil => rfl
  | cons c t => simp only [unwrap, stripped, enclosed_cons, List.tail_cons]

/-! ### Parts -/

/-- A reading of a text as a query. -/
structure QueryParts where
  leading : Text
  /-- The blanks after the pipe, if there is a pipe. -/
  piped : Option Text
  command : Text
  rest : Text
  deriving DecidableEq

namespace QueryParts

def trimmed (p : QueryParts) : Text :=
  match p.piped with
  | none => p.command ++ p.rest
  | some blanks => pipe :: (blanks ++ (p.command ++ p.rest))

def text (p : QueryParts) : Text := p.leading ++ p.trimmed

def commands (p : QueryParts) : List Text :=
  if p.piped.isSome then transformationCommands else rootCommands

structure Valid (p : QueryParts) : Prop where
  leading : p.leading ⊆ blanks
  piped : ∀ w, p.piped = some w → w ⊆ blanks
  command : p.command ∈ p.commands
  rest : ∀ c, p.rest.head? = some c → c.isAlpha = false

end QueryParts

theorem isAlpha_of_mem_command {word : Text}
    (h : word ∈ rootCommands ∨ word ∈ transformationCommands) :
    word ≠ [] ∧ ∀ c ∈ word, c.isAlpha = true := by
  have hall : (rootCommands ++ transformationCommands).all
      fun word => !word.isEmpty && word.all Char.isAlpha := by rfl
  have hword := List.all_eq_true.mp hall word (List.mem_append.mpr h)
  simpa using hword

theorem isQueryBody_iff_parts {t : Text} :
    IsQueryBody t ↔ ∃ p : QueryParts, p.Valid ∧ p.text = t := by
  constructor
  · intro h
    cases h with
    | @root w t hw hstart =>
      obtain ⟨word, rest, rfl, hmem, -, hstop⟩ := hstart
      exact ⟨⟨w, none, word, rest⟩, ⟨hw, nofun, hmem, hstop⟩, rfl⟩
    | @piped w v t hw hv hstart =>
      obtain ⟨word, rest, rfl, hmem, -, hstop⟩ := hstart
      refine ⟨⟨w, some v, word, rest⟩, ⟨hw, ?_, hmem, hstop⟩, rfl⟩
      rintro _ ⟨⟩
      exact hv
  · rintro ⟨⟨w, piped, word, rest⟩, valid, rfl⟩
    cases piped with
    | none =>
      have hmem : word ∈ rootCommands := valid.command
      exact .root valid.leading
        ⟨word, rest, rfl, hmem, (isAlpha_of_mem_command (.inl hmem)).2, valid.rest⟩
    | some v =>
      have hmem : word ∈ transformationCommands := valid.command
      exact .piped valid.leading (valid.piped v rfl)
        ⟨word, rest, rfl, hmem, (isAlpha_of_mem_command (.inr hmem)).2, valid.rest⟩

/-! ### Uniqueness -/

namespace QueryParts

theorem Valid.isAlpha_command {p : QueryParts} (valid : p.Valid) :
    p.command ≠ [] ∧ ∀ c ∈ p.command, c.isAlpha = true := by
  have hmem := valid.command
  unfold commands at hmem
  split at hmem
  · exact isAlpha_of_mem_command (.inr hmem)
  · exact isAlpha_of_mem_command (.inl hmem)

/-- The text from the command on starts with a letter. -/
theorem Valid.isAlpha_head {p : QueryParts} (valid : p.Valid) {c : Char}
    (h : (p.command ++ p.rest).head? = some c) : c.isAlpha = true := by
  obtain ⟨hne, hletters⟩ := valid.isAlpha_command
  obtain ⟨x, word, hcommand⟩ := List.exists_cons_of_ne_nil hne
  obtain rfl : x = c := by simpa [hcommand] using h
  exact hletters x (by simp [hcommand])

theorem Valid.not_blank_head {p : QueryParts} (valid : p.Valid) :
    ∀ c, (p.command ++ p.rest).head? = some c → c ∉ blanks := by
  intro c hc
  exact not_mem_blanks (valid.isAlpha_head hc)

theorem Valid.not_blank_trimmed {p : QueryParts} (valid : p.Valid) :
    ∀ c, p.trimmed.head? = some c → c ∉ blanks := by
  cases h : p.piped with
  | none => simpa [trimmed, h] using valid.not_blank_head
  | some v =>
    intro c hc
    obtain rfl : pipe = c := by simpa [trimmed, h] using hc
    exact pipe_not_mem_blanks

/-- A text that starts with a command has no pipe in front. -/
theorem Valid.ne_pipe {p : QueryParts} (valid : p.Valid) (t : Text) :
    p.command ++ p.rest ≠ pipe :: t := by
  intro h
  exact absurd (valid.isAlpha_head (c := pipe) (by rw [h]; rfl)) (by decide)

theorem Valid.unique {p q : QueryParts} (hp : p.Valid) (hq : q.Valid) (h : p.text = q.text) :
    p = q := by
  obtain ⟨hleading, htrimmed⟩ := Text.append_inj_of_boundary (P := (· ∈ blanks)) hp.leading
    hq.leading hp.not_blank_trimmed hq.not_blank_trimmed h
  obtain ⟨hpiped, hcommand⟩ : p.piped = q.piped ∧ p.command ++ p.rest = q.command ++ q.rest := by
    cases hv : p.piped with
    | none =>
      cases hw : q.piped with
      | none => exact ⟨rfl, by simpa only [trimmed, hv, hw] using htrimmed⟩
      | some w =>
        simp only [trimmed, hv, hw] at htrimmed
        exact absurd htrimmed (hp.ne_pipe _)
    | some v =>
      cases hw : q.piped with
      | none =>
        simp only [trimmed, hv, hw] at htrimmed
        exact absurd htrimmed.symm (hq.ne_pipe _)
      | some w =>
        simp only [trimmed, hv, hw, List.cons.injEq, true_and] at htrimmed
        obtain ⟨rfl, htail⟩ := Text.append_inj_of_boundary (P := (· ∈ blanks)) (hp.piped v hv)
          (hq.piped w hw) hp.not_blank_head hq.not_blank_head htrimmed
        exact ⟨rfl, htail⟩
  obtain ⟨hword, hrest⟩ := Text.append_inj_of_boundary (P := fun c => c.isAlpha = true)
    hp.isAlpha_command.2 hq.isAlpha_command.2 (fun c hc => by simp [hp.rest c hc])
    (fun c hc => by simp [hq.rest c hc]) hcommand
  cases p
  cases q
  simp_all

end QueryParts

/-- A literal, with or without its delimiters, is a query exactly if what it holds has the parts of
a query, and those are unique. -/
theorem isQuery_iff_parts (raw : Text) :
    (isQuery raw = true ↔ ∃ p : QueryParts, p.Valid ∧ p.text = stripped raw) ∧
      ∀ p q : QueryParts, p.Valid ∧ p.text = stripped raw → q.Valid ∧ q.text = stripped raw →
        p = q := by
  constructor
  · rw [isQuery, unwrap_eq_stripped, startsQuery_iff, isQueryBody_iff_parts]
  · rintro p q ⟨hp, htext⟩ ⟨hq, htext'⟩
    exact hp.unique hq (htext.trans htext'.symm)

/-- The command is the whole word: this one is not `filter` with a rest. -/
example : isQuery "'| filterOut x'".toList = true ∧ isQuery "'| filterX'".toList = false := by
  decide

end DqlScan
