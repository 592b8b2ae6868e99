import DqlScan.Literal.Machine

/-!
# Transitions by character

What the machine does with each character inside a literal, one statement for each kind of mode,
and the balance of depth and mode that every transition keeps.
-/

namespace DqlScan.Literal

/-- The only character with a meaning, unless that meaning is none. -/
def Symbol.char? : Symbol → Option Char
  | .delimiter d => some d.char
  | .backslash => some '\\'
  | .dollar => some '$'
  | .openBrace => some '\x7b'
  | .closeBrace => some '\x7d'
  | .ordinary => none

theorem Symbol.ofChar_eq_iff {x : Symbol} {k c : Char} (h : x.char? = some k) :
    ofChar c = x ↔ c = k := by
  constructor
  · rintro rfl
    unfold ofChar at h
    split at h
    · next d hd => simpa [char?, Delimiter.ofChar?_eq_some_iff.mp hd] using h
    · repeat' split at h
      all_goals cases h
      all_goals assumption
  · rintro rfl
    cases x with
    | delimiter d => cases h; simp
    | ordinary => cases h
    | _ => cases h; rfl

theorem step_escaped {s : State} (inside : s.mode ≠ .outside) (x : Symbol) (next : Option Symbol) :
    step s x true next = { state := s } := by
  obtain ⟨mode, depth⟩ := s
  cases mode with
  | outside => exact absurd rfl inside
  | _ => rfl

theorem step_inside {s : State} (inside : s.mode ≠ .outside) (x : Symbol) (next : Option Symbol) :
    step s x false next = stepInside s x next := by
  obtain ⟨mode, depth⟩ := s
  cases mode with
  | outside => exact absurd rfl inside
  | _ => rfl

theorem stepInside_quoted {d : Delimiter} (hd : d ≠ .backtick) (depth : Int) (c : Char)
    (next : Option Symbol) :
    stepInside ⟨d.mode, depth⟩ (.ofChar c) next =
      if c = '\\' then { state := ⟨d.mode, depth⟩, escaped := true }
      else if c = d.char then { state := {}, closes := true }
      else { state := ⟨d.mode, depth⟩ } := by
  simp only [← Symbol.ofChar_eq_iff (x := .backslash) rfl,
    ← Symbol.ofChar_eq_iff (x := .delimiter d) rfl]
  generalize Symbol.ofChar c = x
  cases x with
  | delimiter e => cases d <;> cases e <;> simp_all [stepInside, Delimiter.mode]
  | _ => cases d <;> simp_all [stepInside, Delimiter.mode]

theorem stepInside_template (depth : Int) (c : Char) (next : Option Symbol) :
    stepInside ⟨.template, depth⟩ (.ofChar c) next =
      if c = '\\' then { state := ⟨.template, depth⟩, escaped := true }
      else if c = Delimiter.backtick.char then { state := {}, closes := true }
      else if c = '$' ∧ next = some .openBrace then { state := ⟨.interpolation, 1⟩, consumed := 2 }
      else { state := ⟨.template, depth⟩ } := by
  simp only [← Symbol.ofChar_eq_iff (x := .backslash) rfl,
    ← Symbol.ofChar_eq_iff (x := .delimiter .backtick) rfl,
    ← Symbol.ofChar_eq_iff (x := .dollar) rfl]
  generalize Symbol.ofChar c = x
  cases x with
  | delimiter e => cases e <;> simp [stepInside, Delimiter.mode]
  | _ => simp [stepInside]

theorem stepInside_interpolation (depth : Int) (c : Char) (next : Option Symbol) :
    stepInside ⟨.interpolation, depth⟩ (.ofChar c) next =
      if c = '\\' then { state := ⟨.interpolation, depth⟩, escaped := true }
      else if c = '\x7b' then { state := ⟨.interpolation, depth + 1⟩ }
      else if c = '\x7d' then
        { state := if 0 < depth - 1 then ⟨.interpolation, depth - 1⟩ else ⟨.template, 0⟩ }
      else { state := ⟨.interpolation, depth⟩ } := by
  simp only [← Symbol.ofChar_eq_iff (x := .backslash) rfl,
    ← Symbol.ofChar_eq_iff (x := .openBrace) rfl, ← Symbol.ofChar_eq_iff (x := .closeBrace) rfl]
  generalize Symbol.ofChar c = x
  cases x with
  | delimiter e => cases e <;> simp [stepInside, Delimiter.mode]
  | _ => simp [stepInside]

/-- A literal ends at an unescaped delimiter of its own kind, whatever follows. -/
theorem step_closes_iff {s : State} (inside : s.mode ≠ .outside) {x : Symbol} {escaped : Bool}
    {next : Option Symbol} :
    (step s x escaped next).closes ↔
      escaped = false ∧ ∃ d : Delimiter, x = .delimiter d ∧ d.mode = s.mode := by
  cases escaped with
  | true => simp [step_escaped inside]
  | false =>
    rw [step_inside inside]
    obtain ⟨mode, depth⟩ := s
    cases x with
    | delimiter d =>
      have hd : stepInside ⟨mode, depth⟩ (.delimiter d) next =
          if d.mode = mode then { state := {}, closes := true }
          else { state := ⟨mode, depth⟩ } := by
        cases mode <;> rfl
      rw [hd]
      by_cases h : d.mode = mode <;> simp [h]
    | dollar =>
      cases mode with
      | template => by_cases h : next = some .openBrace <;> simp [stepInside, h]
      | _ => simp [stepInside]
    | _ => cases mode <;> simp [stepInside]

/-! ### Balance -/

/-- The depth is that of the mode: at least one brace is open in an interpolation, none outside. -/
def State.Balanced (s : State) : Prop :=
  if s.mode = .interpolation then 0 < s.depth else s.depth = 0

theorem balanced_outside : State.Balanced {} := by
  simp [State.Balanced]

theorem balanced_mode (d : Delimiter) : State.Balanced ⟨d.mode, 0⟩ := by
  cases d <;> simp [State.Balanced, Delimiter.mode]

theorem stepInside_balanced {s : State} (h : s.Balanced) (x : Symbol) (next : Option Symbol) :
    (stepInside s x next).state.Balanced := by
  unfold stepInside
  split
  · exact h
  · split
    · simp [State.Balanced]
    · exact h
  · next hm =>
    simp only [State.Balanced, hm, if_true] at h ⊢
    omega
  · dsimp only
    split
    · next hd => simpa only [State.Balanced, if_true] using hd
    · simp [State.Balanced]
  · split
    · exact balanced_outside
    · exact h
  · exact h

theorem step_balanced {s : State} (h : s.Balanced) (x : Symbol) (escaped : Bool)
    (next : Option Symbol) : (step s x escaped next).state.Balanced := by
  unfold step
  split
  · exact balanced_mode _
  · exact h
  · split
    · exact h
    · exact stepInside_balanced h _ _

theorem stepInside_leaves {s : State} (inside : s.mode ≠ .outside) (x : Symbol)
    (next : Option Symbol) :
    stepInside s x next = { state := {}, closes := true } ∨
      (stepInside s x next).closes = false ∧ (stepInside s x next).state.mode ≠ .outside := by
  unfold stepInside
  split
  · exact .inr ⟨rfl, inside⟩
  · split
    · exact .inr ⟨rfl, by simp⟩
    · exact .inr ⟨rfl, inside⟩
  · exact .inr ⟨rfl, by simp⟩
  · refine .inr ⟨rfl, ?_⟩
    dsimp only
    split <;> simp
  · split
    · exact .inl rfl
    · exact .inr ⟨rfl, inside⟩
  · exact .inr ⟨rfl, inside⟩

theorem step_leaves {s : State} (inside : s.mode ≠ .outside) (x : Symbol) (escaped : Bool)
    (next : Option Symbol) :
    step s x escaped next = { state := {}, closes := true } ∨
      (step s x escaped next).closes = false ∧ (step s x escaped next).state.mode ≠ .outside := by
  cases escaped with
  | true => exact .inr (by rw [step_escaped inside]; exact ⟨rfl, inside⟩)
  | false =>
    rw [step_inside inside]
    exact stepInside_leaves inside x next

/-- Only a dollar sign takes the symbol after it along, and only if there is one. -/
theorem step_consumed (s : State) (x : Symbol) (escaped : Bool) (next : Option Symbol) :
    (step s x escaped next).consumed = 1 ∨
      (step s x escaped next).consumed = 2 ∧ next = some .openBrace := by
  unfold step
  split
  · exact .inl rfl
  · exact .inl rfl
  · split
    · exact .inl rfl
    · unfold stepInside
      split
      · exact .inl rfl
      · split
        · next h => exact .inr ⟨rfl, h⟩
        · exact .inl rfl
      · exact .inl rfl
      · exact .inl rfl
      · split <;> exact .inl rfl
      · exact .inl rfl

/-- A transition takes its character and the first part of the text after it. -/
theorem step_reads (s : State) (x : Symbol) (escaped : Bool) (rest : Text) :
    ∃ u later, rest = u ++ later ∧
      (step s x escaped (rest.head?.map .ofChar)).consumed = u.length + 1 := by
  rcases step_consumed s x escaped (rest.head?.map .ofChar) with one | ⟨two, hnext⟩
  · exact ⟨[], rest, rfl, one⟩
  · cases rest with
    | nil => simp at hnext
    | cons y later => exact ⟨[y], later, rfl, two⟩

/-- The symbol after a dollar sign matters, and only if it is an opening brace. -/
theorem step_next (s : State) {x : Symbol} (escaped : Bool) {next next' : Option Symbol}
    (h : x = .dollar → (next = some .openBrace ↔ next' = some .openBrace)) :
    step s x escaped next = step s x escaped next' := by
  obtain ⟨mode, depth⟩ := s
  cases x with
  | dollar => cases mode <;> simp [step, stepInside, h rfl]
  | delimiter d => cases mode <;> rfl
  | _ => cases mode <;> rfl

/-! ### One character inside a literal -/

def Mode.delimiter? : Mode → Option Delimiter
  | .outside => none
  | .single => some .apostrophe
  | .double => some .quotationMark
  | .template | .interpolation => some .backtick

theorem Delimiter.delimiter?_mode (d : Delimiter) : d.mode.delimiter? = some d := by
  cases d <;> rfl

/-- What a character inside a literal may do, by whether it is escaped. -/
inductive StepsInside (s : State) (x : Char) (next : Option Symbol) : Bool → Transition → Prop where
  | escaped : StepsInside s x next true { state := s }
  | backslash : x = '\\' → StepsInside s x next false { state := s, escaped := true }
  | close {d : Delimiter} : x = d.char → s.mode = d.mode →
      StepsInside s x next false { state := {}, closes := true }
  | interpolate : x = '$' → next = some .openBrace → s.mode = .template →
      StepsInside s x next false { state := ⟨.interpolation, 1⟩, consumed := 2 }
  | openBrace : x = '\x7b' → s.mode = .interpolation →
      StepsInside s x next false { state := ⟨.interpolation, s.depth + 1⟩ }
  | closeBrace : x = '\x7d' → s.mode = .interpolation →
      StepsInside s x next false
        { state := if 0 < s.depth - 1 then ⟨.interpolation, s.depth - 1⟩ else ⟨.template, 0⟩ }
  | plain : x ≠ '\\' → (s.mode = .interpolation → x ≠ '\x7b' ∧ x ≠ '\x7d') →
      StepsInside s x next false { state := s }

theorem stepsInside_quoted {d : Delimiter} (hd : d ≠ .backtick) (depth : Int) (x : Char)
    (next : Option Symbol) :
    StepsInside ⟨d.mode, depth⟩ x next false (stepInside ⟨d.mode, depth⟩ (.ofChar x) next) := by
  rw [stepInside_quoted hd]
  split
  · next hx => exact .backslash hx
  split
  · next hx => exact .close hx rfl
  · next hx _ =>
    apply StepsInside.plain hx
    intro hmode
    cases d <;> cases hmode

theorem stepsInside_step {s : State} (inside : s.mode ≠ .outside) (x : Char) (escaped : Bool)
    (next : Option Symbol) : StepsInside s x next escaped (step s (.ofChar x) escaped next) := by
  cases escaped with
  | true =>
    rw [step_escaped inside]
    exact .escaped
  | false =>
    rw [step_inside inside]
    obtain ⟨mode, depth⟩ := s
    cases mode with
    | outside => exact absurd rfl inside
    | single => exact stepsInside_quoted (d := .apostrophe) (by decide) depth x next
    | double => exact stepsInside_quoted (d := .quotationMark) (by decide) depth x next
    | template =>
      rw [stepInside_template]
      split
      · next hx => exact .backslash hx
      split
      · next hx => exact .close hx rfl
      split
      · next hx => exact .interpolate hx.1 hx.2 rfl
      · next hx _ _ => exact .plain hx nofun
    | interpolation =>
      rw [stepInside_interpolation]
      split
      · next hx => exact .backslash hx
      split
      · next hx => exact .openBrace hx rfl
      split
      · next hx => exact .closeBrace hx rfl
      · next hx hopen hclose => exact .plain hx fun _ => ⟨hopen, hclose⟩

end DqlScan.Literal
