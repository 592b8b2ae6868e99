import DqlScan.Proofs.Literal.Grammar
import DqlScan.Proofs.Literal.Transition

/-!
# Closing a literal

The grammar of what closes a literal moves with the machine: `closes_cons` reads one character as
`step` does. It follows that nothing after a literal can belong to it (`closes_append`).
-/

namespace DqlScan.Literal

theorem closes_cons_quoted {d : Delimiter} (hd : d ≠ .backtick) {c : Char} {v : Text}
    {t : Transition} (ht : stepInside ⟨d.mode, 0⟩ (.ofChar c) (v.head?.map .ofChar) = t) :
    Closes ⟨d.mode, 0⟩ false (c :: v) ↔
      if t.closes then v = [] else Closes t.state t.escaped (v.drop (t.consumed - 1)) := by
  have hb : d.char ≠ '\\' := by cases d <;> decide
  have hend : (State.mk d.mode 0).End = QuotedEnd d := by
    cases d with
    | backtick => exact absurd rfl hd
    | _ => rfl
  rw [stepInside_quoted hd] at ht
  subst ht
  simp only [Closes, hend]
  by_cases h₁ : c = '\\'
  · subst h₁
    simpa [Closes, hend] using quotedEnd_pair hb
  · by_cases h₂ : c = d.char
    · subst h₂
      simpa [h₁] using quotedEnd_close hb
    · simpa [h₁, h₂, Closes, hend] using quotedEnd_plain h₂ h₁

theorem closes_cons_template {c : Char} {v : Text} {t : Transition}
    (ht : stepInside ⟨.template, 0⟩ (.ofChar c) (v.head?.map .ofChar) = t) :
    Closes ⟨.template, 0⟩ false (c :: v) ↔
      if t.closes then v = [] else Closes t.state t.escaped (v.drop (t.consumed - 1)) := by
  have hend : (State.mk .template 0).End = TemplateEnd 0 := rfl
  have hbrace : v.head?.map Symbol.ofChar = some .openBrace ↔ v.head? = some '\x7b' := by
    cases v with
    | nil => simp
    | cons y w => simp [Symbol.ofChar_eq_iff (x := .openBrace) rfl]
  rw [stepInside_template] at ht
  simp only [hbrace] at ht
  subst ht
  simp only [Closes, hend]
  by_cases h₁ : c = '\\'
  · subst h₁
    simpa [Closes, hend] using templateEnd_pair
  · by_cases h₂ : c = Delimiter.backtick.char
    · subst h₂
      simpa [h₁] using templateEnd_backtick
    · by_cases h₃ : c = '$' ∧ v.head? = some '\x7b'
      · obtain ⟨rfl, h₃⟩ := h₃
        obtain ⟨w, rfl⟩ := List.head?_eq_some_iff.mp h₃
        simpa [h₂, Closes, State.End] using templateEnd_interpolation
      · simpa [h₁, h₂, h₃, Closes, hend] using templateEnd_plain h₂ h₁ h₃

theorem closes_cons_interpolation {depth : Int} (hd : 0 < depth) {c : Char} {v : Text}
    {t : Transition}
    (ht : stepInside ⟨.interpolation, depth⟩ (.ofChar c) (v.head?.map .ofChar) = t) :
    Closes ⟨.interpolation, depth⟩ false (c :: v) ↔
      if t.closes then v = [] else Closes t.state t.escaped (v.drop (t.consumed - 1)) := by
  obtain ⟨n, rfl⟩ : ∃ n : Nat, depth = n + 1 := ⟨(depth - 1).toNat, by omega⟩
  rw [stepInside_interpolation] at ht
  subst ht
  have hn : ∀ k : Nat, ((k : Int) + 1 + 1).toNat = k + 2 := by omega
  by_cases h₁ : c = '\\'
  · subst h₁
    simpa [Closes, State.End] using templateEnd_pair
  · by_cases h₂ : c = '\x7b'
    · subst h₂
      simpa [Closes, State.End, hn] using templateEnd_openBrace
    · by_cases h₃ : c = '\x7d'
      · subst h₃
        -- The last brace leads back to the template, which is the end of depth zero.
        cases n with
        | zero => simpa [Closes, State.End] using templateEnd_closeBrace
        | succ n => simpa [Closes, State.End, hn] using templateEnd_closeBrace
      · simpa [h₁, h₂, h₃, Closes, State.End] using templateEnd_plain_succ h₂ h₃ h₁

theorem closes_cons {s : State} (inside : s.mode ≠ .outside) (balanced : s.Balanced)
    {escaped : Bool} {c : Char} {v : Text} {t : Transition}
    (ht : step s (.ofChar c) escaped (v.head?.map .ofChar) = t) :
    Closes s escaped (c :: v) ↔
      if t.closes then v = [] else Closes t.state t.escaped (v.drop (t.consumed - 1)) := by
  cases escaped with
  | true =>
    rw [step_escaped inside] at ht
    subst ht
    simpa using closes_true_cons
  | false =>
    rw [step_inside inside] at ht
    obtain ⟨mode, depth⟩ := s
    cases mode with
    | outside => exact absurd rfl inside
    | single =>
      obtain rfl : depth = 0 := by simpa [State.Balanced] using balanced
      exact closes_cons_quoted (d := .apostrophe) (by decide) ht
    | double =>
      obtain rfl : depth = 0 := by simpa [State.Balanced] using balanced
      exact closes_cons_quoted (d := .quotationMark) (by decide) ht
    | template =>
      obtain rfl : depth = 0 := by simpa [State.Balanced] using balanced
      exact closes_cons_template ht
    | interpolation => exact closes_cons_interpolation (by simpa [State.Balanced] using balanced) ht

theorem not_closes_nil {s : State} {escaped : Bool} : ¬Closes s escaped [] := by
  cases escaped with
  | true =>
    intro h
    obtain ⟨x, w, h, _⟩ := h
    exact absurd h (by simp)
  | false =>
    obtain ⟨mode, depth⟩ := s
    cases mode with
    | outside => exact id
    | single => exact not_quotedEnd_nil
    | double => exact not_quotedEnd_nil
    | template => exact not_templateEnd_nil
    | interpolation => exact not_templateEnd_nil

/-! ### Runs -/

def Transition.closing : Transition := { state := {}, closes := true }

/-- The first character of a text that closes a literal either ends it, and the text, or leads to
a state in which what the transition leaves of the text closes the literal. In both cases it does
so whatever follows the text. -/
theorem closes_cons_cases {s : State} (inside : s.mode ≠ .outside) (balanced : s.Balanced)
    {escaped : Bool} {c : Char} {v : Text} (h : Closes s escaped (c :: v)) :
    (v = [] ∧ ∀ next, step s (.ofChar c) escaped next = .closing) ∨
      ∃ (t : Transition) (u w : Text), v = u ++ w ∧ t.consumed = u.length + 1 ∧
        (∀ r, step s (.ofChar c) escaped ((v ++ r).head?.map .ofChar) = t) ∧
        t.closes = false ∧ t.state.mode ≠ .outside ∧ t.state.Balanced ∧
        Closes t.state t.escaped w := by
  have hstep := (closes_cons inside balanced rfl).mp h
  rcases step_leaves inside (.ofChar c) escaped (v.head?.map .ofChar) with closing | ⟨open', stays⟩
  · left
    rw [closing, if_pos rfl] at hstep
    refine ⟨hstep, fun next => ?_⟩
    have closes : (step s (.ofChar c) escaped next).closes :=
      (step_closes_iff inside).mpr ((step_closes_iff inside).mp (by rw [closing]))
    rcases step_leaves inside (.ofChar c) escaped next with closing | ⟨open', _⟩
    · exact closing
    · rw [closes] at open'
      cases open'
  · right
    rw [if_neg (by simp [open'])] at hstep
    obtain ⟨y, rest, rfl⟩ : ∃ y rest, v = y :: rest := by
      cases v with
      | nil => exact absurd (by simpa using hstep) not_closes_nil
      | cons y rest => exact ⟨y, rest, rfl⟩
    generalize ht : step s (.ofChar c) escaped ((y :: rest).head?.map .ofChar) = t at *
    have hb : t.state.Balanced := by
      rw [← ht]
      exact step_balanced balanced _ _ _
    obtain ⟨u, w, hsplit, consumed⟩ := step_reads s (.ofChar c) escaped (y :: rest)
    rw [ht] at consumed
    refine ⟨t, u, w, hsplit, consumed, fun _ => ht, open', stays, hb, ?_⟩
    rw [hsplit, consumed] at hstep
    simpa using hstep

/-- A transition that ends nothing leads to no end that was out of reach before. -/
theorem closes_of_step {s : State} (inside : s.mode ≠ .outside) (balanced : s.Balanced)
    {escaped : Bool} {c : Char} {rest v : Text} {t : Transition}
    (ht : step s (.ofChar c) escaped (rest.head?.map .ofChar) = t) (open' : t.closes = false)
    (hv : v <+: rest.drop (t.consumed - 1)) (h : Closes t.state t.escaped v) :
    ∃ u, u <+: c :: rest ∧ Closes s escaped u := by
  have hne : v ≠ [] := by
    rintro rfl
    exact not_closes_nil h
  obtain ⟨u, later, rfl, hlen⟩ := step_reads s (.ofChar c) escaped rest
  rw [ht] at hlen
  obtain ⟨z, rfl⟩ : v <+: later := by simpa [hlen] using hv
  have hhead : (u ++ v).head? = (u ++ (v ++ z)).head? := by
    obtain ⟨y, w, rfl⟩ := List.exists_cons_of_ne_nil hne
    simp [List.head?_append]
  refine ⟨c :: (u ++ v), ⟨z, by simp⟩, ?_⟩
  rw [← hhead] at ht
  rw [closes_cons inside balanced ht, if_neg (by simp [open']), hlen]
  simpa using h

theorem closes_append {s : State} (inside : s.mode ≠ .outside) (balanced : s.Balanced)
    {escaped : Bool} {v r : Text} (h : Closes s escaped v) (hr : Closes s escaped (v ++ r)) :
    r = [] := by
  induction hn : v.length using Nat.strongRecOn generalizing s escaped v with
  | ind n ih =>
    cases v with
    | nil => exact absurd h not_closes_nil
    | cons c v =>
      rw [List.cons_append] at hr
      have hr' := (closes_cons inside balanced rfl).mp hr
      rcases closes_cons_cases inside balanced h with
        ⟨rfl, closing⟩ | ⟨t, u, w, rfl, consumed, ht, open', stays, hb, hw⟩
      · rw [closing] at hr'
        simpa [Transition.closing] using hr'
      · rw [ht r, if_neg (by simp [open']), consumed] at hr'
        simp only [Nat.add_sub_cancel, List.append_assoc, List.drop_left] at hr'
        exact ih w.length (by simp at hn; omega) stays hb hw hr' rfl

end DqlScan.Literal
