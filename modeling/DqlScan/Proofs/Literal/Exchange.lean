import DqlScan.Literal.Scan

/-!
# Exchanged quotation marks

The machine treats the apostrophe and the quotation mark alike. If they change places in a text, they
do so in its tokens, and nothing else changes (`tokens_swapQuotes`, `unterminated?_swapQuotes`).
-/

namespace DqlScan

/-- The apostrophe for the quotation mark, the quotation mark for the apostrophe. -/
def swapQuote (c : Char) : Char :=
  if c = '\x27' then '"' else if c = '"' then '\x27' else c

def swapQuotes (t : Text) : Text := t.map swapQuote

theorem swapQuote_cases (c : Char) :
    c = '\x27' ∧ swapQuote c = '"' ∨ c = '"' ∧ swapQuote c = '\x27' ∨
      c ≠ '\x27' ∧ c ≠ '"' ∧ swapQuote c = c := by
  unfold swapQuote
  by_cases happ : c = '\x27'
  · exact .inl ⟨happ, if_pos happ⟩
  by_cases hquote : c = '"'
  · exact .inr (.inl ⟨hquote, by rw [if_neg happ, if_pos hquote]⟩)
  · exact .inr (.inr ⟨happ, hquote, by rw [if_neg happ, if_neg hquote]⟩)

theorem swapQuote_swapQuote (c : Char) : swapQuote (swapQuote c) = c := by
  rcases swapQuote_cases c with ⟨rfl, h⟩ | ⟨rfl, h⟩ | ⟨-, -, h⟩
  · rw [h]; rfl
  · rw [h]; rfl
  · rw [h, h]

theorem swapQuote_injective : Function.Injective swapQuote :=
  Function.LeftInverse.injective swapQuote_swapQuote

/-- What does not tell one quotation mark from the other is not changed. -/
theorem swapQuote_iff {P : Char → Prop} (h : P '\x27' ↔ P '"') (c : Char) : P (swapQuote c) ↔ P c := by
  rcases swapQuote_cases c with ⟨rfl, hc⟩ | ⟨rfl, hc⟩ | ⟨-, -, hc⟩ <;> rw [hc]
  · exact h.symm
  · exact h

theorem swapQuotes_cons (c : Char) (t : Text) : swapQuotes (c :: t) = swapQuote c :: swapQuotes t :=
  rfl

theorem swapQuotes_take (t : Text) (n : Nat) : (swapQuotes t).take n = swapQuotes (t.take n) :=
  List.map_take.symm

namespace Literal

/-! ### Symbols and states -/

def Delimiter.swap : Delimiter → Delimiter
  | .apostrophe => .quotationMark
  | .quotationMark => .apostrophe
  | .backtick => .backtick

def Symbol.swap : Symbol → Symbol
  | .delimiter d => .delimiter d.swap
  | x => x

def Mode.swap : Mode → Mode
  | .single => .double
  | .double => .single
  | mode => mode

def State.swap (s : State) : State := { s with mode := s.mode.swap }

def Transition.swap (t : Transition) : Transition := { t with state := t.state.swap }

theorem Delimiter.mode_swap (d : Delimiter) : d.swap.mode = d.mode.swap := by
  cases d <;> rfl

theorem Delimiter.ofChar?_swapQuote (c : Char) : ofChar? (swapQuote c) = (ofChar? c).map swap := by
  rcases swapQuote_cases c with ⟨rfl, h⟩ | ⟨rfl, h⟩ | ⟨happ, hquote, h⟩
  · rw [h]; rfl
  · rw [h]; rfl
  · rw [h]
    rcases hd : ofChar? c with _ | d
    · rfl
    obtain rfl := ofChar?_eq_some_iff.mp hd
    -- Of the delimiters only the backtick is left, which stays what it is.
    cases d with
    | apostrophe => exact absurd rfl happ
    | quotationMark => exact absurd rfl hquote
    | backtick => rfl

theorem Symbol.ofChar_swapQuote (c : Char) : ofChar (swapQuote c) = (ofChar c).swap := by
  unfold ofChar
  rw [Delimiter.ofChar?_swapQuote]
  rcases hd : Delimiter.ofChar? c with _ | d
  · have hself : swapQuote c = c := by
      rcases swapQuote_cases c with ⟨rfl, -⟩ | ⟨rfl, -⟩ | ⟨-, -, h⟩
      · cases hd
      · cases hd
      · exact h
    rw [hself]
    dsimp only [Option.map_none]
    repeat' split
    all_goals rfl
  · rfl

theorem Mode.swap_inj {a b : Mode} : a.swap = b.swap ↔ a = b := by
  cases a <;> cases b <;> decide

theorem Mode.swap_eq_outside {mode : Mode} : mode.swap = .outside ↔ mode = .outside :=
  swap_inj (b := .outside)

theorem Symbol.swap_eq_openBrace {next : Option Symbol} :
    next.map swap = some .openBrace ↔ next = some .openBrace := by
  rcases next with _ | x
  · simp
  · cases x <;> simp [swap]

/-! ### Transitions -/

theorem stepInside_swap (s : State) (x : Symbol) (next : Option Symbol) :
    stepInside s.swap x.swap (next.map Symbol.swap) = (stepInside s x next).swap := by
  obtain ⟨mode, depth⟩ := s
  cases x with
  | delimiter d =>
    have hstep (mode : Mode) (d : Delimiter) (next : Option Symbol) :
        stepInside ⟨mode, depth⟩ (.delimiter d) next =
          if d.mode = mode then { state := {}, closes := true } else { state := ⟨mode, depth⟩ } := by
      cases mode <;> rfl
    simp only [State.swap, Symbol.swap, hstep, Delimiter.mode_swap, Mode.swap_inj]
    split <;> rfl
  | dollar =>
    cases mode with
    | template =>
      have hstep (next : Option Symbol) : stepInside ⟨.template, depth⟩ .dollar next =
          if next = some .openBrace then { state := ⟨.interpolation, 1⟩, consumed := 2 }
          else { state := ⟨.template, depth⟩ } := rfl
      simp only [State.swap, Mode.swap, Symbol.swap, hstep, Symbol.swap_eq_openBrace]
      split <;> rfl
    | _ => rfl
  | closeBrace =>
    cases mode with
    | interpolation =>
      have hstep (next : Option Symbol) : stepInside ⟨.interpolation, depth⟩ .closeBrace next =
          { state := if 0 < depth - 1 then ⟨.interpolation, depth - 1⟩ else ⟨.template, 0⟩ } := rfl
      simp only [State.swap, Mode.swap, Symbol.swap, hstep, Transition.swap]
      split <;> rfl
    | _ => rfl
  | _ => cases mode <;> rfl

theorem step_swap (s : State) (x : Symbol) (escaped : Bool) (next : Option Symbol) :
    step s.swap x.swap escaped (next.map Symbol.swap) = (step s x escaped next).swap := by
  have hinside := stepInside_swap s x next
  obtain ⟨mode, depth⟩ := s
  cases mode with
  | outside =>
    cases x with
    | delimiter d => cases d <;> rfl
    | _ => rfl
  | _ =>
    cases escaped with
    | true => rfl
    | false => exact hinside

/-! ### Scans -/

def Token.swap (token : Token) : Token := { token with text := swapQuotes token.text }

def Cursor.swap (c : Cursor) : Cursor :=
  { c with state := c.state.swap, opened := swapQuotes c.opened }

def Move.swap (m : Move) : Move :=
  { m with cursor := m.cursor.swap, token := m.token.map Token.swap }

def Unterminated.swap (u : Unterminated) : Unterminated := { u with state := u.state.swap }

theorem Cursor.advance_swap (c : Cursor) (x : Char) (rest : Text) :
    c.swap.advance (swapQuote x) (swapQuotes rest) = (c.advance x rest).swap := by
  have hnext : ((swapQuotes rest).head?.map Symbol.ofChar) =
      (rest.head?.map Symbol.ofChar).map Symbol.swap := by
    cases rest with
    | nil => rfl
    | cons y rest => exact congrArg some (Symbol.ofChar_swapQuote y)
  have hstep : step c.swap.state (.ofChar (swapQuote x)) c.swap.escaped
      ((swapQuotes rest).head?.map .ofChar) =
        (step c.state (.ofChar x) c.escaped (rest.head?.map .ofChar)).swap := by
    rw [Symbol.ofChar_swapQuote, hnext]
    exact step_swap ..
  unfold advance
  rw [hstep]
  generalize step c.state (.ofChar x) c.escaped (rest.head?.map .ofChar) = t
  have hopens : (c.swap.state.mode = .outside ∧ t.swap.state.mode ≠ .outside) ↔
      (c.state.mode = .outside ∧ t.state.mode ≠ .outside) :=
    and_congr Mode.swap_eq_outside (not_congr Mode.swap_eq_outside)
  simp only [hopens, ← swapQuotes_cons]
  by_cases h : c.state.mode = .outside ∧ t.state.mode ≠ .outside <;>
    cases hcloses : t.closes <;>
    simp [h, hcloses, Move.swap, Cursor.swap, Transition.swap, Token.swap, swapQuotes_take]

theorem scanFrom_swap (c : Cursor) (taken : Nat) (t : Text) :
    scanFrom c.swap taken (swapQuotes t) =
      ((scanFrom c taken t).1.map Token.swap, (scanFrom c taken t).2.swap) := by
  induction t generalizing c taken with
  | nil => rfl
  | cons x rest ih =>
    cases taken with
    | succ n => exact ih c n
    | zero =>
      rw [swapQuotes_cons, scanFrom, scanFrom, c.advance_swap x rest]
      generalize c.advance x rest = move
      have hlater := ih move.cursor (move.consumed - 1)
      simp only [Move.swap, hlater, List.map_append]
      rcases move.token with _ | token <;> rfl

theorem scan_swapQuotes (t : Text) :
    scan (swapQuotes t) = ((scan t).1.map Token.swap, (scan t).2.swap) := scanFrom_swap {} 0 t

theorem tokens_swapQuotes (t : Text) : tokens (swapQuotes t) = (tokens t).map Token.swap :=
  congrArg Prod.fst (scan_swapQuotes t)

theorem unterminated?_swapQuotes (t : Text) :
    unterminated? (swapQuotes t) = (unterminated? t).map Unterminated.swap := by
  unfold unterminated?
  rw [scan_swapQuotes]
  unfold Cursor.unterminated?
  by_cases h : (scan t).2.state.mode = .outside
  · rw [if_pos h]
    exact if_pos (Mode.swap_eq_outside.mpr h)
  · rw [if_neg h]
    exact if_neg (mt Mode.swap_eq_outside.mp h)

end Literal

end DqlScan
