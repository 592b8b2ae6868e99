import DqlScan.Literal.Scan
import DqlScan.Proofs.Literal.Transition
import Mathlib.Data.List.Range
import Mathlib.Logic.Relation

/-!
# Points of a scan

A scan makes one transition after another. At each point between two of them the mode, the escape
and the depth are what the text between the opening delimiter and the point says they are
(`scan_invariant`).
-/

namespace DqlScan.Literal

/-! ### Backslashes and braces of a text -/

def backslashes (t : Text) : Nat := (t.reverse.takeWhile (· = '\\')).length

theorem backslashes_concat (t : Text) (x : Char) :
    backslashes (t ++ [x]) = if x = '\\' then backslashes t + 1 else 0 := by
  unfold backslashes
  rw [List.reverse_append, List.reverse_singleton, List.singleton_append, List.takeWhile_cons]
  by_cases hx : x = '\\' <;> simp [hx]

/-- The text of a literal that is opened at `start`, from behind its delimiter up to `stop`. -/
def inner (content : Text) (start stop : Nat) : Text := content.extract (start + 1) stop

theorem inner_self (content : Text) (start : Nat) : inner content start (start + 1) = [] := by
  simp [inner]

theorem inner_succ {content : Text} {start stop : Nat} {x : Char} (h : start < stop)
    (hx : content[stop]? = some x) :
    inner content start (stop + 1) = inner content start stop ++ [x] := by
  have hlen : stop + 1 - (start + 1) = stop - (start + 1) + 1 := by omega
  have hat : (content.drop (start + 1))[stop - (start + 1)]? = some x := by
    rw [List.getElem?_drop, show start + 1 + (stop - (start + 1)) = stop by omega, hx]
  unfold inner
  rw [List.extract_eq_take_drop, List.extract_eq_take_drop, hlen, List.take_add_one, hat]
  rfl

/-- How often `x` stands between two offsets with no odd run of backslashes before it. -/
def countPlain (content : Text) (start : Nat) (x : Char) (first stop : Nat) : Nat :=
  (List.range' first (stop - first)).countP fun i =>
    content[i]? = some x ∧ backslashes (inner content start i) % 2 = 0

theorem countPlain_self (content : Text) (start : Nat) (x : Char) (first : Nat) :
    countPlain content start x first first = 0 := by
  simp [countPlain]

theorem countPlain_succ {content : Text} {start first stop : Nat} {x y : Char}
    (h : first ≤ stop) (hy : content[stop]? = some y) :
    countPlain content start x first (stop + 1) = countPlain content start x first stop +
      if y = x ∧ backslashes (inner content start stop) % 2 = 0 then 1 else 0 := by
  unfold countPlain
  rw [show stop + 1 - first = stop - first + 1 by omega, List.range'_concat, List.countP_append,
    List.countP_singleton, show first + 1 * (stop - first) = stop by omega, hy]
  simp

/-! ### Points -/

inductive Turn (content : Text) : Cursor → Cursor → Prop where
  | read {c : Cursor} {x : Char} {rest : Text} : content.drop c.offset = x :: rest →
      Turn content c (c.advance x rest).cursor

def Reached (content : Text) : Cursor → Prop := Relation.ReflTransGen (Turn content) {}

/-- The interpolation that the cursor stands in was opened at `offset`: a transition from a
template begins there, and the scan has not left the interpolation since. -/
def OpenedAt (content : Text) (offset : Nat) (c : Cursor) : Prop :=
  ∃ before first, Reached content before ∧ before.state.mode = .template ∧ before.offset = offset ∧
    Turn content before first ∧ first.state.mode = .interpolation ∧
    Relation.ReflTransGen (fun a b => Turn content a b ∧ b.state.mode = .interpolation) first c

theorem OpenedAt.turn {content : Text} {offset : Nat} {c c' : Cursor}
    (h : OpenedAt content offset c) (turn : Turn content c c')
    (hmode : c'.state.mode = .interpolation) : OpenedAt content offset c' := by
  obtain ⟨before, first, reached, template, at', opens, interpolation, within⟩ := h
  exact ⟨before, first, reached, template, at', opens, interpolation, within.tail ⟨turn, hmode⟩⟩

theorem drop_succ {content rest : Text} {n : Nat} {x : Char} (h : content.drop n = x :: rest) :
    content[n]? = some x ∧ content.drop (n + 1) = rest := by
  constructor
  · rw [← List.head?_drop, h]
    rfl
  · rw [← List.drop_drop, h]
    rfl

theorem advance_offset {content : Text} {c : Cursor} {x : Char} {rest : Text}
    (h : content.drop c.offset = x :: rest) :
    rest.drop ((c.advance x rest).consumed - 1) =
      content.drop (c.advance x rest).cursor.offset := by
  have hone : 1 ≤ (c.advance x rest).consumed := by
    rcases step_consumed c.state (.ofChar x) c.escaped (rest.head?.map .ofChar) with h | h
    · exact h.ge
    · exact Nat.le_of_succ_le h.1.ge
  show rest.drop ((c.advance x rest).consumed - 1) =
    content.drop (c.offset + (c.advance x rest).consumed)
  generalize (c.advance x rest).consumed = n at hone
  rw [← (drop_succ h).2, List.drop_drop, show c.offset + 1 + (n - 1) = c.offset + n by omega]

/-- What a scan yields from a point on, it yields from the next one on behind one more token. -/
theorem Turn.scanFrom_eq {content : Text} {c c' : Cursor} (h : Turn content c c') :
    ∃ token : Option Token, scanFrom c 0 (content.drop c.offset) =
      (token.toList ++ (scanFrom c' 0 (content.drop c'.offset)).1,
        (scanFrom c' 0 (content.drop c'.offset)).2) := by
  obtain ⟨hdrop⟩ := h
  next x rest =>
  refine ⟨(c.advance x rest).token, ?_⟩
  rw [hdrop, scanFrom, scanFrom_taken, advance_offset hdrop]

theorem Reached.scan_eq {content : Text} {c : Cursor} (h : Reached content c) :
    ∃ earlier, scan content =
      (earlier ++ (scanFrom c 0 (content.drop c.offset)).1,
        (scanFrom c 0 (content.drop c.offset)).2) := by
  induction h with
  | refl => exact ⟨[], rfl⟩
  | tail _ turn ih =>
    obtain ⟨earlier, hscan⟩ := ih
    obtain ⟨token, hturn⟩ := turn.scanFrom_eq
    refine ⟨earlier ++ token.toList, ?_⟩
    rw [hscan, hturn, List.append_assoc]

theorem Reached.turn {content : Text} {c c' : Cursor} (h : Reached content c)
    (turn : Turn content c c') : Reached content c' :=
  Relation.ReflTransGen.tail h turn

theorem Turn.offset_lt {content : Text} {c c' : Cursor} (h : Turn content c c') :
    c.offset < c'.offset ∧ c.offset < content.length := by
  obtain ⟨hdrop⟩ := h
  next x rest =>
  have hlen := congrArg List.length hdrop
  rw [List.length_drop, List.length_cons] at hlen
  refine ⟨?_, by omega⟩
  show c.offset < c.offset + (step c.state (.ofChar x) c.escaped (rest.head?.map .ofChar)).consumed
  rcases step_consumed c.state (.ofChar x) c.escaped (rest.head?.map .ofChar) with h | h <;> omega

/-- The cursor at the end of a scan is the last point of it. -/
theorem reached_scan (content : Text) : Reached content (scan content).2 := by
  have hend : ∀ c, Reached content c →
      Reached content (scanFrom c 0 (content.drop c.offset)).2 := by
    intro c hc
    induction hn : content.length - c.offset using Nat.strongRecOn generalizing c with
    | ind n ih =>
      cases hdrop : content.drop c.offset with
      | nil => exact hc
      | cons x rest =>
        have turn : Turn content c (c.advance x rest).cursor := .read hdrop
        obtain ⟨token, hscan⟩ := turn.scanFrom_eq
        obtain ⟨hlt, hlen⟩ := turn.offset_lt
        rw [← hdrop, hscan]
        exact ih _ (by omega) _ (hc.turn turn) rfl
  exact hend {} .refl

/-! ### The invariant -/

/-- What the text says about a cursor. -/
structure Cursor.Sound (content : Text) (c : Cursor) : Prop where
  offset : c.offset ≤ content.length
  outside : c.state.mode = .outside → c.escaped = false ∧ c.state.depth = 0
  delimiter : c.state.mode ≠ .outside → c.start < c.offset ∧
    ∃ d, c.state.mode.delimiter? = some d ∧ content[c.start]? = some d.char
  escaped : c.state.mode ≠ .outside →
    (c.escaped = true ↔ backslashes (inner content c.start c.offset) % 2 = 1)
  balanced : c.state.Balanced
  braces : c.state.mode = .interpolation → ∃ offset, OpenedAt content offset c ∧
    offset + 2 ≤ c.offset ∧ ['$', '\x7b'] <+: content.drop offset ∧
    c.state.depth = 1 + countPlain content c.start '\x7b' (offset + 2) c.offset -
      countPlain content c.start '\x7d' (offset + 2) c.offset

theorem sound_start (content : Text) : Cursor.Sound content {} where
  offset := Nat.zero_le _
  outside _ := ⟨rfl, rfl⟩
  delimiter inside := absurd rfl inside
  escaped inside := absurd rfl inside
  balanced := balanced_outside
  braces := nofun

/-- What a character that neither opens nor closes a literal or an interpolation keeps. -/
theorem Cursor.Sound.next {content : Text} {c c' : Cursor} (sound : c.Sound content)
    (inside : c.state.mode ≠ .outside) (turn : Turn content c c') {x : Char}
    (hx : content[c.offset]? = some x) (start : c'.start = c.start)
    (offset : c'.offset = c.offset + 1)
    (delimiter : c'.state.mode.delimiter? = c.state.mode.delimiter?)
    (escaped : c'.escaped = true ↔ c.escaped = false ∧ x = '\\') (balanced : c'.state.Balanced)
    (depth : c'.state.mode = .interpolation → c.state.mode = .interpolation ∧
      c'.state.depth = c.state.depth + (if x = '\x7b' ∧ c.escaped = false then 1 else 0) -
        (if x = '\x7d' ∧ c.escaped = false then 1 else 0)) : c'.Sound content := by
  obtain ⟨hlt, hstart⟩ := sound.delimiter inside
  have heven : c.escaped = false ↔ backslashes (inner content c.start c.offset) % 2 = 0 := by
    have hodd := sound.escaped inside
    cases h : c.escaped <;> simp [h] at hodd ⊢ <;> omega
  have hinside : c'.state.mode ≠ .outside := by
    intro h
    obtain ⟨d, hd, -⟩ := hstart
    rw [← delimiter, h] at hd
    cases hd
  refine ⟨?_, fun h => absurd h hinside, fun _ => ?_, fun _ => ?_, balanced, fun hmode => ?_⟩
  · have := turn.offset_lt
    omega
  · rw [start, offset, delimiter]
    exact ⟨by omega, hstart⟩
  · rw [start, offset, inner_succ hlt hx, backslashes_concat, escaped, heven]
    by_cases h : x = '\\'
    · simp only [h, and_true, if_true]
      omega
    · simp [h]
  · obtain ⟨hbefore, hdepth⟩ := depth hmode
    obtain ⟨p, opened, hle, hprefix, hcount⟩ := sound.braces hbefore
    refine ⟨p, opened.turn turn hmode, by omega, hprefix, ?_⟩
    rw [hdepth, hcount, start, offset, countPlain_succ hle hx, countPlain_succ hle hx]
    simp only [heven]
    split
    · split <;> omega
    · split <;> omega

theorem advance_inside {c : Cursor} (inside : c.state.mode ≠ .outside) {x : Char} {rest : Text}
    {t : Transition} (ht : step c.state (.ofChar x) c.escaped (rest.head?.map .ofChar) = t) :
    (c.advance x rest).cursor =
      ⟨t.state, t.escaped, c.start, c.opened, c.offset + t.consumed⟩ := by
  subst ht
  simp [Cursor.advance, inside]

theorem advance_outside {c : Cursor} (outside : c.state.mode = .outside) (x : Char)
    (rest : Text) :
    (∃ d : Delimiter, x = d.char ∧ (c.advance x rest).cursor =
        ⟨⟨d.mode, 0⟩, false, c.offset, x :: rest, c.offset + 1⟩) ∨
      (c.advance x rest).cursor = ⟨c.state, false, c.start, c.opened, c.offset + 1⟩ := by
  obtain ⟨⟨mode, depth⟩, escaped, start, opened, offset⟩ := c
  cases outside
  cases hx : Symbol.ofChar x with
  | delimiter d =>
    refine .inl ⟨d, Symbol.ofChar_eq_delimiter_iff.mp hx, ?_⟩
    have hmode : d.mode ≠ .outside := by cases d <;> decide
    simp [Cursor.advance, step, hx, hmode]
  | _ => exact .inr (by simp [Cursor.advance, step, hx])

theorem Turn.sound_of_outside {content : Text} {c c' : Cursor} (turn : Turn content c c')
    (sound : c.Sound content) (outside : c.state.mode = .outside) : c'.Sound content := by
  obtain ⟨-, hlen⟩ := turn.offset_lt
  obtain ⟨hdrop⟩ := turn
  next x rest =>
  rcases advance_outside outside x rest with ⟨d, rfl, hcursor⟩ | hcursor <;> rw [hcursor]
  · have hmode : d.mode ≠ .interpolation := by cases d <;> decide
    have hinside : d.mode ≠ .outside := by cases d <;> decide
    refine ⟨hlen, fun h => absurd h hinside, fun _ => ?_, fun _ => ?_, balanced_mode d,
      fun h => absurd h hmode⟩
    · exact ⟨Nat.lt_succ_self _, d, d.delimiter?_mode, (drop_succ hdrop).1⟩
    · simp [inner_self, backslashes]
  · have hmode : c.state.mode ≠ .interpolation := by simp [outside]
    exact ⟨hlen, fun h => ⟨rfl, (sound.outside h).2⟩, fun h => absurd outside h,
      fun h => absurd outside h, sound.balanced, fun h => absurd h hmode⟩

/-- Behind the two characters that open an interpolation no brace has been counted. -/
theorem Cursor.Sound.interpolate {content : Text} {c c' : Cursor} (sound : c.Sound content)
    (reached : Reached content c) (turn : Turn content c c') (hmode : c.state.mode = .template)
    {rest : Text} (hdrop : content.drop c.offset = '$' :: '\x7b' :: rest)
    (hcursor : c' = ⟨⟨.interpolation, 1⟩, false, c.start, c.opened, c.offset + 2⟩) :
    c'.Sound content := by
  subst hcursor
  obtain ⟨hstart, d, hdelimiter, hat⟩ := sound.delimiter (by simp [hmode])
  rw [hmode] at hdelimiter
  have hbrace := (drop_succ (drop_succ hdrop).2).1
  have hlength := (List.getElem?_eq_some_iff.mp hbrace).1
  refine ⟨hlength, nofun, fun _ => ⟨Nat.lt_add_right 2 hstart, d, hdelimiter, hat⟩,
    fun _ => ?_, by simp [State.Balanced], fun _ =>
      ⟨c.offset, ⟨c, _, reached, hmode, rfl, turn, rfl, .refl⟩, Nat.le_refl _, ?_, ?_⟩⟩
  · have hinner := inner_succ (Nat.lt_succ_of_lt hstart) hbrace
    show false = true ↔ backslashes (inner content c.start (c.offset + 1 + 1)) % 2 = 1
    rw [hinner, backslashes_concat]
    simp
  · rw [hdrop]
    exact ⟨rest, rfl⟩
  · simp [countPlain_self]

theorem Turn.sound {content : Text} {c c' : Cursor} (turn : Turn content c c')
    (reached : Reached content c) (sound : c.Sound content) : c'.Sound content := by
  by_cases outside : c.state.mode = .outside
  · exact turn.sound_of_outside sound outside
  obtain ⟨hlt, hlen⟩ := turn.offset_lt
  have hturn := turn
  obtain ⟨hdrop⟩ := hturn
  next x rest =>
  have hx := (drop_succ hdrop).1
  generalize ht : step c.state (.ofChar x) c.escaped (rest.head?.map .ofChar) = t
  have hsteps := stepsInside_step outside x c.escaped (rest.head?.map .ofChar)
  have hbalanced := step_balanced sound.balanced (.ofChar x) c.escaped (rest.head?.map .ofChar)
  rw [ht] at hsteps hbalanced
  generalize hescaped : c.escaped = escaped at hsteps
  generalize hcursor : (c.advance x rest).cursor = c' at turn hlt
  rw [advance_inside outside ht] at hcursor
  cases hsteps with
  | escaped =>
    subst hcursor
    exact sound.next outside turn hx rfl rfl rfl (by simp [hescaped]) hbalanced
      fun hmode => ⟨hmode, by simp [hescaped]⟩
  | backslash hb =>
    subst hcursor hb
    exact sound.next outside turn hx rfl rfl rfl (by simp [hescaped]) hbalanced
      fun hmode => ⟨hmode, by simp⟩
  | close hd hmode =>
    subst hcursor
    exact ⟨hlen, fun _ => ⟨rfl, rfl⟩, fun h => absurd rfl h, fun h => absurd rfl h, hbalanced,
      nofun⟩
  | interpolate hd hnext hmode =>
    obtain ⟨y, more, rfl⟩ : ∃ y more, rest = y :: more := by
      cases rest with
      | nil => cases hnext
      | cons y more => exact ⟨y, more, rfl⟩
    obtain rfl : y = '\x7b' :=
      (Symbol.ofChar_eq_iff (x := .openBrace) rfl).mp (Option.some.inj hnext)
    subst hd
    exact sound.interpolate reached turn hmode hdrop hcursor.symm
  | openBrace hb hmode =>
    subst hcursor hb
    exact sound.next outside turn hx rfl rfl (by rw [hmode]) (by simp) hbalanced
      fun _ => ⟨hmode, by simp [hescaped]⟩
  | closeBrace hb hmode =>
    subst hcursor hb
    refine sound.next outside turn hx rfl rfl ?_ (by simp) hbalanced fun h => ⟨hmode, ?_⟩
    · rw [hmode]
      dsimp only
      split <;> rfl
    · dsimp only at h ⊢
      split at h
      · next hdeep =>
        rw [if_pos hdeep]
        simp [hescaped]
      · cases h
  | plain hb hbraces =>
    subst hcursor
    refine sound.next outside turn hx rfl rfl rfl (by simp [hb]) hbalanced
      fun hmode => ⟨hmode, ?_⟩
    obtain ⟨hopen, hclose⟩ := hbraces hmode
    simp [hopen, hclose]

theorem Reached.sound {content : Text} {c : Cursor} (h : Reached content c) :
    c.Sound content := by
  induction h with
  | refl => exact sound_start content
  | tail reached turn ih => exact turn.sound reached ih

/-- A scan passes through the points that are reached, up to its end, and at each of them the text
says where the scan stands. -/
theorem scan_invariant (content : Text) :
    Reached content (scan content).2 ∧ ∀ c, Reached content c →
      (∃ earlier, scan content = (earlier ++ (scanFrom c 0 (content.drop c.offset)).1,
        (scanFrom c 0 (content.drop c.offset)).2)) ∧ c.Sound content :=
  ⟨reached_scan content, fun _ h => ⟨h.scan_eq, h.sound⟩⟩

theorem scan_invariant_interpolation :
    let content := "y = \x60a\\\x60$\x7bf(\x7b\\\x7d".toList
    let c := (scan content).2
    (c.state = ⟨.interpolation, 2⟩ ∧ c.escaped = false ∧ c.start = 4) ∧
      Reached content c ∧ c.Sound content := by
  intro content c
  obtain ⟨hend, hpoints⟩ := scan_invariant content
  exact ⟨by decide, hend, (hpoints c hend).2⟩

end DqlScan.Literal
