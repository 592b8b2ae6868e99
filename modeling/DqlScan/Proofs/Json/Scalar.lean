import DqlScan.Json.Read
import DqlScan.Json.Basic
import Mathlib.Data.List.TakeWhile

/-!
# Strings and integers read back

A written string is read as the text that it writes (`readString_write`), and a written integer as
itself if no more digits are allowed than it has (`readNumber_ofInt`).
-/

namespace DqlScan.Json

/-! ### Strings -/

/-- The number of a character is no surrogate. -/
theorem toNat_lt_or_lt (c : Char) : c.toNat < 0xD800 ∨ 0xDFFF < c.toNat := by
  have hvalid := c.valid
  simp only [UInt32.isValidChar, Nat.isValidChar] at hvalid
  have hval : c.toNat = c.val.toNat := rfl
  omega

theorem unitChar_toNat (c : Char) : unitChar c.toNat = c := by
  have hrange := toNat_lt_or_lt c
  rw [unitChar, if_neg (by omega), Char.ofNat_toNat]

theorem joinUnits_map (t : Text) : joinUnits (t.map Char.toNat) = t := by
  induction t with
  | nil => rfl
  | cons c t ih =>
    cases t with
    | nil => simp [joinUnits, unitChar_toNat]
    | cons next t =>
      have hrange := toNat_lt_or_lt c
      rw [List.map_cons, List.map_cons, joinUnits, if_neg (by omega), unitChar_toNat]
      exact congrArg (c :: ·) ih

/-- The digits of a control character write its number. -/
theorem hex_control {n : Nat} (h : n < 32) :
    ∃ a b c d, Text.hex 4 n = [a, b, c, d] ∧ codeUnit? a b c d = some n := by
  have hall : ∀ n : Fin 32, Text.hex 4 n =
      ['0', '0', Nat.digitChar (n / 16), Nat.digitChar (n % 16)] ∧
        codeUnit? '0' '0' (Nat.digitChar (n / 16)) (Nat.digitChar (n % 16)) = some n.val := by
    decide
  exact ⟨_, _, _, _, hall ⟨n, h⟩⟩

theorem readUnits_code {a b c d : Char} {unit : Nat} (h : codeUnit? a b c d = some unit)
    (start : Text) (next : Char) (rest : Text) :
    readUnits start ('\\' :: 'u' :: a :: b :: c :: d :: next :: rest) =
      (readUnits start (next :: rest)).map fun r => (unit :: r.1, r.2) := by
  conv => lhs; unfold readUnits
  rw [if_neg (by decide), if_pos rfl]
  simp only [h]

theorem readUnits_unescape {e x : Char} (h : unescape? e = some x) (start rest : Text) :
    readUnits start ('\\' :: e :: rest) =
      (readUnits start rest).map fun r => (x.toNat :: r.1, r.2) := by
  have he : e ≠ 'u' := by
    rintro rfl
    cases h
  conv => lhs; unfold readUnits
  rw [if_neg (by decide), if_pos rfl]
  split
  · next heq => cases heq
  · next heq => exact absurd (List.cons.inj heq).1 he
  · next heq =>
    obtain ⟨rfl, rfl⟩ := List.cons.inj heq
    rw [if_neg he]
    simp only [h]

/-- A character is written as a backslash and another character, as its number, or as it is. -/
theorem escape_cases (c : Char) :
    (∃ e, escape c = ['\\', e] ∧ unescape? e = some c) ∨
      (c.toNat < 32 ∧ escape c = ['\\', 'u'] ++ Text.hex 4 c.toNat) ∨
      (c ≠ '"' ∧ c ≠ '\\' ∧ ¬c < ' ' ∧ escape c = [c]) := by
  unfold escape
  split
  · next h => exact .inl ⟨'"', rfl, congrArg some h.symm⟩
  split
  · next h => exact .inl ⟨'\\', rfl, congrArg some h.symm⟩
  split
  · next h => exact .inl ⟨'n', rfl, congrArg some h.symm⟩
  split
  · next h => exact .inl ⟨'r', rfl, congrArg some h.symm⟩
  split
  · next h => exact .inl ⟨'t', rfl, congrArg some h.symm⟩
  split
  · next h => exact .inl ⟨'b', rfl, congrArg some h.symm⟩
  split
  · next h => exact .inl ⟨'f', rfl, congrArg some h.symm⟩
  split
  · next hcontrol => exact .inr (.inl ⟨hcontrol, rfl⟩)
  · next hquote hbackslash _ _ _ _ _ hcontrol =>
    exact .inr (.inr ⟨hquote, hbackslash, hcontrol, rfl⟩)

theorem readUnits_escape (start : Text) (c next : Char) (rest : Text) :
    readUnits start (escape c ++ next :: rest) =
      (readUnits start (next :: rest)).map fun r => (c.toNat :: r.1, r.2) := by
  rcases escape_cases c with ⟨e, hescape, he⟩ | ⟨hlt, hescape⟩ | ⟨hquote, hback, hcontrol, hescape⟩
  · rw [hescape]
    exact readUnits_unescape he start _
  · obtain ⟨a, b, e, d, hdigits, hunit⟩ := hex_control hlt
    rw [hescape, hdigits]
    exact readUnits_code hunit start next rest
  · rw [hescape, List.singleton_append]
    conv => lhs; unfold readUnits
    rw [if_neg hquote, if_neg hback, if_neg hcontrol]

theorem readUnits_write (start t rest : Text) :
    readUnits start (t.flatMap escape ++ '"' :: rest) = .ok (t.map Char.toNat, rest) := by
  induction t with
  | nil =>
    rw [List.flatMap_nil, List.nil_append]
    unfold readUnits
    exact if_pos rfl
  | cons c t ih =>
    obtain ⟨next, more, hmore⟩ : ∃ next more, t.flatMap escape ++ '"' :: rest = next :: more :=
      List.exists_cons_of_ne_nil (by simp)
    rw [List.flatMap_cons, List.append_assoc, hmore, readUnits_escape, ← hmore, ih]
    rfl

theorem readString_write (start t rest : Text) :
    readString start (t.flatMap escape ++ '"' :: rest) = .ok (t, rest) := by
  rw [readString, readUnits_write]
  simp [Except.map, joinUnits_map]

/-! ### Integers -/

/-- The text does not carry on a number that stands before it. -/
def EndsNumber (t : Text) : Prop :=
  ∀ c, t.head? = some c → c.isDigit = false ∧ c ≠ '.' ∧ c ≠ 'e' ∧ c ≠ 'E'

theorem isDigit_of_mem_ofNat {n : Nat} {c : Char} (h : c ∈ Text.ofNat n) : c.isDigit = true :=
  Nat.isDigit_of_mem_toDigits (by decide) (by decide) h

theorem digitsValue_ofNat (n : Nat) : digitsValue (Text.ofNat n) = n :=
  Nat.ofDigitChars_toDigits (by decide) (by decide)

theorem digits_append {ds rest : Text} (hds : ∀ c ∈ ds, c.isDigit = true)
    (hrest : EndsNumber rest) :
    digits (ds ++ rest) = ds ∧ (ds ++ rest).dropWhile Char.isDigit = rest := by
  have hstop : rest.takeWhile Char.isDigit = [] ∧ rest.dropWhile Char.isDigit = rest := by
    cases rest with
    | nil => exact ⟨rfl, rfl⟩
    | cons c rest => simp [(hrest c rfl).1]
  unfold digits
  rw [List.takeWhile_append_of_pos hds, List.dropWhile_append_of_pos hds, hstop.1, hstop.2,
    List.append_nil]
  exact ⟨rfl, rfl⟩

theorem exists_cons_ofNat (n : Nat) : ∃ c ds, Text.ofNat n = c :: ds :=
  List.exists_cons_of_ne_nil Nat.toDigits_ne_nil

/-- Only the number zero starts with a zero. -/
theorem head?_ofNat {n : Nat} (h : 0 < n) : (Text.ofNat n).head? ≠ some '0' := by
  induction n using Nat.strongRecOn with
  | ind n ih =>
    by_cases hsmall : n < 10
    · have hdigits : ∀ n : Fin 10, 0 < n.val → (Text.ofNat n).head? ≠ some '0' := by decide
      exact hdigits ⟨n, hsmall⟩ h
    · have hinit : (Text.ofNat (n / 10)).head? ≠ some '0' := ih (n / 10) (by omega) (by omega)
      obtain ⟨c, ds, hds⟩ := exists_cons_ofNat (n / 10)
      rw [hds] at hinit
      unfold Text.ofNat at hds ⊢
      rw [Nat.toDigits_of_base_le (by decide) (by omega), hds]
      exact hinit

theorem readWhole?_ofNat (n : Nat) {rest : Text} (hrest : EndsNumber rest) :
    readWhole? (Text.ofNat n ++ rest) = some (Text.ofNat n, rest) := by
  rcases Nat.eq_zero_or_pos n with rfl | hpos
  · rfl
  obtain ⟨c, ds, hds⟩ := exists_cons_ofNat n
  have hdigits := digits_append (fun _ => isDigit_of_mem_ofNat (n := n)) hrest
  have hne : Text.ofNat n ≠ [] := by simp [hds]
  have hzero : c ≠ '0' := by
    rintro rfl
    exact head?_ofNat hpos (by rw [hds]; rfl)
  unfold readWhole?
  split
  · next heq =>
    rw [hds, List.cons_append] at heq
    exact absurd (List.cons.inj heq).1 hzero
  · rw [hdigits.1, hdigits.2, if_neg hne]

theorem ofDigits_ofNat {limits : Limits} {n : Nat} (h : (Text.ofNat n).length ≤ limits.digits)
    (negative : Bool) :
    ofDigits limits negative (Text.ofNat n) =
      .ok (.int (if negative then -(n : Int) else n)) := by
  rw [ofDigits, if_neg (by omega), digitsValue_ofNat]

theorem readNumber_ofInt {limits : Limits} {n : Int}
    (h : (Text.ofNat n.natAbs).length ≤ limits.digits) {rest : Text} (hrest : EndsNumber rest) :
    readNumber limits (Text.ofInt n ++ rest) = .ok (.int n, rest) := by
  have hfraction : readFraction rest = ([], rest) := by
    unfold readFraction
    split
    · exact absurd rfl (hrest '.' rfl).2.1
    · rfl
  have hexponent : readExponent? rest = none := by
    unfold readExponent?
    split
    · next c more =>
      obtain ⟨-, -, he, hE⟩ := hrest c rfl
      rw [if_neg (by simp [he, hE])]
    · rfl
  cases n with
  | ofNat n =>
    have hhead : (Text.ofNat n ++ rest).head? ≠ some '-' := by
      obtain ⟨c, ds, hds⟩ := exists_cons_ofNat n
      have hdigit : c.isDigit = true := isDigit_of_mem_ofNat (n := n) (by rw [hds]; simp)
      rw [hds]
      intro heq
      obtain rfl : c = '-' := by simpa using heq
      exact absurd hdigit (by decide)
    have hdigits := ofDigits_ofNat (n := n) h false
    simp only [Text.ofInt, readNumber, hhead, decide_false, Bool.false_eq_true, if_false,
      readWhole?_ofNat n hrest, hfraction, hexponent, hdigits]
    rfl
  | negSucc n =>
    have hdigits := ofDigits_ofNat (n := n + 1) h true
    simp only [Text.ofInt, readNumber, List.cons_append, List.head?_cons, decide_true, if_true,
      List.tail_cons, readWhole?_ofNat (n + 1) hrest, hfraction, hexponent, hdigits]
    rfl

end DqlScan.Json
