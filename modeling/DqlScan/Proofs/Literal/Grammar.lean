import DqlScan.Literal.Machine

/-!
# The grammar of literals

`IsLiteral` says which texts are literals, without a machine. `Closes` is the same grammar from
within a literal: the texts that lead from a state of the machine just past the end of its literal.
The lemmas take the first character off such a text.
-/

namespace DqlScan.Literal

/-! ### Literals -/

/-- What may stand between two quotation marks or two apostrophes. -/
inductive Quoted (d : Delimiter) : Text → Prop where
  | nil : Quoted d []
  | pair (c : Char) {t : Text} : Quoted d t → Quoted d ('\\' :: c :: t)
  | plain {c : Char} {t : Text} : c ≠ d.char → c ≠ '\\' → Quoted d t → Quoted d (c :: t)

/-- What may stand between the braces of an interpolation. Delimiters mean nothing here. -/
inductive Interpolated : Text → Prop where
  | nil : Interpolated []
  | pair (c : Char) {t : Text} : Interpolated t → Interpolated ('\\' :: c :: t)
  | braces {s t : Text} :
      Interpolated s → Interpolated t → Interpolated ('\x7b' :: (s ++ '\x7d' :: t))
  | plain {c : Char} {t : Text} :
      c ≠ '\x7b' → c ≠ '\x7d' → c ≠ '\\' → Interpolated t → Interpolated (c :: t)

/-- What may stand between two backticks. -/
inductive Templated : Text → Prop where
  | nil : Templated []
  | pair (c : Char) {t : Text} : Templated t → Templated ('\\' :: c :: t)
  | interpolation {s t : Text} :
      Interpolated s → Templated t → Templated ('$' :: '\x7b' :: (s ++ '\x7d' :: t))
  | plain {c : Char} {t : Text} : c ≠ Delimiter.backtick.char → c ≠ '\\' →
      ¬(c = '$' ∧ t.head? = some '\x7b') → Templated t → Templated (c :: t)

inductive IsLiteral : Text → Prop where
  | quoted {d : Delimiter} {t : Text} :
      d ≠ .backtick → Quoted d t → IsLiteral (d.char :: (t ++ [d.char]))
  | template {t : Text} :
      Templated t → IsLiteral (Delimiter.backtick.char :: (t ++ [Delimiter.backtick.char]))

/-! ### From within a literal -/

def QuotedEnd (d : Delimiter) (v : Text) : Prop := ∃ t, Quoted d t ∧ v = t ++ [d.char]

/-- The texts that close so many braces and then end the template. -/
def TemplateEnd : Nat → Text → Prop
  | 0, v => ∃ t, Templated t ∧ v = t ++ [Delimiter.backtick.char]
  | n + 1, v => ∃ s w, Interpolated s ∧ v = s ++ '\x7d' :: w ∧ TemplateEnd n w

/-- The texts that lead from a state just past the end of the literal, if their first character is
not escaped. -/
def State.End (s : State) : Text → Prop :=
  match s.mode with
  | .outside => fun _ => False
  | .single => QuotedEnd .apostrophe
  | .double => QuotedEnd .quotationMark
  | .template | .interpolation => TemplateEnd s.depth.toNat

/-- The texts that lead from a state just past the end of the literal. -/
def Closes (s : State) : Bool → Text → Prop
  | false, v => s.End v
  | true, v => ∃ x w, v = x :: w ∧ s.End w

theorem closes_true_cons {s : State} {x : Char} {v : Text} :
    Closes s true (x :: v) ↔ Closes s false v := by
  constructor
  · intro h
    obtain ⟨y, w, h, hw⟩ := h
    obtain ⟨rfl, rfl⟩ := List.cons.inj h
    exact hw
  · intro h
    exact ⟨x, v, rfl, h⟩

theorem isLiteral_iff {t : Text} :
    IsLiteral t ↔ ∃ (d : Delimiter) (v : Text), t = d.char :: v ∧ Closes ⟨d.mode, 0⟩ false v := by
  constructor
  · rintro (⟨hd, ht⟩ | ht)
    · next d t =>
      refine ⟨d, t ++ [d.char], rfl, ?_⟩
      cases d with
      | apostrophe => exact ⟨t, ht, rfl⟩
      | quotationMark => exact ⟨t, ht, rfl⟩
      | backtick => exact absurd rfl hd
    · exact ⟨.backtick, _, rfl, _, ht, rfl⟩
  · intro h
    obtain ⟨d, v, rfl, h⟩ := h
    cases d with
    | apostrophe =>
      obtain ⟨t, ht, rfl⟩ := h
      exact .quoted (by decide) ht
    | quotationMark =>
      obtain ⟨t, ht, rfl⟩ := h
      exact .quoted (by decide) ht
    | backtick =>
      obtain ⟨t, ht, rfl⟩ := h
      exact .template ht

/-! ### One character of an end -/

theorem not_quotedEnd_nil {d : Delimiter} : ¬QuotedEnd d [] := by
  intro h
  obtain ⟨t, _, h⟩ := h
  simp at h

theorem not_templateEnd_nil {n : Nat} : ¬TemplateEnd n [] := by
  cases n with
  | zero =>
    intro h
    obtain ⟨t, _, h⟩ := h
    simp at h
  | succ n =>
    intro h
    obtain ⟨s, w, _, h, _⟩ := h
    simp at h

theorem quotedEnd_pair {d : Delimiter} (hd : d.char ≠ '\\') {v : Text} :
    QuotedEnd d ('\\' :: v) ↔ ∃ x w, v = x :: w ∧ QuotedEnd d w := by
  constructor
  · intro h
    obtain ⟨t, ht, h⟩ := h
    cases ht with
    | nil => simp at h; exact absurd h.1.symm hd
    | pair c ht =>
      simp only [List.cons_append, List.cons.injEq, true_and] at h
      exact ⟨c, _, h, _, ht, rfl⟩
    | plain _ hc _ => simp at h; exact absurd h.1.symm hc
  · intro h
    obtain ⟨x, _, rfl, t, ht, rfl⟩ := h
    exact ⟨_, ht.pair x, rfl⟩

theorem quotedEnd_close {d : Delimiter} (hd : d.char ≠ '\\') {v : Text} :
    QuotedEnd d (d.char :: v) ↔ v = [] := by
  constructor
  · intro h
    obtain ⟨t, ht, h⟩ := h
    cases ht with
    | nil => simpa using h
    | pair c _ => simp at h; exact absurd h.1 hd
    | plain hc _ _ => simp at h; exact absurd h.1.symm hc
  · rintro rfl
    exact ⟨[], .nil, rfl⟩

theorem quotedEnd_plain {d : Delimiter} {x : Char} (hx : x ≠ d.char) (hb : x ≠ '\\') {v : Text} :
    QuotedEnd d (x :: v) ↔ QuotedEnd d v := by
  constructor
  · intro h
    obtain ⟨t, ht, h⟩ := h
    cases ht with
    | nil => simp at h; exact absurd h.1 hx
    | pair c _ => simp at h; exact absurd h.1 hb
    | plain _ _ ht =>
      simp only [List.cons_append, List.cons.injEq] at h
      exact ⟨_, ht, h.2⟩
  · intro h
    obtain ⟨t, ht, rfl⟩ := h
    exact ⟨_, ht.plain hx hb, rfl⟩

theorem templateEnd_pair {n : Nat} {v : Text} :
    TemplateEnd n ('\\' :: v) ↔ ∃ x w, v = x :: w ∧ TemplateEnd n w := by
  cases n with
  | zero =>
    constructor
    · intro h
      obtain ⟨t, ht, h⟩ := h
      cases ht with
      | nil => simp [Delimiter.char] at h
      | pair c ht =>
        simp only [List.cons_append, List.cons.injEq, true_and] at h
        exact ⟨c, _, h, _, ht, rfl⟩
      | interpolation _ _ => simp at h
      | plain _ hc _ _ => simp at h; exact absurd h.1.symm hc
    · intro h
      obtain ⟨x, _, rfl, t, ht, rfl⟩ := h
      exact ⟨_, ht.pair x, rfl⟩
  | succ n =>
    constructor
    · intro h
      obtain ⟨s, w, hs, h, hw⟩ := h
      cases hs with
      | nil => simp at h
      | pair c hs =>
        simp only [List.cons_append, List.cons.injEq, true_and] at h
        exact ⟨c, _, h, _, w, hs, rfl, hw⟩
      | braces _ _ => simp at h
      | plain _ _ hc _ => simp at h; exact absurd h.1.symm hc
    · intro h
      obtain ⟨x, _, rfl, s, w, hs, rfl, hw⟩ := h
      exact ⟨_, w, hs.pair x, rfl, hw⟩

theorem templateEnd_backtick {v : Text} :
    TemplateEnd 0 (Delimiter.backtick.char :: v) ↔ v = [] := by
  constructor
  · intro h
    obtain ⟨t, ht, h⟩ := h
    cases ht with
    | nil => simpa using h
    | pair c _ => simp [Delimiter.char] at h
    | interpolation _ _ => simp [Delimiter.char] at h
    | plain hc _ _ _ => simp at h; exact absurd h.1.symm hc
  · rintro rfl
    exact ⟨[], .nil, rfl⟩

theorem templateEnd_interpolation {v : Text} :
    TemplateEnd 0 ('$' :: '\x7b' :: v) ↔ TemplateEnd 1 v := by
  constructor
  · intro h
    obtain ⟨t, ht, h⟩ := h
    cases ht with
    | nil => simp at h
    | pair c _ => simp at h
    | @interpolation s t hs ht =>
      simp only [List.cons_append, List.append_assoc, List.cons.injEq, true_and] at h
      exact ⟨s, t ++ [Delimiter.backtick.char], hs, h, t, ht, rfl⟩
    | @plain c t _ _ hc _ =>
      -- The brace would have to open the rest of the template, or be its last backtick.
      simp only [List.cons_append, List.cons.injEq] at h
      obtain ⟨rfl, h⟩ := h
      cases t with
      | nil => simp [Delimiter.char] at h
      | cons y t => simp at h hc; exact absurd h.1.symm hc
  · intro h
    obtain ⟨s, _, hs, rfl, t, ht, rfl⟩ := h
    exact ⟨_, .interpolation hs ht, by simp⟩

theorem templateEnd_plain {x : Char} {v : Text} (hd : x ≠ Delimiter.backtick.char) (hb : x ≠ '\\')
    (hi : ¬(x = '$' ∧ v.head? = some '\x7b')) : TemplateEnd 0 (x :: v) ↔ TemplateEnd 0 v := by
  constructor
  · intro h
    obtain ⟨t, ht, h⟩ := h
    cases ht with
    | nil => simp at h; exact absurd h.1 hd
    | pair c _ => simp at h; exact absurd h.1 hb
    | interpolation _ _ =>
      simp only [List.cons_append, List.cons.injEq] at h
      exact absurd ⟨h.1, by rw [h.2]; rfl⟩ hi
    | plain _ _ _ ht =>
      simp only [List.cons_append, List.cons.injEq] at h
      exact ⟨_, ht, h.2⟩
  · intro h
    obtain ⟨t, ht, rfl⟩ := h
    refine ⟨_, ht.plain hd hb ?_, rfl⟩
    intro h
    obtain ⟨rfl, h⟩ := h
    exact hi ⟨rfl, by simp [List.head?_append, h]⟩

theorem templateEnd_openBrace {n : Nat} {v : Text} :
    TemplateEnd (n + 1) ('\x7b' :: v) ↔ TemplateEnd (n + 2) v := by
  constructor
  · intro h
    obtain ⟨s, w, hs, h, hw⟩ := h
    cases hs with
    | nil => simp at h
    | pair c _ => simp at h
    | @braces s t hs ht =>
      simp only [List.cons_append, List.append_assoc, List.cons.injEq, true_and] at h
      exact ⟨s, t ++ '\x7d' :: w, hs, h, t, w, ht, rfl, hw⟩
    | plain hc _ _ _ => simp at h; exact absurd h.1.symm hc
  · intro h
    obtain ⟨s, _, hs, rfl, t, w, ht, rfl, hw⟩ := h
    exact ⟨_, w, hs.braces ht, by simp, hw⟩

theorem templateEnd_closeBrace {n : Nat} {v : Text} :
    TemplateEnd (n + 1) ('\x7d' :: v) ↔ TemplateEnd n v := by
  constructor
  · intro h
    obtain ⟨s, w, hs, h, hw⟩ := h
    cases hs with
    | nil =>
      simp only [List.nil_append, List.cons.injEq, true_and] at h
      exact h ▸ hw
    | pair c _ => simp at h
    | braces _ _ => simp at h
    | plain _ hc _ _ => simp at h; exact absurd h.1.symm hc
  · intro h
    exact ⟨[], v, .nil, rfl, h⟩

theorem templateEnd_plain_succ {n : Nat} {x : Char} {v : Text} (ho : x ≠ '\x7b') (hc : x ≠ '\x7d')
    (hb : x ≠ '\\') : TemplateEnd (n + 1) (x :: v) ↔ TemplateEnd (n + 1) v := by
  constructor
  · intro h
    obtain ⟨s, w, hs, h, hw⟩ := h
    cases hs with
    | nil => simp at h; exact absurd h.1 hc
    | pair c _ => simp at h; exact absurd h.1 hb
    | braces _ _ => simp at h; exact absurd h.1 ho
    | plain _ _ _ hs =>
      simp only [List.cons_append, List.cons.injEq] at h
      exact ⟨_, w, hs, h.2, hw⟩
  · intro h
    obtain ⟨s, w, hs, rfl, hw⟩ := h
    exact ⟨_, w, hs.plain ho hc hb, rfl, hw⟩

end DqlScan.Literal
