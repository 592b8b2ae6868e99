import DqlScan.Ignore.Pattern
import Mathlib.Data.List.Basic

/-!
# Languages of patterns

What a piece may take from the start of a text. A sequence of pieces takes a text piece by piece
(`matchesPieces_append`), and only a boundary looks at what follows.
-/

namespace DqlScan.Ignore

/-- A piece may take the text, whatever follows. What a boundary takes depends on that. -/
def Piece.Takes : Piece → Text → Prop
  | .literal c, t => t = [c]
  | .oneOf set, t => ∃ c, t = [c] ∧ set.contains c = true
  | .anyChar, t => ∃ c, t = [c] ∧ c ≠ '/'
  | .star, t => '/' ∉ t
  | .name, t => t ≠ [] ∧ '/' ∉ t
  | .leadingDirectories, t => t = [] ∨ ∃ names, names ≠ [] ∧ t = names ++ ['/']
  | .innerDirectories, t => t = [] ∨ ∃ names, names ≠ [] ∧ t = '/' :: names
  | .boundary, _ => False

def Takes : List Piece → Text → Prop
  | [], t => t = []
  | piece :: pieces, t => ∃ first later, t = first ++ later ∧ piece.Takes first ∧ Takes pieces later

/-! ### What remains -/

theorem mem_suffixes {r t : Text} : r ∈ suffixes t ↔ ∃ before, t = before ++ r := by
  induction t with
  | nil => simp [suffixes, eq_comm]
  | cons c t ih =>
    rw [suffixes, List.mem_cons, ih]
    constructor
    · rintro (rfl | ⟨before, rfl⟩)
      · exact ⟨[], rfl⟩
      · exact ⟨c :: before, rfl⟩
    · rintro ⟨before, h⟩
      cases before with
      | nil => exact .inl h.symm
      | cons _ before => exact .inr ⟨before, (List.cons.inj h).2⟩

theorem mem_afterSlashes {r t : Text} :
    r ∈ afterSlashes t ↔ ∃ before, t = before ++ '/' :: r := by
  induction t with
  | nil => simp [afterSlashes]
  | cons c t ih =>
    rw [afterSlashes]
    constructor
    · intro h
      split at h
      · next hc =>
        rcases List.mem_cons.mp h with rfl | h
        · exact ⟨[], by rw [hc]; rfl⟩
        · obtain ⟨before, rfl⟩ := ih.mp h
          exact ⟨c :: before, rfl⟩
      · obtain ⟨before, rfl⟩ := ih.mp h
        exact ⟨c :: before, rfl⟩
    · rintro ⟨before, h⟩
      cases before with
      | nil =>
        obtain ⟨rfl, rfl⟩ := List.cons.inj h
        exact List.mem_cons_self
      | cons _ before =>
        have hlater := ih.mpr ⟨before, (List.cons.inj h).2⟩
        split
        · exact List.mem_cons_of_mem _ hlater
        · exact hlater

theorem mem_afterStar {r t : Text} :
    r ∈ afterStar t ↔ ∃ before, t = before ++ r ∧ '/' ∉ before := by
  induction t with
  | nil => simp [afterStar, eq_comm]
  | cons c t ih =>
    rw [afterStar, List.mem_cons]
    constructor
    · rintro (rfl | h)
      · exact ⟨[], rfl, List.not_mem_nil⟩
      split at h
      · cases h
      · next hc =>
        obtain ⟨before, rfl, hbefore⟩ := ih.mp h
        exact ⟨c :: before, rfl, List.not_mem_cons_of_ne_of_not_mem (Ne.symm hc) hbefore⟩
    · rintro ⟨before, h, hbefore⟩
      cases before with
      | nil => exact .inl h.symm
      | cons d before =>
        obtain ⟨rfl, rfl⟩ := List.cons.inj h
        rw [List.mem_cons, not_or] at hbefore
        rw [if_neg (Ne.symm hbefore.1)]
        exact .inr (ih.mpr ⟨before, rfl, hbefore.2⟩)

theorem mem_afterChar {p : Char → Bool} {r t : Text} :
    r ∈ afterChar p t ↔ ∃ taken, t = taken ++ r ∧ ∃ c, taken = [c] ∧ p c = true := by
  cases t with
  | nil => simp [afterChar]
  | cons c t =>
    rw [afterChar]
    constructor
    · intro h
      split at h
      · next hc =>
        obtain rfl := List.mem_singleton.mp h
        exact ⟨[c], rfl, c, rfl, hc⟩
      · cases h
    · rintro ⟨_, h, d, rfl, hd⟩
      obtain ⟨rfl, rfl⟩ := List.cons.inj h
      rw [if_pos hd]
      exact List.mem_singleton_self _

/-- A piece leaves what follows a text that it may take. -/
theorem Piece.mem_rests {piece : Piece} (h : piece ≠ .boundary) {r t : Text} :
    r ∈ piece.rests t ↔ ∃ taken, t = taken ++ r ∧ piece.Takes taken := by
  cases piece with
  | literal c => simp [rests, Takes, mem_afterChar]
  | oneOf set => exact mem_afterChar
  | anyChar => simp [rests, Takes, mem_afterChar]
  | star => exact mem_afterStar
  | name =>
    simp only [rests, Takes, List.mem_flatMap, mem_afterChar, mem_afterStar, decide_eq_true_eq]
    constructor
    · rintro ⟨_, ⟨_, rfl, c, rfl, hc⟩, before, rfl, hbefore⟩
      exact ⟨c :: before, rfl, List.cons_ne_nil _ _,
        List.not_mem_cons_of_ne_of_not_mem (Ne.symm hc) hbefore⟩
    · rintro ⟨taken, rfl, hne, htaken⟩
      obtain ⟨c, before, rfl⟩ := List.exists_cons_of_ne_nil hne
      rw [List.mem_cons, not_or] at htaken
      exact ⟨before ++ r, ⟨[c], rfl, c, rfl, Ne.symm htaken.1⟩, before, rfl, htaken.2⟩
  | leadingDirectories =>
    simp only [rests, Takes, List.mem_cons, mem_afterSlashes]
    constructor
    · rintro (rfl | ⟨before, h⟩)
      · exact ⟨[], rfl, .inl rfl⟩
      · cases t with
        | nil => simp at h
        | cons c t =>
          obtain rfl : t = before ++ '/' :: r := h
          exact ⟨c :: before ++ ['/'], by simp, .inr ⟨_, List.cons_ne_nil _ _, rfl⟩⟩
    · rintro ⟨taken, rfl, rfl | ⟨names, hne, rfl⟩⟩
      · exact .inl rfl
      · obtain ⟨c, before, rfl⟩ := List.exists_cons_of_ne_nil hne
        exact .inr ⟨before, by simp⟩
  | innerDirectories =>
    simp only [rests, Takes, List.mem_cons]
    constructor
    · rintro (rfl | h)
      · exact ⟨[], rfl, .inl rfl⟩
      split at h
      · next c more =>
        obtain ⟨before, rfl⟩ := mem_suffixes.mp h
        exact ⟨'/' :: c :: before, rfl, .inr ⟨_, List.cons_ne_nil _ _, rfl⟩⟩
      · cases h
    · rintro ⟨taken, rfl, rfl | ⟨names, hne, rfl⟩⟩
      · exact .inl rfl
      · obtain ⟨c, before, rfl⟩ := List.exists_cons_of_ne_nil hne
        exact .inr (mem_suffixes.mpr ⟨before, rfl⟩)
  | boundary => exact absurd rfl h

theorem mem_rests_boundary {r t : Text} :
    r ∈ Piece.boundary.rests t ↔ (t = [] ∧ r = []) ∨ t = '/' :: r := by
  rw [Piece.rests]
  split
  · next h => simp [h]
  · next h => simp [h, mem_afterChar]

/-- Pieces in front of others take the start of a text. -/
theorem matchesPieces_append {pieces : List Piece} (h : .boundary ∉ pieces) (more : List Piece)
    (t : Text) :
    matchesPieces (pieces ++ more) t = true ↔
      ∃ taken rest, t = taken ++ rest ∧ Takes pieces taken ∧ matchesPieces more rest = true := by
  induction pieces generalizing t with
  | nil => simp [Takes]
  | cons piece pieces ih =>
    rw [List.mem_cons, not_or] at h
    rw [List.cons_append, matchesPieces, List.any_eq_true]
    constructor
    · rintro ⟨later, hlater, hmatches⟩
      obtain ⟨first, rfl, hfirst⟩ := (Piece.mem_rests (Ne.symm h.1)).mp hlater
      obtain ⟨taken, rest, rfl, htaken, hrest⟩ := (ih h.2 later).mp hmatches
      exact ⟨first ++ taken, rest, by simp, ⟨first, taken, rfl, hfirst, htaken⟩, hrest⟩
    · rintro ⟨_, rest, rfl, ⟨first, taken, rfl, hfirst, htaken⟩, hrest⟩
      refine ⟨taken ++ rest, (Piece.mem_rests (Ne.symm h.1)).mpr ⟨first, by simp, hfirst⟩, ?_⟩
      exact (ih h.2 _).mpr ⟨taken, rest, rfl, htaken, hrest⟩

theorem matchesPieces_boundary {t : Text} :
    matchesPieces [.boundary] t = true ↔ t = [] ∨ ∃ rest, t = '/' :: rest := by
  simp only [matchesPieces, List.any_eq_true, mem_rests_boundary, and_true]
  constructor
  · rintro ⟨r, ⟨rfl, -⟩ | rfl⟩
    · exact .inl rfl
    · exact .inr ⟨r, rfl⟩
  · rintro (rfl | ⟨r, rfl⟩)
    · exact ⟨[], .inl ⟨rfl, rfl⟩⟩
    · exact ⟨r, .inr rfl⟩

end DqlScan.Ignore
