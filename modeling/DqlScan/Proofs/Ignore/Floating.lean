import DqlScan.Proofs.Ignore.Descent

/-!
# Names at any depth

A pattern of a single name finds it at any depth, so it looks at one component of a path at a time
(`Pattern.Floating.matches_subject`). The default rules are compiled for whole texts of paths, but
all of them are of this kind: names of directories, and endings (`ignored_defaultRules_iff`).
-/

namespace DqlScan.Ignore

/-- A piece can take a slash, or more than the characters of one name. -/
def Piece.crosses : Piece → Bool
  | .literal c => c = '/'
  | .oneOf set => set.contains '/'
  | .anyChar | .star | .name => false
  | .leadingDirectories | .innerDirectories | .boundary => true

theorem Piece.inName_of_crosses {piece : Piece} (h : piece.crosses = false) : piece.InName := by
  cases piece <;> simp_all [crosses, InName]

/-- Pieces that stay within one name take no slash. -/
theorem slash_notMem_of_takes {body : List Piece} (h : ∀ piece ∈ body, piece.crosses = false)
    {t : Text} (ht : Takes body t) : '/' ∉ t := by
  induction body generalizing t with
  | nil =>
    obtain rfl : t = [] := ht
    exact List.not_mem_nil
  | cons piece body ih =>
    obtain ⟨hpiece, hbody⟩ := List.forall_mem_cons.mp h
    obtain ⟨first, later, rfl, hfirst, hlater⟩ := ht
    have hnone : '/' ∉ first := by
      intro hslash
      obtain ⟨-, set, rfl, hset⟩ := (Piece.inName_of_crosses hpiece).takes_slash hfirst hslash
      exact absurd hset (Bool.eq_false_iff.mp hpiece)
    rw [List.mem_append, not_or]
    exact ⟨hnone, ih hbody hlater⟩

/-- The first slash of a text is the one after its first name. -/
theorem slash_split {name below taken rest : Text} (hname : '/' ∉ name)
    (h : taken ++ '/' :: rest = name ++ '/' :: below) :
    (taken = name ∧ rest = below) ∨
      ∃ middle, taken = name ++ '/' :: middle ∧ below = middle ++ '/' :: rest := by
  induction name generalizing taken with
  | nil =>
    cases taken with
    | nil => exact .inl ⟨rfl, (List.cons.inj h).2⟩
    | cons c middle =>
      obtain ⟨rfl, hrest⟩ := List.cons.inj h
      exact .inr ⟨middle, rfl, hrest.symm⟩
  | cons c name ih =>
    obtain ⟨hc, hlater⟩ := List.ne_and_not_mem_of_not_mem_cons hname
    cases taken with
    | nil => exact absurd (List.cons.inj h).1 hc
    | cons d taken =>
      obtain ⟨rfl, hrest⟩ := List.cons.inj h
      rcases ih hlater hrest with ⟨rfl, rfl⟩ | ⟨middle, rfl, rfl⟩
      · exact .inl ⟨rfl, rfl⟩
      · exact .inr ⟨middle, rfl, rfl⟩

/-! ### Texts of paths -/

theorem subject_cons {name : Text} {parts : List Text} (h : parts ≠ []) (isDirectory : Bool) :
    subject (name :: parts) isDirectory = name ++ '/' :: subject parts isDirectory := by
  have hjoined := Path.joined_cons h name
  obtain ⟨next, parts, rfl⟩ := List.exists_cons_of_ne_nil h
  cases isDirectory <;> simp [subject, hjoined]

theorem head?_subject {parts : List Text} (h : parts ≠ [])
    (names : ∀ part ∈ parts, part ≠ [] ∧ '/' ∉ part) (isDirectory : Bool) :
    (subject parts isDirectory).head? ≠ some '/' := by
  obtain ⟨first, parts, rfl⟩ := List.exists_cons_of_ne_nil h
  obtain ⟨hne, hslash⟩ := names first List.mem_cons_self
  obtain ⟨c, more, rfl⟩ := List.exists_cons_of_ne_nil hne
  have hc : c ≠ '/' := fun h => hslash (h ▸ List.mem_cons_self)
  cases parts <;> cases isDirectory <;> simp [subject, Path.joined, hc]

/-- The components of a path that are directories. -/
def directories (parts : List Text) (isDirectory : Bool) : List Text :=
  if isDirectory then parts else parts.dropLast

theorem directories_cons {parts : List Text} (h : parts ≠ []) (name : Text) (isDirectory : Bool) :
    directories (name :: parts) isDirectory = name :: directories parts isDirectory := by
  cases isDirectory
  · exact List.dropLast_cons_of_ne_nil h
  · rfl

/-! ### One name at a time -/

/-- A pattern of one name, at any depth and up to the end of the name. -/
structure Pattern.Floating (p : Pattern) (body : List Piece) (last : Piece) : Prop where
  pieces : p = .sequence (.leadingDirectories :: (body ++ [last]))
  within : ∀ piece ∈ body, piece.crosses = false
  ends : last = .boundary ∨ last = .literal '/'

/-- The text starts with the name that the pieces stand for. -/
def StartsWithName (body : List Piece) (last : Piece) (t : Text) : Prop :=
  ∃ name rest, t = name ++ rest ∧ Takes body name ∧ matchesPieces [last] rest = true

namespace Pattern.Floating

variable {p : Pattern} {body : List Piece} {last : Piece}

theorem boundary_notMem (h : p.Floating body last) : .boundary ∉ body := by
  intro hmem
  cases h.within _ hmem

theorem matches_iff (h : p.Floating body last) {t : Text} :
    p.matches t = true ↔ ∃ before rest, t = before ++ rest ∧
      Piece.leadingDirectories.Takes before ∧ StartsWithName body last rest := by
  rw [h.pieces, Pattern.matches, ← List.singleton_append,
    matchesPieces_append (by decide : Piece.boundary ∉ [Piece.leadingDirectories])]
  simp only [takes_singleton, matchesPieces_append h.boundary_notMem]
  rfl

theorem rest_of_matches (h : p.Floating body last) {t : Text}
    (ht : matchesPieces [last] t = true) : t = [] ∨ ∃ more, t = '/' :: more := by
  rcases h.ends with rfl | rfl
  · exact matchesPieces_boundary.mp ht
  · cases t with
    | nil => cases ht
    | cons c more =>
      by_cases hc : c = '/'
      · exact .inr ⟨more, by rw [hc]⟩
      · simp [matchesPieces, Piece.rests, afterChar, hc] at ht

theorem matches_slash (h : p.Floating body last) (more : Text) :
    matchesPieces [last] ('/' :: more) = true := by
  rcases h.ends with rfl | rfl
  · exact matchesPieces_boundary.mpr (.inr ⟨more, rfl⟩)
  · simp [matchesPieces, Piece.rests, afterChar]

theorem startsWithName_cons (h : p.Floating body last) {name : Text} (hname : '/' ∉ name)
    (below : Text) : StartsWithName body last (name ++ '/' :: below) ↔ Takes body name := by
  constructor
  · intro hstart
    obtain ⟨taken, rest, heq, htaken, hrest⟩ := hstart
    have hslash : '/' ∉ taken := slash_notMem_of_takes h.within htaken
    rcases h.rest_of_matches hrest with rfl | ⟨more, rfl⟩
    · rw [List.append_nil] at heq
      exact absurd (heq ▸ List.mem_append_right _ List.mem_cons_self) hslash
    · rcases slash_split hname heq.symm with ⟨rfl, -⟩ | ⟨middle, rfl, -⟩
      · exact htaken
      · exact absurd (List.mem_append_right _ List.mem_cons_self) hslash
  · exact fun htaken => ⟨name, '/' :: below, rfl, htaken, h.matches_slash below⟩

/-- A floating pattern finds its name here or below. -/
theorem matches_cons (h : p.Floating body last) {name below : Text} (hne : name ≠ [])
    (hname : '/' ∉ name) (hbelow : below.head? ≠ some '/') :
    p.matches (name ++ '/' :: below) = true ↔ Takes body name ∨ p.matches below = true := by
  rw [h.matches_iff, h.matches_iff]
  constructor
  · intro hmatches
    obtain ⟨before, rest, heq, hbefore, hstart⟩ := hmatches
    rcases hbefore with rfl | ⟨names, hnames, rfl⟩
    · rw [List.nil_append] at heq
      exact .inl ((h.startsWithName_cons hname below).mp (heq ▸ hstart))
    · refine .inr ?_
      rw [List.append_assoc] at heq
      rcases slash_split hname heq.symm with ⟨-, rfl⟩ | ⟨middle, rfl, rfl⟩
      · exact ⟨[], rest, rfl, .inl rfl, hstart⟩
      · have hmiddle : middle ≠ [] := by
          rintro rfl
          exact hbelow rfl
        exact ⟨middle ++ ['/'], rest, by simp, .inr ⟨middle, hmiddle, rfl⟩, hstart⟩
  · rintro (htaken | ⟨before, rest, rfl, hbefore, hstart⟩)
    · exact ⟨[], _, rfl, .inl rfl, (h.startsWithName_cons hname below).mpr htaken⟩
    refine ⟨name ++ '/' :: before, rest, by simp, .inr ?_, hstart⟩
    rcases hbefore with rfl | ⟨names, -, rfl⟩
    · exact ⟨name, hne, rfl⟩
    · exact ⟨name ++ '/' :: names, List.append_ne_nil_of_left_ne_nil hne _, by simp⟩

theorem matches_name (h : p.Floating body last) {name : Text} (hname : '/' ∉ name) :
    p.matches name = true ↔ last = .boundary ∧ Takes body name := by
  rw [h.matches_iff]
  constructor
  · intro hmatches
    obtain ⟨before, rest, rfl, hbefore, taken, after, rfl, htaken, hafter⟩ := hmatches
    simp only [List.mem_append, not_or] at hname
    obtain ⟨hstart, -, hrest⟩ := hname
    have hnil : before = [] := hbefore.resolve_right fun ⟨names, _, hnames⟩ => by
      simp [hnames] at hstart
    have hend : after = [] := (h.rest_of_matches hafter).resolve_right fun ⟨more, hmore⟩ => by
      simp [hmore] at hrest
    subst hnil hend
    refine ⟨h.ends.resolve_right ?_, by simpa using htaken⟩
    rintro rfl
    cases hafter
  · rintro ⟨rfl, htaken⟩
    exact ⟨[], name, rfl, .inl rfl, name, [], (List.append_nil _).symm, htaken, rfl⟩

/-- A floating pattern looks at the components of a path, or at its directories. -/
theorem matches_subject (h : p.Floating body last) (hbody : ¬Takes body []) {parts : List Text}
    (hne : parts ≠ []) (names : ∀ part ∈ parts, part ≠ [] ∧ '/' ∉ part) (isDirectory : Bool) :
    p.matches (subject parts isDirectory) = true ↔
      ∃ name ∈ if last = .boundary then parts else directories parts isDirectory,
        Takes body name := by
  induction parts with
  | nil => exact absurd rfl hne
  | cons name parts ih =>
    obtain ⟨⟨hname, hslash⟩, hparts⟩ := List.forall_mem_cons.mp names
    by_cases hnil : parts = []
    · subst hnil
      cases isDirectory with
      | false =>
        have hsubject : subject [name] false = name := by simp [subject, Path.joined]
        rw [hsubject, h.matches_name hslash]
        by_cases hlast : last = .boundary <;> simp [hlast, directories]
      | true =>
        have hsubject : subject [name] true = name ++ '/' :: [] := by simp [subject, Path.joined]
        have hend : ¬p.matches [] = true := fun hmatches =>
          hbody ((h.matches_name List.not_mem_nil).mp hmatches).2
        rw [hsubject, h.matches_cons hname hslash (by simp)]
        simp [hend, directories]
    · rw [subject_cons hnil, h.matches_cons hname hslash (head?_subject hnil hparts isDirectory),
        ih hnil hparts, directories_cons hnil]
      by_cases hlast : last = .boundary <;> simp [hlast]

end Pattern.Floating

/-! ### Two forms of patterns -/

def Pattern.ofDirectory (name : Text) : Pattern :=
  .sequence (.leadingDirectories :: (name.map .literal ++ [.literal '/']))

def Pattern.ofEnding (ending : Text) : Pattern :=
  .sequence (.leadingDirectories :: (.star :: ending.map .literal ++ [.boundary]))

theorem takes_literals {name t : Text} : Takes (name.map .literal) t ↔ t = name := by
  induction name generalizing t with
  | nil => rfl
  | cons c name ih =>
    constructor
    · intro htakes
      obtain ⟨first, later, rfl, hfirst, hlater⟩ := htakes
      rw [show first = [c] from hfirst, ih.mp hlater]
      rfl
    · rintro rfl
      exact ⟨[c], name, rfl, rfl, ih.mpr rfl⟩

theorem takes_star_literals {ending t : Text} (ht : '/' ∉ t) :
    Takes (.star :: ending.map .literal) t ↔ ending <:+ t := by
  constructor
  · intro htakes
    obtain ⟨first, later, rfl, -, hlater⟩ := htakes
    exact ⟨first, by rw [takes_literals.mp hlater]⟩
  · intro hsuffix
    obtain ⟨first, rfl⟩ := hsuffix
    exact ⟨first, ending, rfl, fun hslash => ht (List.mem_append_left _ hslash),
      takes_literals.mpr rfl⟩

theorem crosses_literals {name : Text} (h : '/' ∉ name) :
    ∀ piece ∈ name.map Piece.literal, piece.crosses = false := by
  intro piece hpiece
  obtain ⟨c, hc, rfl⟩ := List.mem_map.mp hpiece
  exact decide_eq_false fun heq => h (heq ▸ hc)

theorem Pattern.floating_ofDirectory {name : Text} (h : '/' ∉ name) :
    (ofDirectory name).Floating (name.map .literal) (.literal '/') :=
  ⟨rfl, crosses_literals h, .inr rfl⟩

theorem Pattern.floating_ofEnding {ending : Text} (h : '/' ∉ ending) :
    (ofEnding ending).Floating (.star :: ending.map .literal) .boundary :=
  ⟨rfl, List.forall_mem_cons.mpr ⟨rfl, crosses_literals h⟩, .inl rfl⟩

section

variable {parts : List Text} (hne : parts ≠ []) (names : ∀ part ∈ parts, part ≠ [] ∧ '/' ∉ part)
include hne names

theorem Pattern.matches_ofDirectory {name : Text} (h : name ≠ [] ∧ '/' ∉ name)
    (isDirectory : Bool) :
    (ofDirectory name).matches (subject parts isDirectory) = true ↔
      name ∈ directories parts isDirectory := by
  have hbody : ¬Takes (name.map .literal) [] := fun htaken => h.1 (takes_literals.mp htaken).symm
  rw [(floating_ofDirectory h.2).matches_subject hbody hne names]
  simp [takes_literals]

theorem Pattern.matches_ofEnding {ending : Text} (h : ending ≠ [] ∧ '/' ∉ ending)
    (isDirectory : Bool) :
    (ofEnding ending).matches (subject parts isDirectory) = true ↔
      ∃ name ∈ parts, ending <:+ name := by
  have hbody : ¬Takes (.star :: ending.map .literal) [] := fun htaken =>
    h.1 (List.suffix_nil.mp ((takes_star_literals List.not_mem_nil).mp htaken))
  rw [(floating_ofEnding h.2).matches_subject hbody hne names, if_pos rfl]
  exact exists_congr fun name => and_congr_right fun hname =>
    takes_star_literals (names name hname).2

end

/-! ### Default rules -/

/-- The default patterns that end with a slash, without it. -/
def defaultDirectories : List Text :=
  (defaultPatterns.filter fun p => p.getLast? = some '/').map List.dropLast

/-- The default patterns that start with a star, without it. -/
def defaultEndings : List Text :=
  (defaultPatterns.filter fun p => p.head? = some '*').map List.tail

theorem perm_defaultRules :
    (defaultRules.map Rule.pattern).Perm
      (defaultDirectories.map Pattern.ofDirectory ++ defaultEndings.map Pattern.ofEnding) := by
  decide +kernel

theorem names_default :
    ∀ name ∈ defaultDirectories ++ defaultEndings, name ≠ [] ∧ '/' ∉ name := by
  decide +kernel

/-- What the default rules ignore, said of the components of a path. -/
theorem ignored_defaultRules_iff {parts : List Text} (hne : parts ≠ [])
    (names : ∀ part ∈ parts, part ≠ [] ∧ '/' ∉ part) (isDirectory : Bool) :
    ignored defaultRules (subject parts isDirectory) = true ↔
      (∃ name ∈ directories parts isDirectory, name ∈ defaultDirectories) ∨
        ∃ name ∈ parts, ∃ ending ∈ defaultEndings, ending <:+ name := by
  obtain ⟨hdirectories, hendings⟩ := List.forall_mem_append.mp names_default
  have hdirectory : (∃ name ∈ defaultDirectories,
      (Pattern.ofDirectory name).matches (subject parts isDirectory) = true) ↔
        ∃ name ∈ directories parts isDirectory, name ∈ defaultDirectories := by
    refine exists_congr fun name => ?_
    rw [and_comm]
    exact and_congr_left fun hname =>
      Pattern.matches_ofDirectory hne names (hdirectories name hname) isDirectory
  have hending : (∃ ending ∈ defaultEndings,
      (Pattern.ofEnding ending).matches (subject parts isDirectory) = true) ↔
        ∃ name ∈ parts, ∃ ending ∈ defaultEndings, ending <:+ name := by
    have hmatches : ∀ ending ∈ defaultEndings, _ := fun ending hmem =>
      Pattern.matches_ofEnding hne names (hendings ending hmem) isDirectory
    constructor
    · intro hsome
      obtain ⟨ending, hmem, hmatch⟩ := hsome
      obtain ⟨name, hname, hsuffix⟩ := (hmatches ending hmem).mp hmatch
      exact ⟨name, hname, ending, hmem, hsuffix⟩
    · intro hsome
      obtain ⟨name, hname, ending, hmem, hsuffix⟩ := hsome
      exact ⟨ending, hmem, (hmatches ending hmem).mpr ⟨name, hname, hsuffix⟩⟩
  have hpattern : ignored defaultRules (subject parts isDirectory) = true ↔
      ∃ p ∈ defaultRules.map Rule.pattern, p.matches (subject parts isDirectory) = true := by
    simp only [ignored_iff plain_defaultRules, List.mem_map, exists_exists_and_eq_and]
  simp only [hpattern, perm_defaultRules.mem_iff, List.mem_append, List.mem_map, or_and_right,
    exists_or, exists_exists_and_eq_and]
  exact or_congr hdirectory hending

/-- Below a directory that the default rules do not ignore, they ignore what they ignore there. -/
theorem ignored_defaultRules_below {name : Text} {parts : List Text} (hne : parts ≠ [])
    (names : ∀ part ∈ name :: parts, part ≠ [] ∧ '/' ∉ part)
    (h : ignored defaultRules (subject [name] true) = false) (isDirectory : Bool) :
    ignored defaultRules (subject (name :: parts) isDirectory) =
      ignored defaultRules (subject parts isDirectory) := by
  obtain ⟨hname, hparts⟩ := List.forall_mem_cons.mp names
  rw [Bool.eq_false_iff, ne_eq, ignored_defaultRules_iff (List.cons_ne_nil _ _)
    (List.forall_mem_singleton.mpr hname), not_or] at h
  obtain ⟨hnone, hneither⟩ := h
  have hdirectory : name ∉ defaultDirectories := fun hmem =>
    hnone ⟨name, List.mem_singleton_self name, hmem⟩
  have hending : ¬∃ ending ∈ defaultEndings, ending <:+ name := fun hends =>
    hneither ⟨name, List.mem_singleton_self name, hends⟩
  rw [Bool.eq_iff_iff, ignored_defaultRules_iff (List.cons_ne_nil _ _) names,
    ignored_defaultRules_iff hne hparts, directories_cons hne, List.exists_mem_cons_iff,
    List.exists_mem_cons_iff, or_iff_right hdirectory, or_iff_right hending]

end DqlScan.Ignore
