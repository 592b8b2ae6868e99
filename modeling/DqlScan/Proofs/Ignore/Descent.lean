import DqlScan.Ignore.Rule
import DqlScan.Ignore.PathFilter
import DqlScan.Proofs.File.Lookup
import DqlScan.Proofs.Ignore.Shape

/-!
# Rules below directories

What matches a directory matches all that lies below it (`Pattern.matches_below`). Only a pattern
whose last name ends in a set that a slash belongs to is different: the set may take the slash after
the directory.
-/

namespace DqlScan.Ignore

/-- The pattern ends in a set that a slash belongs to, and the set does not start a name. -/
def Pattern.takesSlash : Pattern → Bool
  | .sequence pieces =>
    match pieces.reverse with
    | .boundary :: .oneOf set :: before =>
      set.contains '/' && before ≠ [] && before ≠ [.leadingDirectories] &&
        before.head? ≠ some (.literal '/')
    | _ => false
  | .everything | .insideDirectory => false

theorem takes_append {pieces more : List Piece} {t : Text} :
    Takes (pieces ++ more) t ↔ ∃ first later, t = first ++ later ∧ Takes pieces first ∧
      Takes more later := by
  induction pieces generalizing t with
  | nil => simp [Takes]
  | cons piece pieces ih =>
    constructor
    · rintro ⟨start, _, rfl, hstart, hrest⟩
      obtain ⟨first, later, rfl, hfirst, hlater⟩ := ih.mp hrest
      exact ⟨start ++ first, later, by simp, ⟨start, first, rfl, hstart, hfirst⟩, hlater⟩
    · rintro ⟨_, later, rfl, ⟨start, first, rfl, hstart, hfirst⟩, hlater⟩
      exact ⟨start, first ++ later, by simp, hstart, ih.mpr ⟨first, later, rfl, hfirst, hlater⟩⟩

theorem takes_singleton {piece : Piece} {t : Text} : Takes [piece] t ↔ piece.Takes t := by
  simp [Takes]

/-- What stands in front of the set takes nothing, or something with a slash at its end. -/
theorem slash_of_not_takesSlash {body : List Piece} {set : CharSet}
    (h : (Pattern.sequence (body ++ [.oneOf set, .boundary])).takesSlash = false)
    (hset : set.contains '/' = true) {t : Text} (ht : Takes body t) :
    t = [] ∨ ∃ before, t = before ++ ['/'] := by
  obtain rfl | ⟨before, piece, rfl⟩ := List.eq_nil_or_concat body
  · exact .inl ht
  rw [List.concat_eq_append] at h ht
  obtain ⟨first, last, rfl, hfirst, hlast⟩ := takes_append.mp ht
  rw [takes_singleton] at hlast
  have hpiece : (piece = .leadingDirectories ∧ before = []) ∨ piece = .literal '/' := by
    by_contra hneither
    simp [Pattern.takesSlash, hset] at h
    tauto
  rcases hpiece with ⟨rfl, rfl⟩ | rfl
  · obtain rfl : first = [] := hfirst
    exact hlast.imp_right fun ⟨names, _, hnames⟩ => ⟨names, hnames⟩
  · obtain rfl : last = ['/'] := hlast
    exact .inr ⟨first, rfl⟩

/-- Of the pieces of a name, only a set takes a slash. -/
theorem Piece.InName.takes_slash {piece : Piece} (h : piece.InName) {t : Text}
    (ht : piece.Takes t) (hslash : '/' ∈ t) :
    t = ['/'] ∧ ∃ set, piece = .oneOf set ∧ set.contains '/' = true := by
  cases piece with
  | literal c =>
    obtain rfl : t = [c] := ht
    exact absurd (List.mem_singleton.mp hslash).symm h
  | oneOf set =>
    obtain ⟨c, rfl, hc⟩ := ht
    obtain rfl := List.mem_singleton.mp hslash
    exact ⟨rfl, set, rfl, hc⟩
  | anyChar =>
    obtain ⟨c, rfl, hc⟩ := ht
    exact absurd (List.mem_singleton.mp hslash).symm hc
  | star => exact absurd hslash ht
  | name => exact absurd hslash ht.2
  | leadingDirectories | innerDirectories | boundary => exact h.elim

theorem Piece.InName.takes_nil {piece : Piece} (h : piece.InName) (ht : piece.Takes []) :
    piece = .star := by
  cases piece with
  | star => rfl
  | literal c => cases ht
  | oneOf set | anyChar =>
    obtain ⟨c, hnil, -⟩ := ht
    cases hnil
  | name => exact absurd rfl ht.1
  | leadingDirectories | innerDirectories | boundary => exact h.elim

theorem matchesPieces_append_text {pieces : List Piece} (h : .boundary ∉ pieces) {t : Text}
    (ht : matchesPieces pieces t = true) (more : Text) :
    matchesPieces pieces (t ++ more) = true := by
  rw [← List.append_nil pieces, matchesPieces_append h] at ht ⊢
  obtain ⟨taken, rest, rfl, htaken, -⟩ := ht
  exact ⟨taken, rest ++ more, List.append_assoc _ _ _, htaken, rfl⟩

theorem exists_name_append (t : Text) :
    ∃ name rest, t = name ++ rest ∧ '/' ∉ name ∧ (rest = [] ∨ ∃ more, rest = '/' :: more) := by
  induction t with
  | nil => exact ⟨[], [], rfl, List.not_mem_nil, .inl rfl⟩
  | cons c t ih =>
    by_cases hc : c = '/'
    · exact ⟨[], c :: t, rfl, List.not_mem_nil, .inr ⟨t, by rw [hc]⟩⟩
    · obtain ⟨name, rest, rfl, hname, hrest⟩ := ih
      exact ⟨c :: name, rest, rfl, List.not_mem_cons_of_ne_of_not_mem (Ne.symm hc) hname, hrest⟩

/-- Where no set takes the slash after a directory, a name at the end of a pattern is there to take
it only if a star has taken nothing. -/
theorem star_of_takes_directory {body : List Piece} {last : Piece} (hinName : last.InName)
    (h : (Pattern.sequence (body ++ [last, .boundary])).takesSlash = false) {directory : Text}
    (hname : directory ≠ []) (hlast : directory.getLast? ≠ some '/')
    (htaken : Takes (body ++ [last]) (directory ++ ['/'])) :
    last = .star ∧ Takes body (directory ++ ['/']) := by
  obtain ⟨first, later, htext, hfirst, hlater⟩ := takes_append.mp htaken
  rw [takes_singleton] at hlater
  by_cases hnil : later = []
  · subst hnil
    rw [htext, List.append_nil]
    exact ⟨hinName.takes_nil hlater, hfirst⟩
  · have hslash : later.getLast hnil = '/' := by
      have hends := congrArg List.getLast? htext
      rw [List.getLast?_concat, List.getLast?_append_of_ne_nil _ hnil,
        List.getLast?_eq_some_getLast hnil] at hends
      exact (Option.some.inj hends).symm
    obtain ⟨rfl, set, rfl, hset⟩ := hinName.takes_slash hlater (hslash ▸ List.getLast_mem hnil)
    obtain rfl := List.append_cancel_right htext
    rcases slash_of_not_takesSlash h hset hfirst with rfl | ⟨before, rfl⟩
    · exact absurd rfl hname
    · exact absurd (List.getLast?_concat ..) hlast

theorem Pattern.matches_below {p : Pattern} (shaped : p.Shaped) (h : p.takesSlash = false)
    {directory : Text} (hname : directory ≠ []) (hlast : directory.getLast? ≠ some '/')
    (hmatches : p.matches (directory ++ ['/']) = true) (below : Text) :
    p.matches (directory ++ '/' :: below) = true := by
  rw [← List.singleton_append, ← List.append_assoc]
  cases p with
  | everything => simp [Pattern.matches]
  | insideDirectory => simp [Pattern.matches]
  | sequence pieces =>
    rcases shaped with hnone | ⟨body, last, rfl, hbody, hinName⟩
    · exact matchesPieces_append_text hnone hmatches below
    have hpieces : .boundary ∉ body ++ [last] := by
      simp [hbody, hinName.ne_boundary.symm]
    have hsplit : body ++ [last, .boundary] = body ++ [last] ++ [.boundary] := by simp
    unfold Pattern.matches at hmatches ⊢
    rw [hsplit, matchesPieces_append hpieces] at hmatches ⊢
    obtain ⟨taken, rest, htext, htaken, hrest⟩ := hmatches
    rw [htext, List.append_assoc]
    rcases matchesPieces_boundary.mp hrest with rfl | ⟨after, rfl⟩
    · -- The star goes on to the end of the next name.
      rw [List.append_nil] at htext
      subst htext
      obtain ⟨rfl, hstart⟩ := star_of_takes_directory hinName h hname hlast htaken
      obtain ⟨name, more, rfl, hslash, hmore⟩ := exists_name_append below
      refine ⟨directory ++ ['/'] ++ name, more, by simp, ?_, matchesPieces_boundary.mpr hmore⟩
      exact takes_append.mpr ⟨_, name, rfl, hstart, takes_singleton.mpr hslash⟩
    · exact ⟨taken, '/' :: after ++ below, rfl, htaken, matchesPieces_boundary.mpr (.inr ⟨_, rfl⟩)⟩

/-! ### Rules -/

/-- The rule keeps no path, and no set at its end takes the slash after a directory. -/
structure Rule.Plain (rule : Rule) : Prop where
  ignores : rule.negated = false
  pattern : rule.pattern.takesSlash = false

instance : DecidablePred Rule.Plain := fun rule =>
  decidable_of_iff (rule.negated = false ∧ rule.pattern.takesSlash = false)
    ⟨fun h => ⟨h.1, h.2⟩, fun h => ⟨h.ignores, h.pattern⟩⟩

theorem plain_defaultRules : ∀ rule ∈ defaultRules, rule.Plain := by decide

theorem ignored_iff {rules : List Rule} (plain : ∀ rule ∈ rules, rule.Plain) {t : Text} :
    ignored rules t = true ↔ ∃ rule ∈ rules, rule.pattern.matches t = true := by
  unfold ignored verdict?
  rw [decide_eq_true_iff]
  constructor
  · intro h
    obtain ⟨rule, hfind, -⟩ := Option.map_eq_some_iff.mp h
    have hmatches := List.find?_some hfind
    exact ⟨rule, List.mem_reverse.mp (List.mem_of_find?_eq_some hfind), hmatches⟩
  · rintro ⟨rule, hrule, hmatches⟩
    rcases hfind : rules.reverse.find? (·.pattern.matches t) with _ | found
    · exact absurd hmatches (List.find?_eq_none.mp hfind rule (List.mem_reverse.mpr hrule))
    · have hfound := plain found (List.mem_reverse.mp (List.mem_of_find?_eq_some hfind))
      rw [hfind, Option.map_some, hfound.ignores]
      rfl

theorem getLast?_joined {above : List Text} (habove : above ≠ [])
    (names : ∀ name ∈ above, name ≠ [] ∧ '/' ∉ name) :
    Path.joined above ≠ [] ∧ (Path.joined above).getLast? ≠ some '/' := by
  obtain rfl | ⟨before, name, rfl⟩ := List.eq_nil_or_concat above
  · exact absurd rfl habove
  rw [List.concat_eq_append] at names ⊢
  obtain ⟨hname, hslash⟩ := names name (by simp)
  have hlast : name.getLast? ≠ some '/' := fun h => hslash (List.mem_of_getLast? h)
  have hends : ∃ start, Path.joined (before ++ [name]) = start ++ name := by
    by_cases hnil : before = []
    · subst hnil
      exact ⟨[], by simp [Path.joined]⟩
    · exact ⟨Path.joined before ++ ['/'], by
        rw [Path.joined_append hnil (List.cons_ne_nil _ _)]
        simp [Path.joined]⟩
  obtain ⟨start, hstart⟩ := hends
  rw [hstart, List.getLast?_append_of_ne_nil _ hname]
  exact ⟨List.append_ne_nil_of_right_ne_nil _ hname, hlast⟩

/-- Rules that ignore a directory ignore all that it holds. -/
theorem ignored_below {rules : List Rule} (shaped : ∀ rule ∈ rules, rule.pattern.Shaped)
    (plain : ∀ rule ∈ rules, rule.Plain) {above below : List Text} (habove : above ≠ [])
    (names : ∀ name ∈ above, name ≠ [] ∧ '/' ∉ name) (hbelow : below ≠ [])
    (h : ignored rules (subject above true) = true) :
    ignored rules (subject (above ++ below) false) = true := by
  have hdirectory : subject above true = Path.joined above ++ ['/'] := by
    obtain ⟨name, above, rfl⟩ := List.exists_cons_of_ne_nil habove
    rfl
  have hfile : subject (above ++ below) false = Path.joined above ++ '/' :: Path.joined below := by
    rw [← Path.joined_append habove hbelow]
    obtain ⟨name, above, rfl⟩ := List.exists_cons_of_ne_nil habove
    rfl
  obtain ⟨hname, hlast⟩ := getLast?_joined habove names
  rw [hdirectory, ignored_iff plain] at h
  obtain ⟨rule, hrule, hmatches⟩ := h
  rw [hfile, ignored_iff plain]
  have hbelow := Pattern.matches_below (shaped rule hrule) (plain rule hrule).pattern hname hlast
    hmatches (Path.joined below)
  exact ⟨rule, hrule, hbelow⟩

end DqlScan.Ignore
