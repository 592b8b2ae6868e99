import DqlScan.Proofs.Ignore.Descent
import DqlScan.Proofs.Ignore.Loading

/-!
# Paths that rules take back

In one list of rules the last that matches a path decides. Across lists nothing is taken back: a
path that the rules of a directory keep is still ignored if the rules of the root or of a directory
above ignore it (`ignores_iff_of_takesBack`).
-/

namespace DqlScan

open Ignore

namespace Ignore

def Untouched (rules : List Rule) (t : Text) : Prop :=
  ∀ rule ∈ rules, rule.pattern.matches t = false

/-- Of the rules that match the text, the last keeps it. -/
def TakenBack (rules : List Rule) (t : Text) : Prop :=
  ∃ earlier rule later, rules = earlier ++ rule :: later ∧ rule.negated = true ∧
    rule.pattern.matches t = true ∧ Untouched later t

variable {rules : List Rule} {t : Text}

theorem verdict?_append (earlier later : List Rule) (t : Text) :
    verdict? (earlier ++ later) t = (verdict? later t).or (verdict? earlier t) := by
  unfold verdict?
  rw [List.reverse_append, List.find?_append]
  cases later.reverse.find? (·.pattern.matches t) <;> rfl

theorem verdict?_eq_none_iff : verdict? rules t = none ↔ Untouched rules t := by
  simp [verdict?, Untouched]

theorem Untouched.not_ignored (h : Untouched rules t) : ignored rules t = false := by
  rw [ignored, verdict?_eq_none_iff.mpr h]
  rfl

theorem takenBack_iff : TakenBack rules t ↔ verdict? rules t = some false := by
  constructor
  · intro h
    obtain ⟨earlier, rule, later, rfl, hnegated, hmatches, hlater⟩ := h
    have hrule : verdict? (rule :: later) t = some false := by
      rw [← List.singleton_append, verdict?_append, verdict?_eq_none_iff.mpr hlater]
      simp [verdict?, hmatches, hnegated]
    rw [verdict?_append, hrule]
    rfl
  · intro h
    obtain ⟨rule, hfind, hnegated⟩ := Option.map_eq_some_iff.mp h
    obtain ⟨hmatches, later, earlier, hrules, hlater⟩ := List.find?_eq_some_iff_append.mp hfind
    refine ⟨earlier.reverse, rule, later.reverse, ?_, by simpa using hnegated, hmatches,
      fun r hr => by simpa using hlater r (List.mem_reverse.mp hr)⟩
    rw [← List.reverse_inj, hrules]
    simp

theorem TakenBack.not_ignored (h : TakenBack rules t) : ignored rules t = false := by
  rw [ignored, takenBack_iff.mp h]
  rfl

instance : Decidable (Untouched rules t) :=
  inferInstanceAs (Decidable (∀ rule ∈ rules, rule.pattern.matches t = false))

instance : Decidable (TakenBack rules t) := decidable_of_iff _ takenBack_iff.symm

namespace PathFilter

/-- The rules of a directory that was loaded take back what lies below it, and neither the default
rules nor those of a directory on the way match it. -/
structure TakesBack (f : PathFilter) (s : Scope) (below : List Text) (isDirectory : Bool) :
    Prop where
  loaded : s ∈ f.scopes
  proper : below ≠ []
  default : Untouched defaultRules (subject (s.directory ++ below) isDirectory)
  takenBack : TakenBack s.rules (subject below isDirectory)
  between : ∀ t ∈ f.scopes, t.directory ≠ s.directory → s.directory <+: t.directory →
    ∀ rest, rest ≠ [] → s.directory ++ below = t.directory ++ rest →
      Untouched t.rules (subject rest isDirectory)

variable {fs : FileSystem} {root : Path} {nested : Bool} {directories : List Path} {f : PathFilter}

theorem rules_eq_of_directory_eq (h : ofLoads fs root nested directories = .ok f)
    {s t : Scope} (hs : s ∈ f.scopes) (ht : t ∈ f.scopes) (heq : t.directory = s.directory) :
    t.rules = s.rules := by
  rw [ofLoads_eq_ok h] at hs ht
  obtain ⟨d, -, hd⟩ := List.mem_filterMap.mp hs
  obtain ⟨e, -, he⟩ := List.mem_filterMap.mp ht
  obtain ⟨-, -, hrules, rfl⟩ := FileSystem.scope?_eq_some.mp hd
  obtain ⟨-, -, hrules', rfl⟩ := FileSystem.scope?_eq_some.mp he
  rw [heq, hrules] at hrules'
  exact (Option.some.inj hrules').symm

/-- A path that a directory takes back is ignored exactly if the rules of the root ignore it, or
those of a directory above, or its own as those of a directory. -/
theorem ignores_iff_of_takesBack (h : ofLoads fs root nested directories = .ok f)
    {s : Scope} {below : List Text} {isDirectory : Bool} (back : f.TakesBack s below isDirectory)
    {p : Path} (hp : f.placed p = f.root.extend (s.directory ++ below)) :
    f.ignores p isDirectory = true ↔
      ignored f.rootRules (subject (s.directory ++ below) isDirectory) = true ∨
        ∃ t ∈ f.scopes, t.ignores (s.directory ++ below) isDirectory = true ∧
          ((∃ inner, inner ≠ [] ∧ s.directory = t.directory ++ inner) ∨
            t.directory = s.directory ++ below) := by
  have hdefault := back.default.not_ignored
  have hparts : f.ignores p isDirectory = f.ignoresParts (s.directory ++ below) isDirectory := by
    rw [ignores, parts?_eq_some.mpr hp]
  rw [hparts, ignoresParts, hdefault, Bool.false_or, Bool.or_eq_true, List.any_eq_true]
  apply or_congr_right
  constructor
  · intro hsome
    obtain ⟨t, ht, hignores⟩ := hsome
    refine ⟨t, ht, hignores, ?_⟩
    obtain ⟨rest, hrest, hrules⟩ := Scope.ignores_iff.mp hignores
    have hproper : t.directory ≠ s.directory := by
      intro heq
      rw [heq] at hrest
      rw [← List.append_cancel_left hrest, rules_eq_of_directory_eq h back.loaded ht heq,
        back.takenBack.not_ignored] at hrules
      cases hrules
    rcases List.append_eq_append_iff.mp hrest with ⟨inner, hinner, hbelow⟩ | ⟨inner, hinner, -⟩
    · refine .inr ?_
      by_cases hnil : rest = []
      · rw [hinner, hbelow, hnil, List.append_nil]
      · have huntouched := back.between t ht hproper ⟨inner, hinner.symm⟩ rest hnil hrest
        rw [huntouched.not_ignored] at hrules
        cases hrules
    · refine .inl ⟨inner, ?_, hinner⟩
      intro hnil
      rw [hnil, List.append_nil] at hinner
      exact hproper hinner.symm
  · intro hsome
    obtain ⟨t, ht, hignores, -⟩ := hsome
    exact ⟨t, ht, hignores⟩

def nestedRules (outer inner name : String) : Listing :=
  .file ruleFileName (Utf8.encode outer.toList)
    (.directory name.toList (.file ruleFileName (Utf8.encode inner.toList) .nil) .nil)

theorem ignores_iff_of_takesBack_sample :
    let fs : FileSystem :=
      ⟨.directory "w".toList
        (.file ruleFileName (Utf8.encode "*.log\n".toList)
          (.directory "lib".toList (.file ruleFileName (Utf8.encode "*\n".toList) .nil)
            (.directory "pkg".toList (nestedRules "gen.*\n!gen.js\n" "*.ts\n" "sub") .nil))) .nil,
        []⟩
    let root : Path := ⟨.root, ["w".toList]⟩
    let pkg := "pkg".toList
    let sub := "sub".toList
    let directories := [root.extend ["lib".toList], root.extend [pkg], root.extend [pkg, sub]]
    let s : Scope := ⟨[pkg], rulesOf ["gen.*\n", "!gen.js\n"]⟩
    let below := [sub, "gen.js".toList]
    ∃ f, ofLoads fs root true directories = .ok f ∧ f.TakesBack s below false ∧
      f.placed (root.extend (pkg :: below)) = f.root.extend (s.directory ++ below) ∧
      f.ignores (root.extend (pkg :: below)) false = false := by
  intro fs root pkg sub directories s below
  let f : PathFilter := {
    root, nested := true, rootRules := rulesOf ["*.log\n"]
    scopes := [⟨["lib".toList], rulesOf ["*\n"]⟩, s, ⟨[pkg, sub], rulesOf ["*.ts\n"]⟩] }
  have hf : ofLoads fs root true directories = .ok f := by rfl
  have hback : f.TakesBack s below false := by
    refine ⟨by simp [f], by decide, by decide +kernel, by decide +kernel, ?_⟩
    intro t ht hproper hprefix rest hrest hparts
    rcases List.mem_cons.mp ht with rfl | ht
    · exact absurd hprefix (by decide)
    rcases List.mem_cons.mp ht with rfl | ht
    · exact absurd rfl hproper
    obtain rfl := List.mem_singleton.mp ht
    obtain rfl : ["gen.js".toList] = rest := (List.cons.inj (List.cons.inj hparts).2).2
    decide +kernel
  have hp : f.placed (root.extend (pkg :: below)) = f.root.extend (s.directory ++ below) := rfl
  refine ⟨f, hf, hback, hp, ?_⟩
  rw [Bool.eq_false_iff, ne_eq, ignores_iff_of_takesBack hf hback hp]
  have hroot : ignored f.rootRules (subject (s.directory ++ below) false) = false := by
    decide +kernel
  have hscopes : ∀ t ∈ f.scopes, t.ignores (s.directory ++ below) false = false := by
    decide +kernel
  rintro (hignored | ⟨t, ht, hignores, -⟩)
  · rw [hroot] at hignored
    cases hignored
  · rw [hscopes t ht] at hignores
    cases hignores

/-- The root ignores what the directory takes back. -/
theorem takesBack_ignored :
    let fs : FileSystem :=
      ⟨.directory "w".toList (nestedRules "gen.js\n" "!gen.js\n" "sub") .nil, []⟩
    let root : Path := ⟨.root, ["w".toList]⟩
    let s : Scope := ⟨["sub".toList], rulesOf ["!gen.js\n"]⟩
    let below := ["gen.js".toList]
    ∃ f, ofLoads fs root true [root.extend s.directory] = .ok f ∧ f.TakesBack s below false ∧
      f.ignores (root.extend (s.directory ++ below)) false = true := by
  intro fs root s below
  let f : PathFilter := { root, nested := true, rootRules := rulesOf ["gen.js\n"], scopes := [s] }
  have hf : ofLoads fs root true [root.extend s.directory] = .ok f := by rfl
  refine ⟨f, hf, ⟨List.mem_singleton_self s, by decide, by decide +kernel, by decide +kernel, ?_⟩,
    by decide +kernel⟩
  intro t ht hproper
  rw [List.mem_singleton.mp ht] at hproper
  exact absurd rfl hproper

end PathFilter

end Ignore

end DqlScan
