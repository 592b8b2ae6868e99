import DqlScan.Proofs.Ignore.Scopes

/-!
# Filters and the directories that they load

A directory that is loaded adds its scope, or nothing if its rules cannot be had (`afterLoad_eq`).
So the answers of a filter depend on which directories it was given, in whatever order, and one more
directory only adds to what is ignored below it (`ignores_ofLoads`).
-/

namespace DqlScan

open Ignore

/-- What a directory adds to the filters of a root: its rules, for what lies below it. -/
def FileSystem.scope? (fs : FileSystem) (root : Path) (nested : Bool) (directory : Path) :
    Option Scope :=
  if nested ∧ directory ≠ root then
    (fs.rules? directory).bind fun rules => (directory.below? root).map fun parts => ⟨parts, rules⟩
  else none

namespace Path

theorem below?_eq_some {p base : Path} {parts : List Text} :
    p.below? base = some parts ↔ p = base.extend parts := by
  obtain ⟨anchor, names⟩ := p
  obtain ⟨start, above⟩ := base
  simp only [below?, extend, mk.injEq]
  by_cases hanchor : anchor = start
  · simp [hanchor, List.isPrefixOf?_eq_some_iff_append_eq, eq_comm]
  · simp [hanchor]

theorem extend_extend (p : Path) (parts below : List Text) :
    (p.extend parts).extend below = p.extend (parts ++ below) := by
  simp [extend]

end Path

theorem FileSystem.scope?_eq_some {fs : FileSystem} {root directory : Path} {nested : Bool}
    {s : Scope} :
    fs.scope? root nested directory = some s ↔
      nested = true ∧ directory ≠ root ∧ fs.rules? directory = some s.rules ∧
        directory = root.extend s.directory := by
  obtain ⟨parts, rules⟩ := s
  unfold scope?
  split
  · next h => simp [Option.bind_eq_some_iff, Path.below?_eq_some, h]
  · next h => simp_all

namespace Ignore.PathFilter

/-- The filter after an attempt to load a directory. One that fails leaves it as it is. -/
def afterLoad (f : PathFilter) (fs : FileSystem) (directory : Path) : PathFilter :=
  match f.loadAt fs directory with
  | .ok (g, _) => g
  | .error _ => f

def ofLoads (fs : FileSystem) (root : Path) (nested : Bool) (directories : List Path) :
    Except LoadFault PathFilter :=
  match ofDirectory fs root nested with
  | .error fault => .error fault
  | .ok (f, _) => .ok (directories.foldl (fun f directory => f.afterLoad fs directory) f)

variable {fs : FileSystem} {root : Path} {nested : Bool}

/-! ### Scopes of a filter -/

theorem afterLoad_eq (f : PathFilter) (fs : FileSystem) (directory : Path) :
    f.afterLoad fs directory = f.adding (fs.scope? f.root f.nested directory).toList := by
  unfold afterLoad loadAt FileSystem.scope? FileSystem.rules?
  split_ifs with hload
  · rcases ruleFile fs directory with fault | file
    · simp [Except.toOption]
    dsimp only
    unfold load
    rw [if_pos hload]
    rcases file with _ | node
    · simp [Except.toOption]
    cases node with
    | directory entries =>
      have hlines : ruleLines (.directory entries) = .error (.access .isDirectory) := rfl
      simp [Node.rules?, hlines, Except.toOption]
    | file content =>
      dsimp only
      rcases hlines : ruleLines (.file content) with fault | lines
      · simp [Node.rules?, hlines, Except.toOption]
      dsimp only
      rcases hcompiled : Rule.ofLines lines with fault | rules
      · simp [Node.rules?, hlines, hcompiled, Except.toOption]
      · rcases directory.below? f.root with _ | parts <;>
          simp [Node.rules?, hlines, hcompiled, adding, Except.toOption]
  · simp

theorem foldl_afterLoad (f : PathFilter) (fs : FileSystem) (directories : List Path) :
    directories.foldl (fun f directory => f.afterLoad fs directory) f =
      f.adding (directories.filterMap (fs.scope? f.root f.nested)) := by
  induction directories generalizing f with
  | nil => simp
  | cons directory later ih =>
    rw [List.foldl_cons, ih, afterLoad_eq, List.filterMap_cons]
    cases hscope : fs.scope? f.root f.nested directory with
    | none => simp
    | some s =>
      rw [adding_adding]
      rfl

variable {directories : List Path} {f : PathFilter}

theorem exists_made (h : ofLoads fs root nested directories = .ok f) :
    ∃ made notices, ofDirectory fs root nested = .ok (made, notices) ∧
      f = directories.foldl (fun f directory => f.afterLoad fs directory) made := by
  unfold ofLoads at h
  rcases hmade : ofDirectory fs root nested with fault | ⟨made, notices⟩ <;> rw [hmade] at h <;>
    cases h
  exact ⟨made, notices, rfl, rfl⟩

theorem ofLoads_eq_ok (h : ofLoads fs root nested directories = .ok f) :
    f = { root, nested, rootRules := (fs.rules? root).getD []
          scopes := directories.filterMap (fs.scope? root nested) } := by
  obtain ⟨made, notices, hmade, rfl⟩ := exists_made h
  rw [foldl_afterLoad, ofDirectory_eq_ok hmade]
  rfl

/-- Whether a filter can be had does not depend on the directories that it is given. -/
theorem exists_ofLoads (h : ofLoads fs root nested directories = .ok f) (others : List Path) :
    ∃ g, ofLoads fs root nested others = .ok g := by
  obtain ⟨made, notices, hmade, -⟩ := exists_made h
  exact ⟨_, by rw [ofLoads, hmade]⟩

theorem ofLoads_concat (h : ofLoads fs root nested directories = .ok f) (directory : Path) :
    ofLoads fs root nested (directories ++ [directory]) = .ok (f.afterLoad fs directory) := by
  obtain ⟨made, notices, hmade, rfl⟩ := exists_made h
  rw [ofLoads, hmade]
  dsimp only
  rw [List.foldl_concat]

/-! ### Answers of a filter -/

/-- A path as a filter sees it: a relative one is taken from the root. -/
def placed (f : PathFilter) (p : Path) : Path :=
  if p.anchor = .relative then f.root.extend p.parts else p

theorem parts?_eq_some {f : PathFilter} {p : Path} {parts : List Text} :
    f.parts? p = some parts ↔ f.placed p = f.root.extend parts := by
  unfold parts? placed
  split
  · simp [Path.extend]
  · exact Path.below?_eq_some

theorem ignores_iff {f : PathFilter} {p : Path} {isDirectory : Bool} :
    f.ignores p isDirectory = true ↔ ∃ parts, f.placed p = f.root.extend parts ∧
      (ignored defaultRules (subject parts isDirectory) = true ∨
        ignored f.rootRules (subject parts isDirectory) = true ∨
        ∃ s ∈ f.scopes, s.ignores parts isDirectory = true) := by
  simp only [← parts?_eq_some]
  unfold ignores
  cases f.parts? p with
  | none => simp
  | some parts => simp [ignoresParts, or_assoc]

theorem ignores_adding {f : PathFilter} {scopes : List Scope} {p : Path} {isDirectory : Bool} :
    (f.adding scopes).ignores p isDirectory = true ↔ f.ignores p isDirectory = true ∨
      ∃ parts, f.placed p = f.root.extend parts ∧
        ∃ s ∈ scopes, s.ignores parts isDirectory = true := by
  rw [ignores_iff, ignores_iff, ← exists_or]
  refine exists_congr fun parts => ?_
  simp only [adding, placed, List.mem_append, or_and_right, exists_or, and_or_left, or_assoc]

/-- The answers of a filter depend on the set of directories that it was given. One more takes
nothing back, and adds paths in that directory alone, as the filter places them. A root without
components places each path where it stands. -/
theorem ignores_ofLoads (h : ofLoads fs root nested directories = .ok f) :
    (∀ others, (∀ d, d ∈ others ↔ d ∈ directories) → ∃ g, ofLoads fs root nested others = .ok g ∧
        ∀ p isDirectory, g.ignores p isDirectory = f.ignores p isDirectory) ∧
      ∀ d, ∃ g, ofLoads fs root nested (directories ++ [d]) = .ok g ∧ ∀ p isDirectory,
        (f.ignores p isDirectory = true → g.ignores p isDirectory = true) ∧
        (g.ignores p isDirectory ≠ f.ignores p isDirectory →
          ∃ below, f.placed p = d.extend below) := by
  constructor
  · intro others same
    obtain ⟨g, hg⟩ := exists_ofLoads h others
    refine ⟨g, hg, fun p isDirectory => ?_⟩
    have hscopes : ∀ s, s ∈ others.filterMap (fs.scope? root nested) ↔
        s ∈ directories.filterMap (fs.scope? root nested) := by
      simp [List.mem_filterMap, same]
    rw [Bool.eq_iff_iff, ignores_iff, ignores_iff, ofLoads_eq_ok h, ofLoads_eq_ok hg]
    simp only [hscopes, placed]
  · intro d
    refine ⟨f.afterLoad fs d, ofLoads_concat h d, fun p isDirectory => ?_⟩
    rw [afterLoad_eq]
    refine ⟨fun hignores => ignores_adding.mpr (.inl hignores), fun hne => ?_⟩
    have hbefore : f.ignores p isDirectory ≠ true := fun hignores =>
      hne ((ignores_adding.mpr (.inl hignores)).trans hignores.symm)
    have hafter : (f.adding (fs.scope? f.root f.nested d).toList).ignores p isDirectory = true :=
      (Bool.not_eq_false _).mp fun hignores =>
        hne (hignores.trans (Bool.eq_false_iff.mpr hbefore).symm)
    obtain ⟨parts, hplaced, s, hs, hignores⟩ := (ignores_adding.mp hafter).resolve_left hbefore
    obtain ⟨-, -, -, hdirectory⟩ := FileSystem.scope?_eq_some.mp (Option.mem_toList.mp hs)
    obtain ⟨below, rfl, -⟩ := Scope.ignores_iff.mp hignores
    exact ⟨below, by rw [hplaced, hdirectory, Path.extend_extend]⟩

def rulesOf (lines : List String) : List Rule :=
  (Rule.ofLines (lines.map String.toList)).toOption.getD []

theorem ignores_ofLoads_sample :
    let fs : FileSystem :=
      ⟨.directory "w".toList
        (.directory "sub".toList (.file ruleFileName (Utf8.encode "*.log\n".toList) .nil)
          (.directory "bad".toList (.file ruleFileName [255] .nil) .nil))
        (.directory "out".toList (.file ruleFileName (Utf8.encode "*\n".toList) .nil) .nil), []⟩
    let root : Path := ⟨.root, ["w".toList]⟩
    let sub := root.child "sub".toList
    let bad := root.child "bad".toList
    let out : Path := ⟨.root, ["out".toList]⟩
    let log := sub.child "a.log".toList
    ∃ f, ofLoads fs root true [bad, out] = .ok f ∧
      (∃ g, ofLoads fs root true [out, bad, out] = .ok g ∧ g.ignores log false = false) ∧
        ∃ g, ofLoads fs root true [bad, out, sub] = .ok g ∧ g.ignores log false = true ∧
          ∃ below, f.placed log = sub.extend below := by
  intro fs root sub bad out log
  let f : PathFilter := { root, nested := true }
  have hf : ofLoads fs root true [bad, out] = .ok f := by rfl
  obtain ⟨hsame, hmore⟩ := ignores_ofLoads hf
  have hbefore : f.ignores log false = false := by decide +kernel
  refine ⟨f, hf, ?_, ?_⟩
  · obtain ⟨g, hg, hanswers⟩ := hsame [out, bad, out] (by simp [or_comm])
    exact ⟨g, hg, by rw [hanswers, hbefore]⟩
  · obtain ⟨g, hg, hanswers⟩ := hmore sub
    have hscopes : ofLoads fs root true [bad, out, sub] =
        .ok { f with scopes := [⟨["sub".toList], rulesOf ["*.log\n"]⟩] } := by rfl
    have hafter : g.ignores log false = true := by
      obtain rfl := Except.ok.inj (hg.symm.trans hscopes)
      decide +kernel
    exact ⟨g, hg, hafter, (hanswers log false).2 (by rw [hafter, hbefore]; decide)⟩

end Ignore.PathFilter

end DqlScan
