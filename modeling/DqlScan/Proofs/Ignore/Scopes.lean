import DqlScan.Ignore.PathFilter
import Mathlib.Data.List.Basic

/-!
# Rules of directories

What a filter takes from the rule file of a directory, and how it sees the paths below its root.
-/

namespace DqlScan

open Ignore

theorem Ignore.ruleLines_file (content : Bytes) :
    ruleLines (.file content) =
      ((Utf8.decodeBlocks blockSize content).mapError .encoding).map fun text =>
        Text.lines (Text.unifyNewlines text) := rfl

/-- The rules in a rule file, if it can be read and they compile. -/
def Node.rules? (node : Node) : Option (List Rule) :=
  (ruleLines node).toOption.bind fun lines => (Rule.ofLines lines).toOption

def FileSystem.rules? (fs : FileSystem) (directory : Path) : Option (List Rule) :=
  (PathFilter.ruleFile fs directory).toOption.join.bind Node.rules?

namespace Listing

def ruleLines? (l : Listing) : Option (List Text) :=
  (l.find? ruleFileName).bind fun node => (ruleLines node).toOption

/-- The rules of a directory. Without a rule file that can be read there are none. -/
def rules? (l : Listing) : Except RuleFault (List Rule) := Rule.ofLines (l.ruleLines?.getD [])

def rules (l : Listing) : List Rule := l.rules?.toOption.getD []

/-- The scope of a directory that components lead to, if it has a rule file that can be read. -/
def scopes (l : Listing) (parts : List Text) : List Scope :=
  l.ruleLines?.toList.map fun _ => ⟨parts, l.rules⟩

theorem rules?_eq_ok {l : Listing} {rules : List Rule} (h : l.rules? = .ok rules) :
    l.rules = rules := by
  rw [Listing.rules, h]
  rfl

theorem rules?_of_ruleLines?_eq_none {l : Listing} (h : l.ruleLines? = none) :
    l.rules? = .ok [] := by
  rw [rules?, h]
  rfl

theorem not_ignored_nil (t : Text) : ignored [] t = false := rfl

theorem mem_scopes {l : Listing} {parts : List Text} {s : Scope} :
    s ∈ l.scopes parts ↔ l.ruleLines? ≠ none ∧ s = ⟨parts, l.rules⟩ := by
  unfold scopes
  cases l.ruleLines? <;> simp

theorem any_scopes {l : Listing} {parts : List Text} {t : Text} :
    (∃ s ∈ l.scopes parts, ignored s.rules t = true) ↔ ignored l.rules t = true := by
  simp only [mem_scopes]
  constructor
  · intro h
    obtain ⟨s, ⟨-, rfl⟩, h⟩ := h
    exact h
  · intro h
    refine ⟨⟨parts, l.rules⟩, ⟨?_, rfl⟩, h⟩
    intro hnone
    rw [rules?_eq_ok (rules?_of_ruleLines?_eq_none hnone), not_ignored_nil] at h
    cases h

end Listing

namespace Ignore.PathFilter

def adding (f : PathFilter) (scopes : List Scope) : PathFilter :=
  { f with scopes := f.scopes ++ scopes }

/-- The filter without the scopes of directories that do not come before the components. -/
def before (f : PathFilter) (parts : List Text) : PathFilter :=
  { f with scopes := f.scopes.filter fun s => s.directory < parts }

@[simp]
theorem adding_nil (f : PathFilter) : f.adding [] = f := by
  simp [adding]

theorem adding_adding (f : PathFilter) (first second : List Scope) :
    (f.adding first).adding second = f.adding (first ++ second) := by
  simp [adding]

theorem mem_before_scopes {f : PathFilter} {parts : List Text} {s : Scope} :
    s ∈ (f.before parts).scopes ↔ s ∈ f.scopes ∧ s.directory < parts := by
  simp [before]

theorem before_eq_self {f : PathFilter} {parts : List Text}
    (h : ∀ s ∈ f.scopes, s.directory < parts) : f.before parts = f := by
  have hkept : f.scopes.filter (fun s => s.directory < parts) = f.scopes :=
    List.filter_eq_self.mpr fun s hs => decide_eq_true (h s hs)
  rw [before, hkept]

theorem before_adding {f : PathFilter} {scopes : List Scope} {parts : List Text}
    (h : ∀ s ∈ scopes, ¬s.directory < parts) : (f.adding scopes).before parts = f.before parts := by
  have hnone : scopes.filter (fun s => s.directory < parts) = [] :=
    List.filter_eq_nil_iff.mpr fun s hs => by simpa using h s hs
  simp [adding, before, hnone]

end Ignore.PathFilter

theorem Ignore.Scope.ignores_iff {s : Scope} {parts : List Text} {isDirectory : Bool} :
    s.ignores parts isDirectory = true ↔
      ∃ below, parts = s.directory ++ below ∧
        ignored s.rules (subject below isDirectory) = true := by
  unfold Scope.ignores
  rcases hinit : s.directory.isPrefixOf? parts with _ | below
  · simp only [Bool.false_eq_true, false_iff, not_exists, not_and]
    intro below hparts
    have hsome : s.directory.isPrefixOf? parts = some below :=
      List.isPrefixOf?_eq_some_iff_append_eq.mpr hparts.symm
    rw [hinit] at hsome
    cases hsome
  · have hparts := List.isPrefixOf?_eq_some_iff_append_eq.mp hinit
    constructor
    · exact fun h => ⟨below, hparts.symm, h⟩
    · intro h
      obtain ⟨other, hother, h⟩ := h
      rw [← hparts] at hother
      rwa [List.append_cancel_left hother]

namespace Path

/-- The components of a root that rules see in front of the components below it. -/
def shown (p : Path) : List Text := if p.anchor = .relative then p.parts else []

theorem extend_nil (p : Path) : p.extend [] = p := by
  simp [extend]

theorem below?_extend (p : Path) (parts : List Text) : (p.extend parts).below? p = some parts := by
  simp [below?, extend]

theorem extend_ne_self {p : Path} {parts : List Text} (h : parts ≠ []) : p.extend parts ≠ p := by
  intro heq
  have hparts : p.parts ++ parts = p.parts := congrArg Path.parts heq
  exact h (List.append_right_eq_self.mp hparts)

end Path

namespace Ignore.PathFilter

theorem parts?_extend (f : PathFilter) (parts : List Text) :
    f.parts? (f.root.extend parts) = some (f.root.shown ++ parts) := by
  unfold parts? Path.shown
  split
  · next h =>
    have hanchor : f.root.anchor = .relative := h
    simp [hanchor, Path.extend]
  · next h =>
    have hanchor : f.root.anchor ≠ .relative := h
    simp [hanchor, Path.below?_extend]

theorem ignores_extend (f : PathFilter) (parts : List Text) (isDirectory : Bool) :
    f.ignores (f.root.extend parts) isDirectory =
      f.ignoresParts (f.root.shown ++ parts) isDirectory := by
  rw [ignores, parts?_extend]

/-- Loading a directory below the root adds its scope, unless a rule of it cannot be compiled. -/
theorem load_extend {f : PathFilter} (nested : f.nested = true) {parts : List Text}
    (h : parts ≠ []) (entries : Listing) :
    ∃ notices, f.load (f.root.extend parts) (entries.find? ruleFileName) =
      match entries.rules? with
      | .error fault => .error (.rule fault)
      | .ok _ => .ok (f.adding (entries.scopes parts), notices) := by
  have hload : f.nested ∧ f.root.extend parts ≠ f.root := ⟨nested, Path.extend_ne_self h⟩
  have hnone : entries.ruleLines? = none →
      entries.rules? = .ok [] ∧ f.adding (entries.scopes parts) = f := by
    intro hlines
    exact ⟨Listing.rules?_of_ruleLines?_eq_none hlines, by simp [Listing.scopes, hlines]⟩
  unfold load
  rw [if_pos hload]
  rcases hfind : entries.find? ruleFileName with _ | node
  · obtain ⟨hrules, hsame⟩ := hnone (by rw [Listing.ruleLines?, hfind]; rfl)
    exact ⟨[], by rw [hrules, hsame]⟩
  cases node with
  | directory below =>
    obtain ⟨hrules, hsame⟩ := hnone (by rw [Listing.ruleLines?, hfind]; rfl)
    exact ⟨[], by rw [hrules, hsame]⟩
  | file content =>
    dsimp only
    rcases hlines : ruleLines (.file content) with fault | lines
    · obtain ⟨hrules, hsame⟩ := hnone (by simp [Listing.ruleLines?, hfind, hlines, Except.toOption])
      exact ⟨[_], by rw [hrules, hsame]⟩
    have hsome : entries.ruleLines? = some lines := by
      simp [Listing.ruleLines?, hfind, hlines, Except.toOption]
    have hrules : entries.rules? = Rule.ofLines lines := by simp [Listing.rules?, hsome]
    refine ⟨[], ?_⟩
    dsimp only
    rw [hrules, Path.below?_extend]
    rcases hcompiled : Rule.ofLines lines with fault | rules
    · rfl
    · have hown : entries.rules = rules := Listing.rules?_eq_ok (hrules.trans hcompiled)
      simp [hown, Listing.scopes, hsome, adding]

theorem ofRoot_eq_ok {root : Path} {nested : Bool} {file : Option Node} {f : PathFilter}
    {notices : List Notice} (h : ofRoot root nested file = .ok (f, notices)) :
    f = { root, nested, rootRules := (file.bind Node.rules?).getD [] } := by
  unfold ofRoot at h
  rcases file with _ | node
  · cases h
    rfl
  dsimp only at h
  rcases hlines : ruleLines node with fault | lines <;> rw [hlines] at h
  · cases h
    simp [Node.rules?, hlines, Except.toOption]
  · dsimp only at h
    rcases hrules : Rule.ofLines lines with fault | rules <;> rw [hrules] at h <;> cases h
    simp [Node.rules?, hlines, hrules, Except.toOption]

theorem ofDirectory_eq_ok {fs : FileSystem} {root : Path} {nested : Bool} {f : PathFilter}
    {notices : List Notice} (h : ofDirectory fs root nested = .ok (f, notices)) :
    f = { root, nested, rootRules := (fs.rules? root).getD [] } := by
  unfold ofDirectory at h
  rcases hfile : ruleFile fs root with fault | file <;> rw [hfile] at h
  · cases h
  dsimp only at h
  rcases hloaded : ofRoot root nested file with fault | loaded <;> rw [hloaded] at h <;> cases h
  rw [ofRoot_eq_ok hloaded, FileSystem.rules?, hfile]
  rfl

theorem root_ofDirectory {fs : FileSystem} {root : Path} {nested : Bool} {f : PathFilter}
    {notices : List Notice} (h : ofDirectory fs root nested = .ok (f, notices)) :
    f.root = root := by
  rw [ofDirectory_eq_ok h]

theorem ofRoot_find? (root : Path) (entries : Listing) :
    ∃ notices, ofRoot root true (entries.find? ruleFileName) =
      match entries.rules? with
      | .error fault => .error fault
      | .ok rules => .ok ({ root, rootRules := rules }, notices) := by
  have hnone : entries.ruleLines? = none → entries.rules? = .ok [] :=
    Listing.rules?_of_ruleLines?_eq_none
  unfold ofRoot
  rcases hfind : entries.find? ruleFileName with _ | node
  · exact ⟨[], by rw [hnone (by rw [Listing.ruleLines?, hfind]; rfl)]⟩
  dsimp only
  rcases hlines : ruleLines node with fault | lines
  · exact ⟨[_], by rw [hnone (by simp [Listing.ruleLines?, hfind, hlines, Except.toOption])]⟩
  · have hrules : entries.rules? = Rule.ofLines lines := by
      simp [Listing.rules?, Listing.ruleLines?, hfind, hlines, Except.toOption]
    refine ⟨[], ?_⟩
    dsimp only
    rw [hrules]
    rcases Rule.ofLines lines <;> rfl

end Ignore.PathFilter

end DqlScan
