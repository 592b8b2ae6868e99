import DqlScan.Proofs.Ignore.Floating
import DqlScan.Proofs.Scan.Pruning

/-!
# Scans of subdirectories

What a scan does below a directory in its root is what a scan of that directory does, if the root
has no rules of its own (`scanDirectory_subtree`). So a rule file means the same in the root of a
scan and below it, and what stands beside a directory does not matter there.
-/

namespace DqlScan

open Ignore

/-- A directory that a tree without rules of its own holds, and that the default rules do not
ignore. -/
structure Listing.Subtree (tree : Listing) (name : Text) (entries : Listing) : Prop where
  unruled : tree.find? ruleFileName = none
  stands : tree.find? name = some (.directory entries)
  kept : ignored defaultRules (subject [name] true) = false

namespace Listing.Subtree

variable {tree entries : Listing} {name : Text} {wanted parts : List Text} {content : Bytes}

theorem at?_cons (subtree : tree.Subtree name entries) (parts : List Text) :
    tree.at? (name :: parts) = entries.at? parts := by
  show (tree.find? name).bind (·.at? parts) = _
  rw [subtree.stands]
  rfl

theorem rules (subtree : tree.Subtree name entries) : tree.rules = [] := by
  apply rules?_eq_ok
  apply rules?_of_ruleLines?_eq_none
  rw [ruleLines?, subtree.unruled]
  rfl

theorem compiles (subtree : tree.Subtree name entries) (compiles : tree.Compiles) :
    entries.Compiles := by
  intro parts inner hat
  exact compiles (name :: parts) inner (by rwa [subtree.at?_cons])

/-- The rules that count for a path in the directory stand in the directory or in one below it. -/
theorem scopes_iff (subtree : tree.Subtree name entries) (parts : List Text)
    (isDirectory : Bool) :
    (∃ above below inner, name :: parts = above ++ below ∧ below ≠ [] ∧
      tree.at? above = some (.directory inner) ∧
      ignored inner.rules (subject below isDirectory) = true) ↔
    ∃ above below inner, parts = above ++ below ∧ below ≠ [] ∧
      entries.at? above = some (.directory inner) ∧
      ignored inner.rules (subject below isDirectory) = true := by
  constructor
  · intro h
    obtain ⟨above, below, inner, hparts, hbelow, hat, h⟩ := h
    cases above with
    | nil =>
      cases hat
      rw [subtree.rules] at h
      cases h
    | cons first above =>
      obtain ⟨rfl, rfl⟩ := List.cons.inj hparts
      rw [subtree.at?_cons] at hat
      exact ⟨above, below, inner, rfl, hbelow, hat, h⟩
  · intro h
    obtain ⟨above, below, inner, rfl, hbelow, hat, h⟩ := h
    exact ⟨name :: above, below, inner, rfl, hbelow, by rwa [subtree.at?_cons], h⟩

theorem not_ignores (subtree : tree.Subtree name entries) : ¬tree.Ignores [name] true := by
  intro h
  rcases h with h | h
  · rw [subtree.kept] at h
    cases h
  · obtain ⟨above, below, inner, hparts, hbelow, -⟩ := (subtree.scopes_iff [] true).mp h
    exact hbelow (List.append_eq_nil_iff.mp hparts.symm).2

/-- The directory ignores below it what the tree ignores there. -/
theorem ignores_iff (subtree : tree.Subtree name entries) (hne : parts ≠ [])
    (names : ∀ part ∈ name :: parts, IsName part) (isDirectory : Bool) :
    tree.Ignores (name :: parts) isDirectory ↔ entries.Ignores parts isDirectory := by
  have hnames : ∀ part ∈ name :: parts, part ≠ [] ∧ '/' ∉ part :=
    fun part hpart => ⟨(names part hpart).nonempty, (names part hpart).noSlash⟩
  unfold Ignores
  rw [ignored_defaultRules_below hne hnames subtree.kept]
  exact or_congr_right (subtree.scopes_iff parts isDirectory)

theorem keeps_iff (subtree : tree.Subtree name entries) (names : tree.WellNamed)
    (hne : parts ≠ []) :
    tree.Keeps tree.Ignores wanted (name :: parts) content ↔
      entries.Keeps entries.Ignores wanted parts content := by
  have hlast : (name :: parts).getLast? = parts.getLast? := List.getLast?_cons_of_ne_nil hne
  have hignores : ∀ {above}, above ≠ [] → above <+: parts →
      tree.at? (name :: parts) = some (.file content) → ∀ isDirectory,
        (tree.Ignores (name :: above) isDirectory ↔ entries.Ignores above isDirectory) := by
    intro above habove hinit hat
    apply subtree.ignores_iff habove
    intro part hpart
    exact names _ _ hat part (List.cons_prefix_cons.mpr ⟨rfl, hinit⟩ |>.subset hpart)
  constructor
  · intro keeps
    refine ⟨by rw [← subtree.at?_cons]; exact keeps.stands, by rw [← hlast]; exact keeps.suffix,
      fun above hinit habove hproper h => ?_, fun h => ?_⟩
    · exact keeps.directories (name :: above) (List.cons_prefix_cons.mpr ⟨rfl, hinit⟩)
        (List.cons_ne_nil _ _) (fun heq => hproper (List.cons.inj heq).2)
        ((hignores habove hinit keeps.stands true).mpr h)
    · exact keeps.file ((hignores hne List.prefix_rfl keeps.stands false).mpr h)
  · intro keeps
    have hat : tree.at? (name :: parts) = some (.file content) := by
      rw [subtree.at?_cons]
      exact keeps.stands
    refine ⟨hat, by rw [hlast]; exact keeps.suffix, fun above hinit habove hproper h => ?_,
      fun h => ?_⟩
    · obtain ⟨first, above, rfl⟩ := List.exists_cons_of_ne_nil habove
      obtain ⟨rfl, htail⟩ := List.cons_prefix_cons.mp hinit
      by_cases hnil : above = []
      · subst hnil
        exact subtree.not_ignores h
      · exact keeps.directories above htail hnil (fun heq => hproper (by rw [heq]))
          ((hignores hnil htail hat true).mp h)
    · exact keeps.file ((hignores hne List.prefix_rfl hat false).mp h)

end Listing.Subtree

def Path.isBelow (name file : Text) : Bool := (name ++ ['/']).isPrefixOf file

def Path.within (name file : Text) : Text := name ++ '/' :: file

def Query.within (name : Text) (q : Query) : Query := { q with file := Path.within name q.file }

namespace Outcome

variable {parts : List Text}

theorem queries_ofFile_cons (hne : parts ≠ []) (name : Text) (content : Bytes) :
    (ofFile (name :: parts, content)).queries =
      (ofFile (parts, content)).queries.map (·.within name) := by
  simp only [ofFile, ofVisit, Path.joined_cons hne]
  rcases Utf8.decode content with fault | text
  · rfl
  · show findQueries text _ = (findQueries text _).map _
    rw [findQueries, findQueries, List.map_map]
    rfl

theorem seen?_ofFile_cons (hne : parts ≠ []) (name : Text) (content : Bytes) :
    (ofFile (name :: parts, content)).seen? =
      (ofFile (parts, content)).seen?.map (Prod.map (Path.within name) id) := by
  simp only [ofFile, ofVisit, Path.joined_cons hne, List.getLast?_cons_of_ne_nil hne]
  rcases Utf8.decode content with fault | text <;> rfl

theorem unreadable?_ofFile_cons (hne : parts ≠ []) (name : Text) (content : Bytes) :
    (ofFile (name :: parts, content)).unreadable? =
      (ofFile (parts, content)).unreadable?.map (Path.within name) := by
  simp only [ofFile, ofVisit, Path.joined_cons hne]
  rcases Utf8.decode content with fault | text <;> rfl

theorem file_of_mem_queries {file : List Text × Bytes} {q : Query} (h : q ∈ (ofFile file).queries) :
    q.file = Path.joined file.1 := by
  simp only [ofFile, ofVisit] at h
  rcases hdecode : Utf8.decode file.2 with fault | text <;> rw [hdecode] at h
  · cases h
  · obtain ⟨token, -, rfl⟩ := List.mem_map.mp h
    rfl

theorem file_of_seen? {file : List Text × Bytes} {seen : Text × Text}
    (h : (ofFile file).seen? = some seen) : seen.1 = Path.joined file.1 := by
  simp only [ofFile, ofVisit] at h
  rcases hdecode : Utf8.decode file.2 with fault | text <;> rw [hdecode] at h <;> cases h
  rfl

theorem file_of_unreadable? {file : List Text × Bytes} {name : Text}
    (h : (ofFile file).unreadable? = some name) : name = Path.joined file.1 := by
  simp only [ofFile, ofVisit] at h
  rcases hdecode : Utf8.decode file.2 with fault | text <;> rw [hdecode] at h <;> cases h
  rfl

end Outcome

/-- Of the files that a walk has read, those below a directory are the files of another walk. -/
structure FilesBelow (name : Text) (files others : List (List Text × Bytes)) : Prop where
  below : files.filter (fun file => file.1.head? = some name) =
    others.map (Prod.map (name :: ·) id)
  named : ∀ file ∈ files, Path.isBelow name (Path.joined file.1) = true ↔ file.1.head? = some name
  nonempty : ∀ file ∈ others, file.1 ≠ []

theorem filter_flatMap {α β : Type} {l : List α} {take : α → List β} {p : β → Bool} {q : α → Bool}
    (h : ∀ a ∈ l, ∀ b ∈ take a, p b = q a) : (l.flatMap take).filter p = (l.filter q).flatMap take := by
  induction l with
  | nil => rfl
  | cons a l ih =>
    obtain ⟨ha, hl⟩ := List.forall_mem_cons.mp h
    rw [List.flatMap_cons, List.filter_append, ih hl, List.filter_cons]
    cases hq : q a with
    | true => rw [List.filter_eq_self.mpr fun b hb => (ha b hb).trans hq]; rfl
    | false =>
      rw [List.filter_eq_nil_iff.mpr fun b hb => by simp [ha b hb, hq]]
      rfl

/-- What is taken file by file from the files below the directory is taken from the others. -/
theorem FilesBelow.flatMap {α : Type} {name : Text} {files others : List (List Text × Bytes)}
    (h : FilesBelow name files others) (take : List Text × Bytes → List α) (key : α → Text)
    (within : α → α) (hkey : ∀ file, ∀ a ∈ take file, key a = Path.joined file.1)
    (hwithin : ∀ file : List Text × Bytes, file.1 ≠ [] →
      take (name :: file.1, file.2) = (take file).map within) :
    (files.flatMap take).filter (fun a => Path.isBelow name (key a)) =
      (others.flatMap take).map within := by
  have hfiles : (files.flatMap take).filter (fun a => Path.isBelow name (key a)) =
      (files.filter fun file => file.1.head? = some name).flatMap take := by
    apply filter_flatMap
    intro file hfile a ha
    rw [hkey file a ha, Bool.eq_iff_iff, h.named file hfile, decide_eq_true_iff]
  rw [hfiles, h.below, List.flatMap_map, List.map_flatMap]
  exact List.flatMap_congr fun file hfile => hwithin file (h.nonempty file hfile)

/-- The scan `t` does below the directory what the scan `u` does. -/
structure DirectoryScan.Holds (t : DirectoryScan) (name : Text) (u : DirectoryScan) : Prop where
  queries : t.result.queries.filter (fun q => Path.isBelow name q.file) =
    u.result.queries.map (·.within name)
  unreadable : t.result.unreadable.filter (Path.isBelow name) =
    u.result.unreadable.map (Path.within name)
  seen : t.seen.filter (fun file => Path.isBelow name file.1) =
    u.seen.map (Prod.map (Path.within name) id)

theorem FilesBelow.holds {name : Text} {files others : List (List Text × Bytes)}
    (h : FilesBelow name files others) {t u : DirectoryScan} (ht : t.reads = files.map .ofFile)
    (hu : u.reads = others.map .ofFile) : t.Holds name u := by
  refine ⟨?_, ?_, ?_⟩
  · rw [DirectoryScan.queries_of_reads ht, DirectoryScan.queries_of_reads hu]
    apply h.flatMap _ Query.file (Query.within name)
    · intro file q hq
      exact Outcome.file_of_mem_queries hq
    · intro file hne
      exact Outcome.queries_ofFile_cons hne name file.2
  · rw [DirectoryScan.unreadable_of_reads ht, DirectoryScan.unreadable_of_reads hu]
    apply h.flatMap _ id (Path.within name)
    · intro file shown hshown
      exact Outcome.file_of_unreadable? (Option.mem_toList.mp hshown)
    · intro file hne
      rw [Outcome.unreadable?_ofFile_cons hne name file.2, Option.toList_map]
  · rw [DirectoryScan.seen_of_reads ht, DirectoryScan.seen_of_reads hu]
    apply h.flatMap _ Prod.fst (Prod.map (Path.within name) id)
    · intro file seen hseen
      exact Outcome.file_of_seen? (Option.mem_toList.mp hseen)
    · intro file hne
      rw [Outcome.seen?_ofFile_cons hne name file.2, Option.toList_map]

/-! ### Scans -/

end DqlScan
