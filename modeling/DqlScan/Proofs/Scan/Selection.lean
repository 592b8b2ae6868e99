import Mathlib.Data.List.Induction
import DqlScan.Proofs.Scan.Outcomes

/-!
# Files that a scan selects

What a scan reads is said without its walk: by the rules of the directories that strictly contain a
path, and by the lengths of the paths that are looked up (`scanDirectory_selects`).
-/

namespace DqlScan

open Ignore

namespace Listing

/-- Whether a path below a directory is ignored: by the default rules, or by the rules of a
directory that strictly contains it, which see the path from there. -/
def Ignores (tree : Listing) (parts : List Text) (isDirectory : Bool) : Prop :=
  ignored defaultRules (subject parts isDirectory) = true ∨
    ∃ above below entries, parts = above ++ below ∧ below ≠ [] ∧
      tree.at? above = some (.directory entries) ∧
      ignored entries.rules (subject below isDirectory) = true

/-- A file whose suffix is wanted, and that is not ignored, nor any directory on the way to it. -/
structure Keeps (tree : Listing) (ignores : List Text → Bool → Prop) (wanted : List Text)
    (parts : List Text) (content : Bytes) : Prop where
  stands : tree.at? parts = some (.file content)
  suffix : Text.lower (Path.suffix (parts.getLast?.getD [])) ∈ wanted
  directories : ∀ above, above <+: parts → above ≠ [] → above ≠ parts → ¬ignores above true
  file : ¬ignores parts false

def Compiles (tree : Listing) : Prop :=
  ∀ parts entries, tree.at? parts = some (.directory entries) →
    ∃ rules, entries.rules? = .ok rules

end Listing

/-- Neither the path of a file is too long to be looked up, nor that of a rule file in a directory
on the way to it, the root included. -/
structure Path.Reaches (root : Path) (parts : List Text) : Prop where
  file : (root.extend parts).fits = true
  ruleFiles : ∀ above, above <+: parts → above ≠ parts →
    ((root.extend above).child ruleFileName).fits = true

namespace Ignore.PathFilter

/-- Whether a filter with all scopes of a walk ignores a path below its root. Of the scopes those
count whose directories come before the path, and rules see the root as far as it is shown. -/
def IgnoresAt (f : PathFilter) (parts : List Text) (isDirectory : Bool) : Prop :=
  (f.before parts).ignoresParts (f.root.shown ++ parts) isDirectory = true

theorem ignoresAt_iff {f : PathFilter} {parts : List Text} {isDirectory : Bool} :
    f.IgnoresAt parts isDirectory ↔
      (f.before parts).ignores (f.root.extend parts) isDirectory = true := by
  unfold IgnoresAt
  exact (congrArg (· = true) (ignores_extend (f.before parts) parts isDirectory)).to_iff.symm

end Ignore.PathFilter

namespace Ignore.PathFilter

/-- A filter ignores what the rules of a tree ignore, if of the directories on the way to a path it
has the scopes of exactly those that strictly contain the path, and the root's rules. -/
theorem ignoresParts_iff {g : PathFilter} {tree : Listing} {parts : List Text} (hne : parts ≠ [])
    (rootRules : g.rootRules = tree.rules)
    (loaded : ∀ s : Scope, ∀ below, parts = s.directory ++ below →
      (s ∈ g.scopes ↔ s.directory ≠ [] ∧ below ≠ [] ∧ ∃ entries,
        tree.at? s.directory = some (.directory entries) ∧ s ∈ entries.scopes s.directory))
    (isDirectory : Bool) :
    g.ignoresParts parts isDirectory = true ↔ tree.Ignores parts isDirectory := by
  rw [ignoresParts, Bool.or_eq_true, Bool.or_eq_true, List.any_eq_true, rootRules]
  constructor
  · rintro ((h | h) | ⟨s, hs, h⟩)
    · exact .inl h
    · exact .inr ⟨[], parts, tree, rfl, hne, rfl, h⟩
    · obtain ⟨below, hparts, h⟩ := Scope.ignores_iff.mp h
      obtain ⟨-, hbelow, entries, hat, hscope⟩ := (loaded s below hparts).mp hs
      have hrules : s.rules = entries.rules :=
        congrArg Scope.rules (Listing.mem_scopes.mp hscope).2
      exact .inr ⟨s.directory, below, entries, hparts, hbelow, hat, hrules ▸ h⟩
  · rintro (h | ⟨above, below, entries, rfl, hbelow, hat, h⟩)
    · exact .inl (.inl h)
    by_cases habove : above = []
    · subst habove
      cases hat
      exact .inl (.inr h)
    · obtain ⟨s, hs, hrule⟩ := Listing.any_scopes.mpr h
      obtain ⟨-, rfl⟩ := Listing.mem_scopes.mp hs
      have hloaded := (loaded ⟨above, entries.rules⟩ below rfl).mpr
        ⟨habove, hbelow, entries, hat, hs⟩
      exact .inr ⟨_, hloaded, Scope.ignores_iff.mpr ⟨below, rfl, hrule⟩⟩

end Ignore.PathFilter

namespace Walk

variable {root : Path} {tree : Listing} {f : PathFilter} {wanted : List Text}

theorem Ends.mem_scopes (ends : Ends root tree f) (ordered : tree.Ordered) {s : Scope} :
    s ∈ f.scopes ↔ ∃ parts entries, parts ≠ [] ∧ tree.at? parts = some (.directory entries) ∧
      opens f [] parts = true ∧ entersAt f parts = true ∧ s ∈ entries.scopes parts := by
  rw [ends.scopes, mem_gather (loadsAt f) f ordered]
  constructor
  · intro h
    obtain ⟨parts, node, hne, hat, hopens, hs⟩ := h
    cases node with
    | file content => cases hs
    | directory entries =>
      rw [loadsAt] at hs
      split at hs
      · next henters => exact ⟨parts, entries, hne, hat, hopens, henters, hs⟩
      · cases hs
  · intro h
    obtain ⟨parts, entries, hne, hat, hopens, henters, hs⟩ := h
    refine ⟨parts, .directory entries, hne, hat, hopens, ?_⟩
    rw [loadsAt, if_pos henters]
    exact hs

/-! ### Rules of a walk and rules of a tree -/

theorem entersAt_iff {parts : List Text} :
    entersAt f parts = true ↔
      ((f.root.extend parts).child ruleFileName).fits = true ∧ ¬f.IgnoresAt parts true := by
  rw [entersAt, Bool.and_eq_true, Bool.not_eq_true', ← Bool.not_eq_true,
    PathFilter.ignoresAt_iff]

theorem selectsAt_iff {parts : List Text} :
    selectsAt wanted f parts = true ↔
      ((f.root.extend parts).fits = true ∧
        Text.lower (Path.suffix (parts.getLast?.getD [])) ∈ wanted) ∧ ¬f.IgnoresAt parts false := by
  rw [selectsAt, Bool.and_eq_true, Bool.and_eq_true, Bool.not_eq_true', ← Bool.not_eq_true,
    List.contains_iff_mem, PathFilter.ignoresAt_iff]

/-- Where all directories on the way are entered, a walk that shows nothing of its root has loaded
the rules of exactly those directories that count for a path. -/
theorem Ends.ignoresAt_iff (ends : Ends root tree f) (ordered : tree.Ordered)
    (shown : root.shown = []) {parts : List Text} (hne : parts ≠ [])
    (hopens : opens f [] parts = true) (isDirectory : Bool) :
    f.IgnoresAt parts isDirectory ↔ tree.Ignores parts isDirectory := by
  rw [PathFilter.IgnoresAt, ends.root, shown, List.nil_append]
  have hrules : (f.before parts).rootRules = tree.rules := ends.rootRules
  refine PathFilter.ignoresParts_iff hne hrules (fun s below hparts => ?_) isDirectory
  rw [PathFilter.mem_before_scopes, ends.mem_scopes ordered]
  constructor
  · rintro ⟨⟨above, entries, habove, hat, -, -, hs⟩, hlt⟩
    obtain ⟨-, rfl⟩ := Listing.mem_scopes.mp hs
    refine ⟨habove, ?_, entries, hat, hs⟩
    rintro rfl
    rw [hparts, List.append_nil] at hlt
    exact List.lt_irrefl _ hlt
  · rintro ⟨habove, hbelow, entries, hat, hs⟩
    rw [hparts] at hopens ⊢
    exact ⟨⟨s.directory, entries, habove, hat, opens_of_append hopens,
      entersAt_of_opens hopens habove hbelow, hs⟩, lt_append hbelow _⟩

theorem Ends.opens_iff_ignores (ends : Ends root tree f) (ordered : tree.Ordered)
    (shown : root.shown = []) {parts : List Text} :
    opens f [] parts = true ↔ ∀ above, above <+: parts → above ≠ [] → above ≠ parts →
      ((root.extend above).child ruleFileName).fits = true ∧ ¬tree.Ignores above true := by
  have henters : ∀ {above}, above ≠ [] → opens f [] above = true → (entersAt f above = true ↔
      ((root.extend above).child ruleFileName).fits = true ∧ ¬tree.Ignores above true) := by
    intro above hne hopens
    rw [entersAt_iff, ends.ignoresAt_iff ordered shown hne hopens, ends.root]
  constructor
  · rintro hopens above ⟨below, rfl⟩ hne hproper
    have hbelow : below ≠ [] := by
      rintro rfl
      exact hproper (List.append_nil above).symm
    exact (henters hne (opens_of_append hopens)).mp (entersAt_of_opens hopens hne hbelow)
  · intro h
    -- From the root down: what is ignored is known only below directories that are entered.
    induction parts using List.reverseRecOn with
    | nil => rfl
    | append_singleton parts name ih =>
      have hproper : ∀ above, above <+: parts → above ≠ parts ++ [name] := by
        rintro above hinit rfl
        have hle := hinit.length_le
        rw [List.length_append, List.length_singleton] at hle
        omega
      have hopens : opens f [] parts = true := ih fun above hinit hne _ =>
        h above (List.prefix_concat_iff.mpr (.inr hinit)) hne (hproper above hinit)
      apply opens_iff.mpr
      intro above hinit hne hneq
      rcases List.prefix_concat_iff.mp hinit with heq | hinit
      · exact absurd heq hneq
      by_cases heq : above = parts
      · subst heq
        exact (henters hne hopens).mpr (h above (List.prefix_append _ _) hne hneq)
      · exact opens_iff.mp hopens above hinit hne heq

theorem mem_reads (ordered : tree.Ordered) {parts : List Text} {content : Bytes} :
    (parts, content) ∈ gather (readsAt wanted f) f [] tree ↔
      tree.at? parts = some (.file content) ∧ opens f [] parts = true ∧
        selectsAt wanted f parts = true := by
  rw [mem_gather (readsAt wanted f) f ordered]
  constructor
  · intro h
    obtain ⟨below, node, -, hat, hopens, hread⟩ := h
    cases node with
    | directory entries => cases hread
    | file inner =>
      rw [readsAt] at hread
      split at hread
      · next hselects =>
        cases List.mem_singleton.mp hread
        exact ⟨hat, hopens, hselects⟩
      · cases hread
  · intro h
    obtain ⟨hat, hopens, hselects⟩ := h
    have hne : parts ≠ [] := by
      rintro rfl
      cases hat
    refine ⟨parts, .file content, hne, hat, hopens, ?_⟩
    rw [readsAt, if_pos hselects]
    exact List.mem_singleton_self _

theorem pairwise_readsAt (parts : List Text) (node : Node) :
    (readsAt wanted f parts node).Pairwise fun a b => a.1 < b.1 := by
  cases node with
  | directory entries => exact List.Pairwise.nil
  | file content =>
    rw [readsAt]
    split
    · exact List.pairwise_singleton _ _
    · exact List.Pairwise.nil

theorem parts_of_mem_readsAt {parts : List Text} {node : Node} {file : List Text × Bytes}
    (h : file ∈ readsAt wanted f parts node) : file.1 = parts := by
  cases node with
  | directory entries => cases h
  | file content =>
    rw [readsAt] at h
    split at h
    · rw [List.mem_singleton.mp h]
    · cases h

theorem pairwise_reads (ordered : tree.Ordered) :
    (gather (readsAt wanted f) f [] tree).Pairwise fun a b => a.1 < b.1 := by
  have hparts : ∀ {entry : List Text × Node} {file : List Text × Bytes},
      (file ∈ if opens f [] entry.1 then readsAt wanted f ([] ++ entry.1) entry.2 else []) →
        file.1 = entry.1 := by
    intro entry file h
    split at h
    · exact parts_of_mem_readsAt h
    · cases h
  rw [gather, List.pairwise_flatMap]
  refine ⟨fun entry _ => ?_, (Listing.pairwise_nodes ordered).imp fun {a b} h => ?_⟩
  · split
    · exact pairwise_readsAt _ entry.2
    · exact List.Pairwise.nil
  · intro file hfile other hother
    rw [hparts hfile, hparts hother]
    exact h

/-- The files that a walk reads are those that its filter keeps and whose paths are not too long. -/
theorem mem_reads_iff_ignoresAt (ordered : tree.Ordered)
    (hfits : (f.root.child ruleFileName).fits = true) {parts : List Text} {content : Bytes} :
    (parts, content) ∈ gather (readsAt wanted f) f [] tree ↔
      tree.Keeps f.IgnoresAt wanted parts content ∧ f.root.Reaches parts := by
  rw [mem_reads ordered, opens_iff, selectsAt_iff]
  constructor
  · intro h
    obtain ⟨hat, hopens, ⟨hfile, hsuffix⟩, hkept⟩ := h
    have hdirectories := fun above h₁ h₂ h₃ => entersAt_iff.mp (hopens above h₁ h₂ h₃)
    refine ⟨⟨hat, hsuffix, fun above h₁ h₂ h₃ => (hdirectories above h₁ h₂ h₃).2, hkept⟩,
      hfile, fun above hinit hproper => ?_⟩
    by_cases habove : above = []
    · rw [habove, Path.extend_nil]
      exact hfits
    · exact (hdirectories above hinit habove hproper).1
  · intro h
    obtain ⟨keeps, reaches⟩ := h
    refine ⟨keeps.stands, fun above h₁ h₂ h₃ => ?_, ⟨reaches.file, keeps.suffix⟩, keeps.file⟩
    exact entersAt_iff.mpr ⟨reaches.ruleFiles above h₁ h₃, keeps.directories above h₁ h₂ h₃⟩

/-- If nothing of the root is shown, they are those that the rules of the tree keep. -/
theorem Ends.mem_reads_iff (ends : Ends root tree f) (ordered : tree.Ordered)
    (shown : root.shown = []) (hfits : (root.child ruleFileName).fits = true)
    {parts : List Text} {content : Bytes} :
    (parts, content) ∈ gather (readsAt wanted f) f [] tree ↔
      tree.Keeps tree.Ignores wanted parts content ∧ root.Reaches parts := by
  have hopens : tree.at? parts = some (.file content) → opens f [] parts = true →
      (f.IgnoresAt parts false ↔ tree.Ignores parts false) := by
    intro hat hopens
    refine ends.ignoresAt_iff ordered shown ?_ hopens false
    rintro rfl
    cases hat
  constructor
  · intro hmem
    obtain ⟨keeps, reaches⟩ := (mem_reads_iff_ignoresAt ordered (ends.root.symm ▸ hfits)).mp hmem
    obtain ⟨hat, hopened, -⟩ := (mem_reads ordered).mp hmem
    rw [ends.root] at reaches
    have hdirectories := (ends.opens_iff_ignores ordered shown).mp hopened
    exact ⟨⟨hat, keeps.suffix, fun above h₁ h₂ h₃ => (hdirectories above h₁ h₂ h₃).2,
      fun h => keeps.file ((hopens hat hopened).mpr h)⟩, reaches⟩
  · intro h
    obtain ⟨keeps, reaches⟩ := h
    have hopened : opens f [] parts = true :=
      (ends.opens_iff_ignores ordered shown).mpr fun above h₁ h₂ h₃ =>
        ⟨reaches.ruleFiles above h₁ h₃, keeps.directories above h₁ h₂ h₃⟩
    refine (mem_reads ordered).mpr ⟨keeps.stands, hopened, selectsAt_iff.mpr
      ⟨⟨by rw [ends.root]; exact reaches.file, keeps.suffix⟩, fun h => ?_⟩⟩
    exact keeps.file ((hopens keeps.stands hopened).mp h)

end Walk

theorem Listing.Compiles.nodes {tree : Listing} (compiles : tree.Compiles)
    (ordered : tree.Ordered) :
    ∀ entry ∈ tree.nodes, ∃ rules, entry.2.entries.rules? = .ok rules := by
  rintro ⟨parts, node⟩ hnode
  cases node with
  | file content => exact ⟨[], rfl⟩
  | directory entries =>
    exact compiles parts entries ((Listing.mem_nodes ordered).mp hnode).2

theorem Listing.compiles_of_all {tree : Listing} (ordered : tree.Ordered)
    (h : (tree.rules?.isOk && tree.nodes.all (·.2.entries.rules?.isOk)) = true) :
    tree.Compiles := by
  have hok : ∀ {l : Listing}, l.rules?.isOk = true → ∃ rules, l.rules? = .ok rules := by
    intro l h
    rcases hrules : l.rules? with fault | rules
    · rw [hrules] at h
      cases h
    · exact ⟨rules, rfl⟩
  obtain ⟨hroot, hbelow⟩ := Bool.and_eq_true_iff.mp h
  have hnodes : ∀ entry ∈ tree.nodes, ∃ rules, entry.2.entries.rules? = .ok rules :=
    fun entry hentry => hok (List.all_eq_true.mp hbelow entry hentry)
  intro parts entries hat
  exact forall_at ordered (P := fun _ node => ∃ rules, node.entries.rules? = .ok rules)
    (hok hroot) hnodes hat

/-- A scan reads exactly the files that the rules of a tree let be read and whose paths are not too
long, each once and in the order of their paths. Only a rule file of the root whose path is too
long breaks it off. -/
theorem scanDirectory_selects (fs : FileSystem) (root : Path) (tree : Listing)
    (suffixes : Option (List Text)) (absolute : root.anchor ≠ .relative ∨ root = {})
    (ordered : fs.root.Ordered) (htree : fs.list root = .ok tree) (compiles : tree.Compiles) :
    ∃ files : List (List Text × Bytes),
      (files.Pairwise fun a b => a.1 < b.1) ∧
      (∀ parts content, (parts, content) ∈ files ↔
        tree.Keeps tree.Ignores ((suffixes.getD Language.suffixes).map Text.lower) parts content ∧
          root.Reaches parts) ∧
      (scanDirectory fs root suffixes).reads = files.map .ofFile ∧
      (scanDirectory fs root suffixes).fault =
        if (root.child ruleFileName).fits then none
        else some (.access (root.child ruleFileName) .nameTooLong) := by
  have shown : root.shown = [] := by
    rcases absolute with h | rfl
    · exact if_neg h
    · rfl
  have htreeOrdered : tree.Ordered := FileSystem.ordered_list ordered htree
  cases hfits : (root.child ruleFileName).fits with
  | false =>
    refine ⟨[], List.Pairwise.nil, ?_, ?_, ?_⟩
    · intro parts content
      simp only [List.not_mem_nil, false_iff, not_and]
      intro keeps reaches
      have hne : [] ≠ parts := by
        rintro rfl
        cases keeps.stands
      have hroot := reaches.ruleFiles [] List.nil_prefix hne
      rw [Path.extend_nil, hfits] at hroot
      cases hroot
    · rw [scanDirectory, Walk.ofRoot_of_not_fits htree hfits]
      rfl
    · rw [scanDirectory, Walk.ofRoot_of_not_fits htree hfits]
      rfl
  | true =>
    obtain ⟨rules, hrules⟩ := compiles [] tree rfl
    obtain ⟨f, hending⟩ := Walk.ofRoot_completes ((suffixes.getD Language.suffixes).map Text.lower)
      htree hfits hrules (compiles.nodes htreeOrdered)
    obtain ⟨-, ends, hfiles⟩ := Walk.ofRoot_trace ordered htree hending
    refine ⟨_, Walk.pairwise_reads htreeOrdered, fun parts content =>
      ends.mem_reads_iff htreeOrdered shown hfits, ?_, ?_⟩
    · rw [scanDirectory, DirectoryScan.reads_ofWalk, hfiles]
    · exact DirectoryScan.fault_ofWalk_eq_none.mpr ⟨f, hending⟩

def Listing.sample : Listing :=
  .directory "sub".toList
    (.file ruleFileName (Utf8.encode "gen.js\n".toList)
      (.file "app.js".toList (Utf8.encode "y = 'fetch events'\n".toList)
        (.file "gen.js".toList (Utf8.encode "x = 'fetch logs'\n".toList) .nil)))
    .nil

theorem scanDirectory_selects_sample :
    let fs : FileSystem := ⟨.directory "src".toList .sample .nil, []⟩
    let root : Path := ⟨.root, ["src".toList]⟩
    fs.root.Ordered ∧ fs.list root = .ok .sample ∧ Listing.sample.Compiles ∧
      ∃ files : List (List Text × Bytes),
        (files.Pairwise fun a b => a.1 < b.1) ∧
        (∀ parts content, (parts, content) ∈ files ↔
          Listing.sample.Keeps Listing.sample.Ignores (Language.suffixes.map Text.lower) parts
            content ∧ root.Reaches parts) ∧
        (scanDirectory fs root none).reads = files.map .ofFile ∧
        (scanDirectory fs root none).fault =
          if (root.child ruleFileName).fits then none
          else some (.access (root.child ruleFileName) .nameTooLong) := by
  intro fs root
  have ordered : fs.root.Ordered := by decide
  have htree : fs.list root = .ok .sample := by rfl
  have compiles : Listing.sample.Compiles :=
    Listing.compiles_of_all (by decide) (by decide +kernel)
  exact ⟨ordered, htree, compiles,
    scanDirectory_selects fs root .sample none (.inl (by decide)) ordered htree compiles⟩

/-- A root that is spelled with a number of detours through its directory `a`. -/
def Path.winding (n : Nat) : Path := ⟨.root, (List.replicate n [['a'], Path.parent]).flatten⟩

theorem winding_succ (n : Nat) :
    (Path.winding (n + 1)).parts = ['a'] :: Path.parent :: (Path.winding n).parts := rfl

theorem length_winding (n : Nat) (name : Text) :
    (Utf8.encode (Path.joined ((Path.winding n).parts ++ [name]))).length =
      5 * n + (Utf8.encode name).length := by
  induction n with
  | zero => simp [Path.winding, Path.joined]
  | succ n ih =>
    have hne : (Path.winding n).parts ++ [name] ≠ [] :=
      List.append_ne_nil_of_right_ne_nil _ (List.cons_ne_nil _ _)
    have hdetour : (Utf8.encode (['a'] ++ ['/'] ++ (Path.parent ++ ['/']))).length = 5 := by decide
    rw [winding_succ, Path.joined, List.cons_append, List.cons_append,
      List.intercalate_cons_cons, List.intercalate_cons_of_ne_nil hne, ← List.append_assoc,
      Utf8.encode, List.flatMap_append, List.length_append]
    show (Utf8.encode _).length + (Utf8.encode (Path.joined _)).length = _
    rw [hdetour, ih]
    omega

theorem fits_winding (n : Nat) (name : Text) :
    ((Path.winding n).child name).fits = true ↔
      5 * n + (Utf8.encode name).length < Path.maxSize := by
  have hlength : (Utf8.encode ((Path.winding n).child name).text).length =
      1 + (Utf8.encode (Path.joined ((Path.winding n).parts ++ [name]))).length := by
    rw [Nat.add_comm]
    rfl
  rw [Path.fits, decide_eq_true_iff, hlength, length_winding]
  omega

theorem follow_winding {here : Listing} (h : here.find? ['a'] = some (.directory .nil)) (n : Nat) :
    FileSystem.follow [] here (Path.winding n).parts = .ok (.directory here) := by
  induction n with
  | zero => rfl
  | succ n ih =>
    rw [winding_succ, FileSystem.follow_cons_directory (by decide) (by decide) h,
      FileSystem.follow, if_pos rfl]
    exact ih

def Listing.longNamed : Listing :=
  .directory ['a'] .nil
    (.file (List.replicate 100 'n' ++ ".js".toList) (Utf8.encode "'fetch logs'".toList) .nil)

/-- A file that no rule ignores is left out if its path is too long. -/
theorem scanDirectory_omits_longNamed :
    let fs : FileSystem := ⟨.longNamed, []⟩
    let root : Path := .winding 800
    fs.root.Ordered ∧ fs.list root = .ok .longNamed ∧ Listing.longNamed.Compiles ∧
      Listing.longNamed.Keeps Listing.longNamed.Ignores (Language.suffixes.map Text.lower)
        [List.replicate 100 'n' ++ ".js".toList] (Utf8.encode "'fetch logs'".toList) ∧
      (scanDirectory fs root none).reads = [] ∧ (scanDirectory fs root none).fault = none := by
  intro fs root
  have ordered : Listing.longNamed.Ordered := by decide
  have compiles : Listing.longNamed.Compiles := Listing.compiles_of_all ordered (by decide +kernel)
  have hrules : (root.child ruleFileName).fits = true := (fits_winding 800 _).mpr (by decide)
  have hlong : ¬(root.child (List.replicate 100 'n' ++ ".js".toList)).fits = true := by
    rw [fits_winding]
    decide +kernel
  have htree : fs.list root = .ok .longNamed :=
    FileSystem.list_eq_ok.mpr ⟨Path.fits_of_child hrules, follow_winding rfl 800⟩
  obtain ⟨f, hending⟩ := Walk.ofRoot_completes (Language.suffixes.map Text.lower) htree hrules rfl
    (compiles.nodes ordered)
  obtain ⟨-, ends, hfiles⟩ := Walk.ofRoot_trace ordered htree hending
  refine ⟨ordered, htree, compiles, ⟨rfl, by decide, ?_, ?_⟩, ?_,
    DirectoryScan.fault_ofWalk_eq_none.mpr ⟨f, hending⟩⟩
  · intro above hinit hne hproper
    obtain ⟨head, tail, rfl⟩ := List.exists_cons_of_ne_nil hne
    obtain ⟨rfl, htail⟩ := List.cons_prefix_cons.mp hinit
    rw [List.prefix_nil.mp htail] at hproper
    exact absurd rfl hproper
  · rintro (h | ⟨above, below, entries, hparts, hbelow, hat, h⟩)
    · revert h
      decide +kernel
    · cases above with
      | nil =>
        cases hat
        cases h
      | cons head above =>
        have hnil : above ++ below = [] := (List.cons.inj hparts).2.symm
        exact hbelow (List.append_eq_nil_iff.mp hnil).2
  · have hnone : Walk.gather (Walk.readsAt (Language.suffixes.map Text.lower) f) f []
        .longNamed = [] := by
      apply List.eq_nil_iff_forall_not_mem.mpr
      rintro ⟨parts, content⟩ hmem
      obtain ⟨keeps, reaches⟩ := (ends.mem_reads_iff ordered rfl hrules).mp hmem
      have hne : parts ≠ [] := by
        rintro rfl
        cases keeps.stands
      have hnode := (Listing.mem_nodes ordered).mpr ⟨hne, keeps.stands⟩
      simp only [Listing.longNamed, Listing.nodes, List.map_nil, List.mem_append, List.mem_cons,
        Prod.mk.injEq, List.not_mem_nil, or_false] at hnode
      rcases hnode with ⟨-, h⟩ | ⟨rfl, -⟩
      · cases h
      · exact hlong reaches.file
    rw [scanDirectory, DirectoryScan.reads_ofWalk]
    exact congrArg (List.map Outcome.ofFile) (hfiles.trans hnone)

end DqlScan
