import DqlScan.Proofs.Ignore.Descent
import DqlScan.Proofs.Scan.Selection
import Mathlib.Data.List.Infix
import Mathlib.Data.List.Sort

/-!
# What a walk does not enter

A walk does not enter the directories that it ignores. If no rule takes a path back, it loses
nothing by that: it reads the files that a filter with the rules of all directories keeps
(`Walk.files_eq_filter`).
-/

namespace DqlScan

open Ignore

/-- A name that an entry of a directory may have. -/
structure IsName (name : Text) : Prop where
  nonempty : name ≠ []
  noSlash : '/' ∉ name
  proper : name ≠ Path.parent
  fits : Path.nameFits name = true

instance : DecidablePred IsName := fun name =>
  decidable_of_iff (name ≠ [] ∧ '/' ∉ name ∧ name ≠ Path.parent ∧ Path.nameFits name = true)
    ⟨fun h => ⟨h.1, h.2.1, h.2.2.1, h.2.2.2⟩, fun h => ⟨h.nonempty, h.noSlash, h.proper, h.fits⟩⟩

instance (root : Path) : DecidablePred root.Reaches := fun parts =>
  decidable_of_iff ((root.extend parts).fits = true ∧ ∀ above ∈ parts.inits, above ≠ parts →
      ((root.extend above).child ruleFileName).fits = true)
    ⟨fun h => ⟨h.1, fun above hinit => h.2 above (List.mem_inits _ _ |>.mpr hinit)⟩,
      fun h => ⟨h.file, fun above hinit => h.ruleFiles above (List.mem_inits _ _ |>.mp hinit)⟩⟩

namespace Listing

/-- The files below a directory in the order of their paths. -/
def files (l : Listing) : List (List Text × Bytes) :=
  l.nodes.filterMap fun entry =>
    match entry.2 with
    | .file content => some (entry.1, content)
    | .directory _ => none

def WellNamed (tree : Listing) : Prop :=
  ∀ parts node, tree.at? parts = some node → ∀ name ∈ parts, IsName name

/-- No rule in a tree keeps a path, and none takes the slash after a directory. -/
def Plain (tree : Listing) : Prop :=
  ∀ parts entries, tree.at? parts = some (.directory entries) → ∀ rule ∈ entries.rules, rule.Plain

theorem mem_files {l : Listing} (ordered : l.Ordered) {parts : List Text} {content : Bytes} :
    (parts, content) ∈ l.files ↔ l.at? parts = some (.file content) := by
  rw [files, List.mem_filterMap]
  constructor
  · rintro ⟨⟨path, node⟩, hnode, hfile⟩
    cases node with
    | directory entries => cases hfile
    | file bytes =>
      cases hfile
      exact ((mem_nodes ordered).mp hnode).2
  · intro hat
    have hne : parts ≠ [] := by
      rintro rfl
      cases hat
    exact ⟨(parts, .file content), (mem_nodes ordered).mpr ⟨hne, hat⟩, rfl⟩

theorem pairwise_files {l : Listing} (ordered : l.Ordered) :
    l.files.Pairwise fun a b => a.1 < b.1 := by
  refine (pairwise_nodes ordered).filterMap _ ?_
  rintro ⟨path, node⟩ ⟨path', node'⟩ hlt file hfile file' hfile'
  cases node <;> cases hfile
  cases node' <;> cases hfile'
  exact hlt

theorem shaped_rules (l : Listing) : ∀ rule ∈ l.rules, rule.pattern.Shaped := by
  unfold rules rules?
  rcases hrules : Rule.ofLines (l.ruleLines?.getD []) with fault | rules
  · exact fun rule hrule => absurd hrule List.not_mem_nil
  · exact Rule.ofLines_shaped hrules

theorem wellNamed_of_all {tree : Listing} (ordered : tree.Ordered)
    (h : ∀ entry ∈ tree.nodes, ∀ name ∈ entry.1, IsName name) : tree.WellNamed :=
  fun _ _ hat => forall_at ordered (P := fun parts _ => ∀ name ∈ parts, IsName name) (by simp) h hat

theorem plain_of_all {tree : Listing} (ordered : tree.Ordered)
    (hroot : ∀ rule ∈ tree.rules, rule.Plain)
    (h : ∀ entry ∈ tree.nodes, ∀ rule ∈ entry.2.entries.rules, rule.Plain) : tree.Plain :=
  fun _ _ hat => forall_at ordered (P := fun _ node => ∀ rule ∈ node.entries.rules, rule.Plain)
    hroot h hat

/-- What a tree ignores as a directory, it ignores with all that the directory holds. -/
theorem Plain.ignores_below {tree : Listing} (plain : tree.Plain) {above below : List Text}
    (habove : above ≠ []) (names : ∀ name ∈ above, IsName name) (hbelow : below ≠ [])
    (h : tree.Ignores above true) : tree.Ignores (above ++ below) false := by
  have hnames : ∀ name ∈ above, name ≠ [] ∧ '/' ∉ name :=
    fun name hname => ⟨(names name hname).nonempty, (names name hname).noSlash⟩
  rcases h with h | ⟨first, inner, entries, rfl, hinner, hat, h⟩
  · exact .inl (ignored_below (Rule.ofLines_shaped ofLines_defaultPatterns) plain_defaultRules
      habove hnames hbelow h)
  · refine .inr ⟨first, inner ++ below, entries, List.append_assoc _ _ _, by simp [hinner], hat, ?_⟩
    exact ignored_below entries.shaped_rules (plain first entries hat) hinner
      (fun name hname => hnames name (List.mem_append_right _ hname)) hbelow h

/-- So the directories on the way to a file need not be looked at. -/
theorem Plain.keeps_iff {tree : Listing} (plain : tree.Plain) (names : tree.WellNamed)
    {wanted parts : List Text} {content : Bytes} :
    tree.Keeps tree.Ignores wanted parts content ↔ tree.at? parts = some (.file content) ∧
      Text.lower (Path.suffix (parts.getLast?.getD [])) ∈ wanted ∧ ¬tree.Ignores parts false := by
  constructor
  · exact fun keeps => ⟨keeps.stands, keeps.suffix, keeps.file⟩
  · rintro ⟨hat, hsuffix, hfile⟩
    refine ⟨hat, hsuffix, fun above hinit hne hproper h => hfile ?_, hfile⟩
    obtain ⟨below, rfl⟩ := hinit
    have hbelow : below ≠ [] := by
      rintro rfl
      exact hproper (List.append_nil above).symm
    exact plain.ignores_below hne
      (fun name hname => names _ _ hat name (List.mem_append_left _ hname)) hbelow h

end Listing

/-! ### Filters with the rules of all directories -/

namespace Ignore.PathFilter

def loadAll (fs : FileSystem) (f : PathFilter) : List (List Text) → Except LoadFault PathFilter
  | [] => .ok f
  | parts :: later =>
    match f.loadAt fs (f.root.extend parts) with
    | .error fault => .error fault
    | .ok (f, _) => loadAll fs f later

def ofDirectories (fs : FileSystem) (root : Path) (directories : List (List Text)) :
    Except LoadFault PathFilter :=
  match ofDirectory fs root true with
  | .error fault => .error fault
  | .ok (f, _) => loadAll fs f directories

/-- A directory below the root that has rules to be loaded: its rule file can be looked up. -/
def Loadable (root : Path) (tree : Listing) (parts : List Text) : Prop :=
  parts ≠ [] ∧ (∃ entries, tree.at? parts = some (.directory entries)) ∧
    ((root.extend parts).child ruleFileName).fits = true

def loadables (root : Path) (tree : Listing) : List (List Text) :=
  (tree.nodes.filter fun entry =>
    !entry.2.isFile && ((root.extend entry.1).child ruleFileName).fits).map (·.1)

variable {fs : FileSystem} {tree : Listing} {f : PathFilter}

theorem mem_loadables {root : Path} (ordered : tree.Ordered) {parts : List Text} :
    parts ∈ loadables root tree ↔ Loadable root tree parts := by
  unfold loadables Loadable
  rw [List.mem_map]
  constructor
  · rintro ⟨⟨path, node⟩, hentry, rfl⟩
    obtain ⟨hnode, hloadable⟩ := List.mem_filter.mp hentry
    obtain ⟨hne, hat⟩ := (Listing.mem_nodes ordered).mp hnode
    obtain ⟨hdirectory, hfits⟩ := Bool.and_eq_true_iff.mp hloadable
    cases node with
    | file content => cases hdirectory
    | directory entries => exact ⟨hne, ⟨entries, hat⟩, hfits⟩
  · rintro ⟨hne, ⟨entries, hat⟩, hfits⟩
    refine ⟨(parts, .directory entries), List.mem_filter.mpr ⟨?_, ?_⟩, rfl⟩
    · exact (Listing.mem_nodes ordered).mpr ⟨hne, hat⟩
    · exact Bool.and_eq_true_iff.mpr ⟨rfl, hfits⟩

theorem loadAt_extend (nested : f.nested = true) (htree : fs.list f.root = .ok tree)
    (names : tree.WellNamed) {parts : List Text} (hne : parts ≠ []) {entries : Listing}
    (hat : tree.at? parts = some (.directory entries))
    (hfits : ((f.root.extend parts).child ruleFileName).fits = true) {rules : List Rule}
    (hrules : entries.rules? = .ok rules) :
    ∃ notices, f.loadAt fs (f.root.extend parts) =
      .ok (f.adding (entries.scopes parts), notices) := by
  have hproper : ruleFileName ≠ Path.parent := by decide
  have hname : Path.nameFits ruleFileName = true := by decide
  have hfollow := FileSystem.follow_append (FileSystem.list_eq_ok.mp htree).2 hat
    fun name hname => ⟨(names parts _ hat name hname).proper, (names parts _ hat name hname).fits⟩
  rw [← FileSystem.absolute_extend] at hfollow
  have hfile : ruleFile fs (f.root.extend parts) = .ok (entries.find? ruleFileName) := by
    rw [ruleFile, FileSystem.find?_of_follow hfollow hproper hname, if_pos hfits]
    rfl
  obtain ⟨notices, hload⟩ := load_extend nested hne entries
  refine ⟨notices, ?_⟩
  rw [loadAt, if_pos ⟨nested, Path.extend_ne_self hne⟩, hfile]
  dsimp only
  rw [hload, hrules]

theorem loadAll_of_loadable (nested : f.nested = true) (htree : fs.list f.root = .ok tree)
    (names : tree.WellNamed) (compiles : tree.Compiles) {directories : List (List Text)}
    (hloadable : ∀ parts ∈ directories, Loadable f.root tree parts) :
    ∃ scopes, f.loadAll fs directories = .ok (f.adding scopes) ∧ ∀ s, s ∈ scopes ↔
      s.directory ∈ directories ∧ ∃ entries,
        tree.at? s.directory = some (.directory entries) ∧ s ∈ entries.scopes s.directory := by
  induction directories generalizing f with
  | nil => exact ⟨[], by rw [adding_nil]; rfl, by simp⟩
  | cons parts later ih =>
    obtain ⟨⟨hne, ⟨entries, hat⟩, hfits⟩, hlater⟩ := List.forall_mem_cons.mp hloadable
    obtain ⟨rules, hrules⟩ := compiles parts entries hat
    obtain ⟨notices, hload⟩ := loadAt_extend nested htree names hne hat hfits hrules
    obtain ⟨scopes, hscopes, hmem⟩ := ih (f := f.adding (entries.scopes parts)) nested htree hlater
    refine ⟨entries.scopes parts ++ scopes, ?_, fun s => ?_⟩
    · rw [loadAll, hload]
      dsimp only
      rw [hscopes, adding_adding]
    · rw [List.mem_append, hmem, List.mem_cons]
      constructor
      · rintro (hs | ⟨hdirectory, hscope⟩)
        · obtain ⟨-, rfl⟩ := Listing.mem_scopes.mp hs
          exact ⟨.inl rfl, entries, hat, hs⟩
        · exact ⟨.inr hdirectory, hscope⟩
      · rintro ⟨rfl | hdirectory, other, hother, hs⟩
        · rw [hat] at hother
          cases hother
          exact .inl hs
        · exact .inr ⟨hdirectory, other, hother, hs⟩

end Ignore.PathFilter

namespace Walk

variable {fs : FileSystem} {root : Path} {tree : Listing}

theorem files_ofRoot_of_error (wanted : List Text) (htree : fs.below root = .ok .nil)
    {fault : AccessFault} (herror : fs.list root = .error fault)
    (hfits : (root.child ruleFileName).fits = true) : (ofRoot fs root wanted).files = [] := by
  obtain ⟨notices, hfilter⟩ := ofDirectory_of_fits htree hfits
  have hfilter : PathFilter.ofDirectory fs root true = .ok ({ root }, notices) := hfilter
  unfold ofRoot
  rw [hfilter]
  dsimp only
  rw [files_andThen rfl, files_notices, ofFilter, herror]
  rfl

/-- The rules of all directories on the way to a file that can be reached are loaded. -/
theorem ignores_iff_of_loaded {f : PathFilter} (absolute : root.anchor ≠ .relative)
    (hroot : f.root = root) (hrules : f.rootRules = tree.rules) {directories : List (List Text)}
    (hdirectories : ∀ parts, parts ∈ directories ↔ PathFilter.Loadable root tree parts)
    (hscopes : ∀ s, s ∈ f.scopes ↔ s.directory ∈ directories ∧ ∃ entries,
      tree.at? s.directory = some (.directory entries) ∧ s ∈ entries.scopes s.directory)
    {parts : List Text} {content : Bytes} (hat : tree.at? parts = some (.file content))
    (reaches : root.Reaches parts) :
    f.ignores (root.extend parts) false = true ↔ tree.Ignores parts false := by
  have hne : parts ≠ [] := by
    rintro rfl
    cases hat
  rw [← hroot, PathFilter.ignores_extend, hroot, Path.shown, if_neg absolute, List.nil_append]
  refine PathFilter.ignoresParts_iff hne hrules (fun s below hparts => ?_) false
  rw [hscopes, hdirectories]
  constructor
  · rintro ⟨⟨hdirectory, -, -⟩, entries, hentries, hs⟩
    refine ⟨hdirectory, ?_, entries, hentries, hs⟩
    rintro rfl
    rw [hparts, List.append_nil, hentries] at hat
    cases hat
  · rintro ⟨hdirectory, hbelow, entries, hentries, hs⟩
    have hproper : s.directory ≠ parts := by
      intro heq
      exact hbelow (List.self_eq_append_right.mp (heq.trans hparts))
    have hfits := reaches.ruleFiles s.directory ⟨below, hparts.symm⟩ hproper
    exact ⟨⟨hdirectory, ⟨entries, hentries⟩, hfits⟩, entries, hentries, hs⟩

theorem eq_of_pairwise_lt {files others : List (List Text × Bytes)}
    (hfiles : files.Pairwise fun a b => a.1 < b.1) (hothers : others.Pairwise fun a b => a.1 < b.1)
    (h : ∀ parts content, (parts, content) ∈ files ↔ (parts, content) ∈ others) :
    files = others := by
  have : Std.Irrefl fun a b : List Text × Bytes => a.1 < b.1 := ⟨fun a => List.lt_irrefl a.1⟩
  have : Std.Antisymm fun a b : List Text × Bytes => a.1 < b.1 :=
    ⟨fun a b hab hba => absurd hba (List.lt_asymm hab)⟩
  exact hfiles.eq_of_mem_iff hothers fun file => h file.1 file.2

/-- A walk from an absolute root reads the files whose paths are not too long that a filter with the
rules of all directories keeps, if no rule takes a path back and none takes the slash after a
directory. -/
theorem files_eq_filter (fs : FileSystem) (root : Path) (tree : Listing) (wanted : List Text)
    (directories : List (List Text)) (absolute : root.anchor ≠ .relative)
    (ordered : fs.root.Ordered) (htree : fs.below root = .ok tree)
    (hfits : (root.child ruleFileName).fits = true) (names : tree.WellNamed)
    (compiles : tree.Compiles) (plain : tree.Plain)
    (hdirectories : ∀ parts, parts ∈ directories ↔ PathFilter.Loadable root tree parts) :
    ∃ f, PathFilter.ofDirectories fs root directories = .ok f ∧
      (ofRoot fs root wanted).files = tree.files.filter fun file =>
        decide (root.Reaches file.1) &&
          wanted.contains (Text.lower (Path.suffix (file.1.getLast?.getD []))) &&
          !f.ignores (root.extend file.1) false := by
  obtain ⟨rules, hrules⟩ := compiles [] tree rfl
  obtain ⟨notices, hfilter⟩ := ofDirectory_of_fits htree hfits
  rw [hrules] at hfilter
  rcases FileSystem.below_eq_ok htree with hlist | ⟨rfl, ⟨fault, herror⟩, -⟩
  · have treeOrdered : tree.Ordered := FileSystem.ordered_list ordered hlist
    have shown : root.shown = [] := if_neg absolute
    obtain ⟨scopes, hload, hscopes⟩ := PathFilter.loadAll_of_loadable
      (f := { root, rootRules := rules }) rfl hlist names compiles
      fun parts hparts => (hdirectories parts).mp hparts
    refine ⟨_, by rw [PathFilter.ofDirectories, hfilter]; exact hload, ?_⟩
    obtain ⟨g, hending⟩ := ofRoot_completes wanted hlist hfits hrules (compiles.nodes treeOrdered)
    obtain ⟨-, ends, hfiles⟩ := ofRoot_trace ordered hlist hending
    rw [hfiles]
    refine eq_of_pairwise_lt (pairwise_reads treeOrdered)
      ((Listing.pairwise_files treeOrdered).filter _) fun parts content => ?_
    rw [ends.mem_reads_iff treeOrdered shown hfits, plain.keeps_iff names, List.mem_filter,
      Listing.mem_files treeOrdered]
    simp only [Bool.and_eq_true, decide_eq_true_eq, List.contains_iff_mem, Bool.not_eq_true',
      ← Bool.not_eq_true]
    have hignores : tree.at? parts = some (.file content) → root.Reaches parts → _ :=
      ignores_iff_of_loaded (f := PathFilter.adding { root, rootRules := rules } scopes) absolute
        rfl (Listing.rules?_eq_ok hrules).symm hdirectories hscopes
    constructor
    · rintro ⟨⟨hat, hsuffix, hfile⟩, reaches⟩
      exact ⟨hat, ⟨reaches, hsuffix⟩, fun h => hfile ((hignores hat reaches).mp h)⟩
    · rintro ⟨hat, ⟨reaches, hsuffix⟩, hfile⟩
      exact ⟨⟨hat, hsuffix, fun h => hfile ((hignores hat reaches).mpr h)⟩, reaches⟩
  · have hnone : directories = [] := by
      apply List.eq_nil_iff_forall_not_mem.mpr
      intro parts hparts
      obtain ⟨hne, ⟨entries, hat⟩, -⟩ := (hdirectories parts).mp hparts
      obtain ⟨name, below, rfl⟩ := List.exists_cons_of_ne_nil hne
      cases hat
    subst hnone
    exact ⟨_, by rw [PathFilter.ofDirectories, hfilter]; rfl,
      files_ofRoot_of_error wanted htree herror hfits⟩

end Walk

/-- A directory with a rule for each of its two directories, of which one is not entered. -/
def Listing.pruned : Listing :=
  .file ruleFileName (Utf8.encode "/gen/\n".toList)
    (.directory "gen".toList
      (.file "out.js".toList (Utf8.encode "'fetch logs'".toList) .nil)
      (.directory "sub".toList
        (.file ruleFileName (Utf8.encode "*.test.js\n".toList)
          (.file "app.js".toList (Utf8.encode "'fetch events'".toList)
            (.file "app.test.js".toList [] .nil)))
        .nil))

theorem Walk.files_eq_filter_sample :
    let fs : FileSystem := ⟨.directory "src".toList .pruned .nil, []⟩
    let root : Path := ⟨.root, ["src".toList]⟩
    let directories := [["gen".toList], ["sub".toList]]
    fs.root.Ordered ∧ fs.below root = .ok .pruned ∧ (root.child ruleFileName).fits = true ∧
      Listing.pruned.WellNamed ∧ Listing.pruned.Compiles ∧ Listing.pruned.Plain ∧
      (∀ parts, parts ∈ directories ↔ PathFilter.Loadable root .pruned parts) ∧
      ∃ f, PathFilter.ofDirectories fs root directories = .ok f ∧
        (Walk.ofRoot fs root [".js".toList]).files = Listing.pruned.files.filter fun file =>
          decide (root.Reaches file.1) &&
            [".js".toList].contains (Text.lower (Path.suffix (file.1.getLast?.getD []))) &&
            !f.ignores (root.extend file.1) false := by
  intro fs root directories
  have ordered : fs.root.Ordered := by decide
  have treeOrdered : Listing.pruned.Ordered := by decide
  have htree : fs.below root = .ok .pruned := by rfl
  have hfits : (root.child ruleFileName).fits = true := by decide
  have names : Listing.pruned.WellNamed := Listing.wellNamed_of_all treeOrdered (by decide)
  have compiles : Listing.pruned.Compiles :=
    Listing.compiles_of_all treeOrdered (by decide +kernel)
  have plain : Listing.pruned.Plain :=
    Listing.plain_of_all treeOrdered (by decide +kernel) (by decide +kernel)
  have hdirectories : ∀ parts, parts ∈ directories ↔ PathFilter.Loadable root .pruned parts := by
    have hloadables : PathFilter.loadables root .pruned = directories := by decide +kernel
    exact fun parts => hloadables ▸ PathFilter.mem_loadables treeOrdered
  exact ⟨ordered, htree, hfits, names, compiles, plain, hdirectories,
    Walk.files_eq_filter fs root .pruned [".js".toList] directories (by decide) ordered htree hfits
      names compiles plain hdirectories⟩

/-- A directory with a rule of which the set takes the slash after `foo`. -/
def Listing.bracketed : Listing :=
  .file ruleFileName (Utf8.encode "foo[!a]\n".toList)
    (.directory "foo".toList
      (.file "bar.js".toList (Utf8.encode "'fetch logs'".toList) .nil) .nil)

/-- Such a directory is not entered, though a filter keeps the file in it. -/
theorem Walk.files_ne_filter :
    let fs : FileSystem := ⟨.directory "src".toList .bracketed .nil, []⟩
    let root : Path := ⟨.root, ["src".toList]⟩
    let directories := [["foo".toList]]
    fs.root.Ordered ∧ fs.below root = .ok .bracketed ∧ (root.child ruleFileName).fits = true ∧
      Listing.bracketed.WellNamed ∧ Listing.bracketed.Compiles ∧
      (∀ parts entries, Listing.bracketed.at? parts = some (.directory entries) →
        ∀ rule ∈ entries.rules, rule.negated = false) ∧
      (∀ parts, parts ∈ directories ↔ PathFilter.Loadable root .bracketed parts) ∧
      ∃ f, PathFilter.ofDirectories fs root directories = .ok f ∧
        (Walk.ofRoot fs root [".js".toList]).files = [] ∧
        (Listing.bracketed.files.filter fun file =>
          [".js".toList].contains (Text.lower (Path.suffix (file.1.getLast?.getD []))) &&
            !f.ignores (root.extend file.1) false) =
          [(["foo".toList, "bar.js".toList], Utf8.encode "'fetch logs'".toList)] := by
  intro fs root directories
  have treeOrdered : Listing.bracketed.Ordered := by decide
  refine ⟨by decide, by rfl, by decide, Listing.wellNamed_of_all treeOrdered (by decide),
    Listing.compiles_of_all treeOrdered (by decide +kernel), ?_, ?_, ?_⟩
  · intro parts entries hat
    exact Listing.forall_at treeOrdered
      (P := fun _ node => ∀ rule ∈ node.entries.rules, rule.negated = false)
      (by decide +kernel) (by decide +kernel) hat
  · have hloadables : PathFilter.loadables root .bracketed = directories := by decide +kernel
    exact fun parts => hloadables ▸ PathFilter.mem_loadables treeOrdered
  · exact ⟨{ root, rootRules := Listing.bracketed.rules }, by rfl, by decide +kernel,
      by decide +kernel⟩

end DqlScan
