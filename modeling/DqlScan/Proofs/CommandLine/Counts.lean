import DqlScan.Proofs.CommandLine.ExitCodes
import DqlScan.Proofs.Report.Summary
import DqlScan.Proofs.Scan.Accounting
import DqlScan.Proofs.Scan.Spelling

/-!
# Counts of files

A report counts the names of the files with queries. It counts the files if no directory shows a file
by a name that another path shows one by, and too few if one does (`ofArguments_counts`).
-/

namespace DqlScan

/-! ### Files that a run reads -/

/-- A file that was read: where it stands in the tree, what reports call it, and its text. -/
structure ScannedFile where
  place : List Text
  shown : Text
  text : Text

def ScannedFile.queries (file : ScannedFile) : List Query := findQueries file.text file.shown

theorem ScanResult.filesWithQueries_eq {r : ScanResult} {files : List ScannedFile}
    (h : r.queries = files.flatMap (·.queries)) :
    r.filesWithQueries = ((files.filter (·.queries ≠ [])).map (·.shown)).toFinset.card := by
  rw [filesWithQueries, length_eraseDups, h]
  congr 1
  ext name
  simp only [List.mem_toFinset, List.mem_map, List.mem_flatMap, List.mem_filter, decide_eq_true_iff]
  constructor
  · rintro ⟨q, ⟨file, hfile, hq⟩, rfl⟩
    refine ⟨file, ⟨hfile, List.ne_nil_of_mem hq⟩, ?_⟩
    obtain ⟨token, -, rfl⟩ := List.mem_map.mp hq
    rfl
  · rintro ⟨file, ⟨hfile, hne⟩, rfl⟩
    obtain ⟨q, hq⟩ := List.exists_mem_of_ne_nil _ hne
    refine ⟨q, ⟨file, hfile, hq⟩, ?_⟩
    obtain ⟨token, -, rfl⟩ := List.mem_map.mp hq
    rfl

namespace FileSystem

variable {fs : FileSystem} {path : Path}

/-- The files that a run reads where a path leads to: the file itself, or those of a walk. -/
def scanned (fs : FileSystem) (path : Path) : List ScannedFile :=
  match fs.find? path with
  | .ok (some (.file content)) =>
    ([([], content)].filterMap decoded?).map fun file => ⟨fs.place path, path.text, file.2⟩
  | .ok (some (.directory _)) =>
    ((Walk.ofRoot fs path (Language.suffixes.map Text.lower)).files.filterMap decoded?).map
      fun file => ⟨fs.place path ++ file.1, Path.joined file.1, file.2⟩
  | .ok none | .error _ => []

/-- Neither of two paths leads to where the other does, or below. -/
def Apart (fs : FileSystem) (p q : Path) : Prop :=
  ¬fs.place p <+: fs.place q ∧ ¬fs.place q <+: fs.place p

instance (fs : FileSystem) (p q : Path) : Decidable (fs.Apart p q) :=
  inferInstanceAs (Decidable (_ ∧ _))

theorem mem_scanned_cases {file : ScannedFile} (h : file ∈ fs.scanned path) :
    (∃ content, fs.find? path = .ok (some (.file content)) ∧
        Utf8.decode content = .ok file.text ∧ file.place = fs.place path ∧
          file.shown = path.text) ∨
      ∃ tree parts content, fs.find? path = .ok (some (.directory tree)) ∧
        (parts, content) ∈ (Walk.ofRoot fs path (Language.suffixes.map Text.lower)).files ∧
          Utf8.decode content = .ok file.text ∧ file.place = fs.place path ++ parts ∧
            file.shown = Path.joined parts := by
  unfold scanned at h
  split at h
  · next content hfound =>
    obtain ⟨read, hread, rfl⟩ := List.mem_map.mp h
    obtain ⟨_, hmem, hdecoded⟩ := List.mem_filterMap.mp hread
    rw [List.mem_singleton.mp hmem] at hdecoded
    exact .inl ⟨content, hfound, (decoded?_eq_some.mp hdecoded).2, rfl, rfl⟩
  · next tree hfound =>
    obtain ⟨read, hread, rfl⟩ := List.mem_map.mp h
    obtain ⟨⟨parts, content⟩, hmem, hdecoded⟩ := List.mem_filterMap.mp hread
    obtain ⟨hparts, hdecode⟩ := decoded?_eq_some.mp hdecoded
    exact .inr ⟨tree, parts, content, hfound, hmem, hdecode, by rw [← hparts], by rw [← hparts]⟩
  · cases h
  · cases h

theorem prefix_of_mem_scanned {file : ScannedFile} (h : file ∈ fs.scanned path) :
    fs.place path <+: file.place := by
  rcases mem_scanned_cases h with ⟨_, -, -, hplace, -⟩ | ⟨_, parts, _, -, -, -, hplace, -⟩
  · rw [hplace]
  · rw [hplace]
    exact List.prefix_append _ _

theorem Apart.ne_place {p q : Path} (apart : fs.Apart p q) {f g : ScannedFile}
    (hf : f ∈ fs.scanned p) (hg : g ∈ fs.scanned q) : f.place ≠ g.place := by
  intro heq
  have hp := prefix_of_mem_scanned hf
  rw [heq] at hp
  rcases List.prefix_or_prefix_of_prefix hp (prefix_of_mem_scanned hg) with h | h
  · exact apart.1 h
  · exact apart.2 h

theorem shown_of_not_directory (hfile : ¬∃ tree, fs.list path = .ok tree) {file : ScannedFile}
    (h : file ∈ fs.scanned path) : file.shown = path.text := by
  rcases mem_scanned_cases h with ⟨_, -, -, -, hshown⟩ | ⟨tree, _, _, hfound, -⟩
  · exact hshown
  · exact absurd ⟨tree, list_of_find? hfound⟩ hfile

end FileSystem

namespace CommandLine

namespace Collection

variable {fs : FileSystem} {verbose : Bool}

/-! ### One path -/

theorem ending_of_ofPath {path : Path} {tree : Listing} (h : (ofPath fs verbose path).2 = none)
    (hfound : fs.find? path = .ok (some (.directory tree))) :
    ∃ f, (Walk.ofRoot fs path (Language.suffixes.map Text.lower)).ending = .ok f := by
  rw [ofPath, hfound] at h
  have hfault : (scanDirectory fs path none).fault = none := Option.map_eq_none_iff.mp h
  exact DirectoryScan.fault_ofWalk_eq_none.mp hfault

/-- What a path yields comes from the files that are read there. -/
theorem result_ofPath (ordered : fs.root.Ordered) {path : Path}
    (h : (ofPath fs verbose path).2 = none) :
    (ofPath fs verbose path).1.result.queries = (fs.scanned path).flatMap (·.queries) ∧
      (ofPath fs verbose path).1.result.filesScanned = (fs.scanned path).length := by
  unfold FileSystem.scanned
  split
  · next content hfound =>
    have hcollected : ofPath fs verbose path = ofFile fs path := by rw [ofPath, hfound]
    rw [hcollected] at h ⊢
    rcases hdecode : Utf8.decode content with bad | text
    · rw [fault_ofFile_of_decode_error hfound hdecode] at h
      cases h
    · rw [ofFile_of_decode hfound hdecode]
      simp [decoded?, hdecode, ScannedFile.queries]
  · next tree hfound =>
    obtain ⟨f, hending⟩ := ending_of_ofPath h hfound
    have accounts := DirectoryScan.accounts_ofWalk (Walk.leavesFiles_ofRoot fs path _)
      (Walk.pairwise_files_ofRoot ordered hending)
    rw [ofPath, hfound]
    refine ⟨?_, ?_⟩
    · rw [List.flatMap_map]
      exact accounts.queries
    · rw [List.length_map]
      exact accounts.filesScanned
  · next hfound =>
    rw [ofPath, hfound] at h
    cases h
  · next hfound =>
    rw [ofPath, hfound] at h
    cases h

theorem at?_of_mem_scanned (ordered : fs.root.Ordered) {path : Path}
    (h : (ofPath fs verbose path).2 = none) {file : ScannedFile} (hfile : file ∈ fs.scanned path) :
    ∃ content, fs.root.at? file.place = some (.file content) ∧
      Utf8.decode content = .ok file.text := by
  rcases FileSystem.mem_scanned_cases hfile with
    ⟨content, hfound, hdecode, hplace, -⟩ | ⟨_, _, content, hfound, hmem, hdecode, hplace, -⟩
  · exact ⟨content, hplace ▸ FileSystem.at?_of_find? hfound, hdecode⟩
  · obtain ⟨f, hending⟩ := ending_of_ofPath h hfound
    exact ⟨content, hplace ▸ Walk.at?_of_mem_files_ofRoot ordered hending hmem, hdecode⟩

/-- No two of the files that are read at a path stand at one place or are shown by one name. -/
theorem pairwise_scanned (ordered : fs.root.Ordered) (named : fs.root.Named) {path : Path}
    (h : (ofPath fs verbose path).2 = none) :
    (fs.scanned path).Pairwise fun f g => f.place ≠ g.place ∧ f.shown ≠ g.shown := by
  unfold FileSystem.scanned
  split
  · next content hfound =>
    rw [List.filterMap_cons, List.filterMap_nil]
    rcases decoded? ([], content) with _ | file
    · exact List.Pairwise.nil
    · exact List.pairwise_singleton _ _
  · next tree hfound =>
    obtain ⟨f, hending⟩ := ending_of_ofPath h hfound
    have hfiles : ∀ {file}, file ∈ (Walk.ofRoot fs path (Language.suffixes.map Text.lower)).files →
        file.1 ≠ [] ∧ ∀ name ∈ file.1, '/' ∉ name := by
      intro file hfile
      have hat := Walk.at?_of_mem_files_ofRoot ordered hending hfile
      refine ⟨fun hnil => ?_, fun name hname => named _ _ hat name (List.mem_append_right _ hname)⟩
      rw [hnil, List.append_nil, FileSystem.at?_of_find? hfound] at hat
      cases hat
    have pairwise := Walk.pairwise_files_ofRoot ordered hending
    have hpairs : (Walk.ofRoot fs path (Language.suffixes.map Text.lower)).files.Pairwise
        fun a b => a.1 ≠ b.1 ∧ Path.joined a.1 ≠ Path.joined b.1 := by
      refine pairwise.imp_of_mem fun {a b} ha hb hlt => ?_
      have hne : a.1 ≠ b.1 := fun heq => List.lt_irrefl b.1 (heq ▸ hlt)
      refine ⟨hne, fun hjoined => hne ?_⟩
      exact Path.joined_injective (hfiles ha).1 (hfiles hb).1 (hfiles ha).2 (hfiles hb).2 hjoined
    refine List.pairwise_map.mpr (hpairs.filterMap _ fun a b hne c hc d hd => ?_)
    rw [(decoded?_eq_some.mp hc).1, (decoded?_eq_some.mp hd).1] at hne
    exact ⟨fun heq => hne.1 (List.append_cancel_left heq), hne.2⟩
  · exact List.Pairwise.nil
  · exact List.Pairwise.nil

/-! ### All paths -/

theorem ofPaths_cons_of_none {path : Path} {paths : List Path}
    (h : (ofPaths fs verbose (path :: paths)).2 = none) :
    (ofPath fs verbose path).2 = none ∧ (ofPaths fs verbose paths).2 = none ∧
      (ofPaths fs verbose (path :: paths)).1 =
        (ofPath fs verbose path).1 ++ (ofPaths fs verbose paths).1 := by
  rw [fault_ofPaths_cons, Option.or_eq_none_iff] at h
  refine ⟨h.1, h.2, ?_⟩
  rw [ofPaths_cons, andThen_of_none h.1]

theorem ofPath_of_ofPaths {paths : List Path} (h : (ofPaths fs verbose paths).2 = none) :
    ∀ path ∈ paths, (ofPath fs verbose path).2 = none := by
  induction paths with
  | nil => exact fun path hpath => absurd hpath List.not_mem_nil
  | cons path paths ih =>
    obtain ⟨hpath, hpaths, -⟩ := ofPaths_cons_of_none h
    exact List.forall_mem_cons.mpr ⟨hpath, ih hpaths⟩

theorem result_ofPaths (ordered : fs.root.Ordered) {paths : List Path}
    (h : (ofPaths fs verbose paths).2 = none) :
    (ofPaths fs verbose paths).1.result.queries =
        (paths.flatMap fs.scanned).flatMap (·.queries) ∧
      (ofPaths fs verbose paths).1.result.filesScanned = (paths.flatMap fs.scanned).length := by
  induction paths with
  | nil => exact ⟨rfl, rfl⟩
  | cons path paths ih =>
    obtain ⟨hpath, hpaths, happend⟩ := ofPaths_cons_of_none h
    obtain ⟨hqueries, hscanned⟩ := result_ofPath ordered hpath
    obtain ⟨hlater, hlaterScanned⟩ := ih hpaths
    rw [happend, List.flatMap_cons]
    constructor
    · show (ofPath fs verbose path).1.result.queries ++ _ = _
      rw [hqueries, hlater, List.flatMap_append]
    · show (ofPath fs verbose path).1.result.filesScanned + _ = _
      rw [hscanned, hlaterScanned, List.length_append, Int.natCast_add]

end Collection

/-! ### Names of files with queries -/

def countedNames (fs : FileSystem) (path : Path) : List Text :=
  ((fs.scanned path).filter (·.queries ≠ [])).map (·.shown)

section Names

variable {fs : FileSystem} {verbose : Bool} {paths : List Path}

theorem names_flatMap (paths : List Path) :
    ((paths.flatMap fs.scanned).filter (·.queries ≠ [])).map (·.shown) =
      paths.flatMap (countedNames fs) := by
  rw [List.filter_flatMap, List.map_flatMap]
  rfl

theorem nodup_places (ordered : fs.root.Ordered) (named : fs.root.Named)
    (h : (Collection.ofPaths fs verbose paths).2 = none) (apart : paths.Pairwise fs.Apart) :
    ((paths.flatMap fs.scanned).map (·.place)).Nodup := by
  rw [List.map_flatMap, List.nodup_flatMap]
  constructor
  · intro path hpath
    have pairwise := Collection.pairwise_scanned ordered named
      (Collection.ofPath_of_ofPaths h path hpath)
    exact List.pairwise_map.mpr (pairwise.imp And.left)
  · refine apart.imp fun {p q} hpq place hp hq => ?_
    obtain ⟨f, hf, rfl⟩ := List.mem_map.mp hp
    obtain ⟨g, hg, hplace⟩ := List.mem_map.mp hq
    exact hpq.ne_place hf hg hplace.symm

theorem nodup_names_iff (ordered : fs.root.Ordered) (named : fs.root.Named)
    (h : (Collection.ofPaths fs verbose paths).2 = none) :
    (paths.flatMap (countedNames fs)).Nodup ↔
      paths.Pairwise fun p q => (countedNames fs p).Disjoint (countedNames fs q) := by
  rw [List.nodup_flatMap]
  -- The names of one path differ already, so only those of two paths are left to compare.
  refine and_iff_right fun path hpath => ?_
  have pairwise := Collection.pairwise_scanned ordered named
    (Collection.ofPath_of_ofPaths h path hpath)
  exact List.pairwise_map.mpr ((pairwise.imp And.right).filter _)

theorem disjoint_names_of_files {s t : Text} (apart : fs.Apart (.read s) (.read t))
    (hs : ¬∃ tree, fs.list (.read s) = .ok tree) (ht : ¬∃ tree, fs.list (.read t) = .ok tree) :
    (countedNames fs (.read s)).Disjoint (countedNames fs (.read t)) := by
  intro name hname hname'
  obtain ⟨f, hf, rfl⟩ := List.mem_map.mp hname
  obtain ⟨g, hg, hshown⟩ := List.mem_map.mp hname'
  rw [FileSystem.shown_of_not_directory hs (List.mem_of_mem_filter hf),
    FileSystem.shown_of_not_directory ht (List.mem_of_mem_filter hg)] at hshown
  rw [Path.read_eq_of_text_eq hshown] at apart
  exact apart.1 List.prefix_rfl

theorem pairwise_disjoint_iff {args : List Text} (apart : (args.map Path.read).Pairwise fs.Apart) :
    ((args.map Path.read).Pairwise fun p q => (countedNames fs p).Disjoint (countedNames fs q)) ↔
      (args.map Path.read).Pairwise fun p q =>
        ((∃ tree, fs.list p = .ok tree) ∨ ∃ tree, fs.list q = .ok tree) →
          (countedNames fs p).Disjoint (countedNames fs q) := by
  constructor
  · intro h
    refine h.imp ?_
    intro p q hdisjoint _
    exact hdisjoint
  · intro h
    rw [List.pairwise_map] at apart h ⊢
    -- Two files are shown by the texts of their paths, which tell the paths.
    refine apart.imp₂ (fun s t hapart hdisjoint => ?_) h
    by_cases hs : ∃ tree, fs.list (.read s) = .ok tree
    · exact hdisjoint (.inl hs)
    by_cases ht : ∃ tree, fs.list (.read t) = .ok tree
    · exact hdisjoint (.inr ht)
    · exact disjoint_names_of_files hapart hs ht

end Names

/-! ### Reports -/

/-- A run reports how many files it has scanned, and how many of them have queries. -/
inductive Run.Reports (run : Run) (scanned counted : Nat) : Prop
  | json {members summary : List (Text × Json)}
      (output : run.output = Text.unlines [(Json.obj members).write])
      (holds : Json.member? "summary".toList members = some (.obj summary))
      (files : Json.member? "files_scanned".toList summary = some (.int scanned))
      (names : Json.member? "files_with_commands".toList summary = some (.int counted))
  | console {counts : Report.Counts} {target title border : Text}
      (panel : .panel (counts.panel target) title border ∈ run.console)
      (files : counts.filesScanned = scanned) (names : counts.filesWithQueries = counted)

theorem Run.found_of_exit {fs : FileSystem} {o : Options} {format : ReportFormat}
    {paths : List Path} (h : (scan fs o format paths).ending = .exit 0) :
    (Collection.ofPaths fs o.verbose paths).2 = none := by
  rw [ending_scan] at h
  rcases hfound : (Collection.ofPaths fs o.verbose paths).2 with _ | fault
  · rfl
  · rw [hfound] at h
    cases fault <;> cases h

theorem Run.reports_scan {fs : FileSystem} {o : Options} {format : ReportFormat}
    {paths : List Path} {scanned : Nat} (hformat : format ≠ .text)
    (hfound : (Collection.ofPaths fs o.verbose paths).2 = none)
    (hscanned : (Collection.ofPaths fs o.verbose paths).1.result.filesScanned = scanned) :
    (scan fs o format paths).Reports scanned
      (Collection.ofPaths fs o.verbose paths).1.result.filesWithQueries := by
  unfold scan
  rcases hcollected : Collection.ofPaths fs o.verbose paths with ⟨found, _ | fault⟩
  · rw [hcollected] at hscanned
    cases format with
    | text => exact absurd rfl hformat
    | json => exact .json rfl rfl (congrArg (some <| Json.int ·) hscanned) rfl
    | console =>
      have hpanel : (Report.summaryPanel found.result (target paths)).map Report.Cell.source ∈
          Report.console found.result (target paths) := by
        simp [Report.console, Report.sources, Report.blocks]
      exact .console hpanel hscanned rfl
  · rw [hcollected] at hfound
    cases hfound

/-- A run that comes to its end reports how many files it has read, and how many names those with
queries have. The names are as many as these files exactly if no directory shows one of them by a
name that another path shows one by. -/
theorem ofArguments_counts (fs : FileSystem) (args : List Text) (page : Text) (o : Options)
    (ordered : fs.root.Ordered) (named : fs.root.Named) (hread : Options.read args = .ok o)
    (hhelp : o.help = false) (hversion : o.version = false)
    (hformat : o.format = "json".toList ∨ o.format = "rich".toList)
    (hexit : (Run.ofArguments fs args page).ending = .exit 0)
    (apart : (o.paths.map Path.read).Pairwise fs.Apart) :
    let paths := o.paths.map Path.read
    let files := paths.flatMap fs.scanned
    let counted := files.filter (·.queries ≠ [])
    let names := (counted.map (·.shown)).toFinset
    (Run.ofArguments fs args page).Reports files.length names.card ∧
      (files.map (·.place)).Nodup ∧
      (∀ file ∈ files, ∃ content, fs.root.at? file.place = some (.file content) ∧
        Utf8.decode content = .ok file.text) ∧
      names.card ≤ counted.length ∧
      (names.card = counted.length ↔ paths.Pairwise fun p q =>
        ((∃ tree, fs.list p = .ok tree) ∨ ∃ tree, fs.list q = .ok tree) →
          (countedNames fs p).Disjoint (countedNames fs q)) := by
  intro paths files counted names
  have hrun : Run.ofArguments fs args page = Run.ofOptions fs o page := by
    rw [Run.ofArguments, hread]
  rw [hrun] at hexit ⊢
  rcases Run.ofOptions_cases fs page hhelp hversion with ⟨-, format, hname, hscan⟩ | ⟨-, line, hfailed⟩
  · rw [hscan] at hexit ⊢
    have hfound := Run.found_of_exit hexit
    obtain ⟨hqueries, hscanned⟩ := Collection.result_ofPaths ordered hfound
    have htext : format ≠ .text := by
      rintro rfl
      rcases hformat with h | h <;> rw [h] at hname <;> exact absurd hname (by decide)
    have hreports := Run.reports_scan htext hfound hscanned
    rw [ScanResult.filesWithQueries_eq hqueries] at hreports
    refine ⟨hreports, nodup_places ordered named hfound apart, ?_, ?_, ?_⟩
    · intro file hfile
      obtain ⟨path, hpath, hmem⟩ := List.mem_flatMap.mp hfile
      exact Collection.at?_of_mem_scanned ordered (Collection.ofPath_of_ofPaths hfound path hpath) hmem
    · exact (List.toFinset_card_le _).trans (Nat.le_of_eq (List.length_map _))
    · have hnames : counted.map (·.shown) = paths.flatMap (countedNames fs) := names_flatMap paths
      rw [← pairwise_disjoint_iff apart, ← nodup_names_iff ordered named hfound, ← hnames,
        ← List.length_map (·.shown)]
      exact Multiset.toFinset_card_eq_card_iff_nodup
  · rw [hfailed] at hexit
    cases hexit

def twoPaths : FileSystem :=
  ⟨.directory "a".toList (.file "app.js".toList (Utf8.encode "'fetch logs'".toList) .nil)
    (.file "main.js".toList (Utf8.encode "'fetch events'".toList) .nil), []⟩

theorem ofArguments_counts_files :
    let args := ["-f".toList, "json".toList, "/a".toList, "/main.js".toList]
    let o : Options := { paths := ["/a".toList, "/main.js".toList], format := "json".toList }
    let files := (o.paths.map Path.read).flatMap twoPaths.scanned
    twoPaths.root.Ordered ∧ twoPaths.root.Named ∧ Options.read args = .ok o ∧
      (Run.ofArguments twoPaths args).ending = .exit 0 ∧
      (o.paths.map Path.read).Pairwise twoPaths.Apart ∧
      (files.filter (·.queries ≠ [])).length = 2 ∧
      (Run.ofArguments twoPaths args).Reports 2 2 := by
  intro args o files
  have ordered : twoPaths.root.Ordered := by decide
  have named : twoPaths.root.Named := Listing.named_of_all ordered (by decide)
  have hread : Options.read args = .ok o := by decide
  have hexit : (Run.ofArguments twoPaths args).ending = .exit 0 := by rfl
  have apart : (o.paths.map Path.read).Pairwise twoPaths.Apart := by decide
  have hfiles : files.length = 2 := by decide +kernel
  have hcounted : (files.filter (·.queries ≠ [])).length = 2 := by decide +kernel
  have hnames : ((files.filter (·.queries ≠ [])).map (·.shown)).toFinset.card = 2 := by
    decide +kernel
  obtain ⟨hreports, -⟩ := ofArguments_counts twoPaths args [] o ordered named hread rfl rfl (.inl rfl)
    hexit apart
  rw [hfiles, hnames] at hreports
  exact ⟨ordered, named, hread, hexit, apart, hcounted, hreports⟩

/-- Two directories show different files by one name. Both are scanned and have queries, and one file
with queries is reported. -/
theorem ofArguments_counts_names :
    let fs : FileSystem :=
      ⟨.directory "a".toList (.file "app.js".toList (Utf8.encode "'fetch logs'".toList) .nil)
        (.directory "b".toList (.file "app.js".toList (Utf8.encode "'fetch events'".toList) .nil)
          .nil), []⟩
    let args := ["-f".toList, "json".toList, "/a".toList, "/b".toList]
    let o : Options := { paths := ["/a".toList, "/b".toList], format := "json".toList }
    let paths := o.paths.map Path.read
    let files := paths.flatMap fs.scanned
    Options.read args = .ok o ∧ (Run.ofArguments fs args).ending = .exit 0 ∧
      paths.Pairwise fs.Apart ∧ (files.map (·.place)).Nodup ∧
      (files.filter (·.queries ≠ [])).length = 2 ∧ (Run.ofArguments fs args).Reports 2 1 := by
  intro fs args o paths files
  have hread : Options.read args = .ok o := by decide
  refine ⟨hread, by rfl, by decide, by decide +kernel, by decide +kernel, ?_⟩
  have hscan : Run.ofArguments fs args = Run.scan fs o .json paths := by
    rw [Run.ofArguments, hread]
    rfl
  have hreports : (Run.scan fs o .json paths).Reports 2
      (Collection.ofPaths fs o.verbose paths).1.result.filesWithQueries :=
    Run.reports_scan (by decide) (by rfl) (by decide +kernel)
  have hcounted : (Collection.ofPaths fs o.verbose paths).1.result.filesWithQueries = 1 := by
    decide +kernel
  rw [hcounted] at hreports
  rwa [hscan]

end CommandLine

end DqlScan
