import DqlScan.Proofs.CommandLine.Endings

/-!
# Exit codes

The first path of a command line at which nothing stands, or a file that is not UTF-8, decides about
the exit code, and a run that does not end with 0 reports nothing (`ofArguments_decided`). A path that
is too long to be looked up takes the run to no exit code at all, and neither comes a run to one whose
console cannot draw its report.
-/

namespace DqlScan

open Ignore

namespace FileSystem

/-- The exit code of a run that comes to a path at which nothing stands, or a file that is not
UTF-8. -/
def stop? (fs : FileSystem) (path : Path) : Option Nat :=
  match fs.find? path with
  | .ok none => some 2
  | .ok (some (.file content)) => if (Utf8.decode content).isOk then none else some 3
  | .ok (some (.directory _)) | .error _ => none

/-- A path is not too long to be looked up, nor is that of a rule file in the directory that it leads
to. -/
structure Reached (fs : FileSystem) (path : Path) : Prop where
  found : ∃ node?, fs.find? path = .ok node?
  ruleFile : ∀ tree, fs.list path = .ok tree → (path.child ruleFileName).fits = true

variable {fs : FileSystem} {path : Path}

theorem find?_of_list {tree : Listing} (h : fs.list path = .ok tree) :
    fs.find? path = .ok (some (.directory tree)) := by
  unfold list at h
  unfold find?
  rcases hnode : fs.node path with fault | node <;> rw [hnode] at h
  · cases h
  cases node <;> cases h
  rfl

theorem find?_of_long {name : Text} {parts : List Text} (h : fs.absolute path = name :: parts)
    (hproper : name ≠ Path.parent) (hlong : Path.nameFits name = false) :
    fs.find? path = .error .nameTooLong := by
  have hnode : fs.node path = .error .nameTooLong := by
    unfold node
    split
    · rw [h, follow, if_neg hproper, if_neg (by simp [hlong])]
    · rfl
  rw [find?, hnode]

theorem Reached.of_not_directory {node? : Option Node} (h : fs.find? path = .ok node?)
    (hnot : ∀ tree, node? ≠ some (.directory tree)) : fs.Reached path := by
  refine ⟨⟨_, h⟩, fun tree htree => ?_⟩
  rw [find?_of_list htree] at h
  exact absurd (Except.ok.inj h).symm (hnot tree)

theorem Reached.of_stop? {code : Nat} (h : fs.stop? path = some code) : fs.Reached path := by
  unfold stop? at h
  split at h
  · next hfind => exact .of_not_directory hfind nofun
  · next hfind => exact .of_not_directory hfind nofun
  · cases h
  · cases h

theorem ne_zero_of_stop? {code : Nat} (h : fs.stop? path = some code) : code ≠ 0 := by
  unfold stop? at h
  split at h
  · cases h
    decide
  · split at h <;> cases h
    decide
  · cases h
  · cases h

end FileSystem

namespace CommandLine

variable {fs : FileSystem}

/-! ### One path -/

theorem Collection.ending_ofPath (ordered : fs.root.Ordered) (verbose : Bool) {path : Path}
    (reached : fs.Reached path) (compiles : ∀ tree, fs.list path = .ok tree → tree.Compiles) :
    (ofPath fs verbose path).2.map PathFault.ending = (fs.stop? path).map Ending.exit := by
  obtain ⟨node?, hfound⟩ := reached.found
  unfold ofPath FileSystem.stop?
  rw [hfound]
  rcases node? with _ | node
  · rfl
  cases node with
  | directory tree =>
    have hnone := FileSystem.Scannable.fault_eq_none ordered
      ⟨reached.found, reached.ruleFile, compiles⟩ (FileSystem.list_of_find? hfound) none
    simp [ofDirectory, hnone]
  | file content =>
    dsimp only
    rcases hdecode : Utf8.decode content with bad | text
    · rw [fault_ofFile_of_decode_error hfound hdecode]
      rfl
    · rw [ofFile_of_decode hfound hdecode]
      rfl

/-- A path that cannot be looked up ends a run without an exit code. -/
theorem Collection.breaks_ofPath (verbose : Bool) {path : Path} (unreached : ¬fs.Reached path) :
    ∃ fault, (ofPath fs verbose path).2 = some fault ∧ ∀ code, fault.ending ≠ .exit code := by
  unfold ofPath
  rcases hfound : fs.find? path with fault | node?
  · exact ⟨.access path fault, rfl, nofun⟩
  rcases hlist : fs.list path with fault | tree
  · refine absurd ⟨⟨node?, hfound⟩, fun tree htree => ?_⟩ unreached
    rw [hlist] at htree
    cases htree
  · rw [FileSystem.find?_of_list hlist] at hfound
    cases hfound
    cases hfits : (path.child ruleFileName).fits with
    | true =>
      refine absurd ⟨⟨_, FileSystem.find?_of_list hlist⟩, fun _ _ => hfits⟩ unreached
    | false =>
      refine ⟨.rules (.access (path.child ruleFileName) .nameTooLong), ?_, nofun⟩
      simp only [ofDirectory, scanDirectory, Walk.ofRoot_of_not_fits hlist hfits]
      rfl

/-! ### Paths in order -/

/-- The paths before the first that stops a run. -/
def before (fs : FileSystem) (paths : List Path) : List Path :=
  paths.takeWhile fun path => fs.stop? path = none

theorem before_cons (path : Path) (paths : List Path) :
    before fs (path :: paths) = if fs.stop? path = none then path :: before fs paths else [] := by
  rw [before, List.takeWhile_cons]
  simp only [decide_eq_true_iff, before]

theorem Collection.ending_ofPaths (ordered : fs.root.Ordered) (verbose : Bool) {paths : List Path}
    (compiles : ∀ path ∈ paths, ∀ tree, fs.list path = .ok tree → tree.Compiles)
    (reached : ∀ path ∈ before fs paths, fs.Reached path) :
    (ofPaths fs verbose paths).2.map PathFault.ending =
      (paths.findSome? fs.stop?).map Ending.exit := by
  induction paths with
  | nil => rfl
  | cons path paths ih =>
    obtain ⟨hpath, hpaths⟩ := List.forall_mem_cons.mp compiles
    rw [before_cons] at reached
    rw [List.findSome?_cons]
    rcases hstop : fs.stop? path with _ | code
    · rw [if_pos hstop] at reached
      obtain ⟨hhere, hlater⟩ := List.forall_mem_cons.mp reached
      have hnone := ending_ofPath ordered verbose hhere hpath
      rw [hstop, Option.map_none, Option.map_eq_none_iff] at hnone
      rw [fault_ofPaths_cons, hnone, Option.none_or]
      exact ih hpaths hlater
    · have hending := ending_ofPath ordered verbose (.of_stop? hstop) hpath
      rw [hstop] at hending
      obtain ⟨fault, hfault, hcode⟩ := Option.map_eq_some_iff.mp hending
      rw [fault_ofPaths_cons, hfault, Option.some_or, Option.map_some, hcode]
      rfl

theorem Collection.breaks_ofPaths (ordered : fs.root.Ordered) (verbose : Bool) {paths : List Path}
    (compiles : ∀ path ∈ paths, ∀ tree, fs.list path = .ok tree → tree.Compiles)
    (unreached : ∃ path ∈ before fs paths, ¬fs.Reached path) :
    ∃ fault, (ofPaths fs verbose paths).2 = some fault ∧ ∀ code, fault.ending ≠ .exit code := by
  induction paths with
  | nil =>
    obtain ⟨path, hpath, -⟩ := unreached
    cases hpath
  | cons path paths ih =>
    obtain ⟨hpath, hpaths⟩ := List.forall_mem_cons.mp compiles
    rw [before_cons] at unreached
    rcases hstop : fs.stop? path with _ | code
    · rw [if_pos hstop] at unreached
      by_cases hhere : fs.Reached path
      · have hnone := ending_ofPath ordered verbose hhere hpath
        rw [hstop, Option.map_none, Option.map_eq_none_iff] at hnone
        rw [fault_ofPaths_cons, hnone, Option.none_or]
        apply ih hpaths
        obtain ⟨other, hother, hunreached⟩ := unreached
        rcases List.mem_cons.mp hother with rfl | hmem
        · exact absurd hhere hunreached
        · exact ⟨other, hmem, hunreached⟩
      · obtain ⟨fault, hfault, hcode⟩ := breaks_ofPath verbose hhere
        exact ⟨fault, by rw [fault_ofPaths_cons, hfault, Option.some_or], hcode⟩
    · rw [if_neg (by simp [hstop])] at unreached
      obtain ⟨other, hother, -⟩ := unreached
      cases hother

/-! ### Runs -/

theorem Run.ending_scan (fs : FileSystem) (o : Options) (format : ReportFormat) (paths : List Path) :
    (scan fs o format paths).ending =
      ((Collection.ofPaths fs o.verbose paths).2.map PathFault.ending).getD (.exit 0) := by
  unfold scan
  rcases Collection.ofPaths fs o.verbose paths with ⟨found, _ | fault⟩ <;> rfl

theorem Run.silent_scan {o : Options} {format : ReportFormat} {paths : List Path}
    (h : (scan fs o format paths).ending ≠ .exit 0) :
    (scan fs o format paths).output = [] ∧ (scan fs o format paths).console = [] := by
  unfold scan at h ⊢
  rcases hfound : Collection.ofPaths fs o.verbose paths with ⟨found, _ | fault⟩
  · rw [hfound] at h
    exact absurd rfl h
  · exact ⟨rfl, rfl⟩

def formatNames : List Text := ["text".toList, "rich".toList, "json".toList]

theorem ReportFormat.ofName?_eq_none_iff {name : Text} :
    ofName? name = none ↔ name ∉ formatNames := by
  simp [ofName?, formatNames, List.lookup_eq_none_iff]

section Options

variable {o : Options} {page : Text} (hhelp : o.help = false) (hversion : o.version = false)
include hhelp hversion

theorem Run.ofOptions_of_nil (hpaths : o.paths = []) :
    ofOptions fs o page = failed 1 usageText := by
  rw [ofOptions, if_neg (by simp [hhelp]), if_neg (by simp [hversion]), hpaths]

theorem Run.ofOptions_of_paths (hpaths : o.paths ≠ []) :
    ofOptions fs o page =
      match ReportFormat.ofName? o.format with
      | none => failed 1 ("Error: Unknown format: ".toList ++ o.format)
      | some format => scan fs o format (o.paths.map .read) := by
  obtain ⟨arg, args, hcons⟩ := List.exists_cons_of_ne_nil hpaths
  rw [ofOptions, if_neg (by simp [hhelp]), if_neg (by simp [hversion]), hcons]
  cases ReportFormat.ofName? o.format <;> rfl

end Options

/-- A run with paths and a known format scans; any other ends with exit code 1 and reports nothing. -/
theorem Run.ofOptions_cases (fs : FileSystem) {o : Options} (page : Text) (hhelp : o.help = false)
    (hversion : o.version = false) :
    (o.paths ≠ [] ∧ ∃ format, ReportFormat.ofName? o.format = some format ∧
        ofOptions fs o page = scan fs o format (o.paths.map .read)) ∨
      ((o.paths = [] ∨ o.format ∉ formatNames) ∧
        ∃ line, ofOptions fs o page = failed 1 line) := by
  by_cases hpaths : o.paths = []
  · exact .inr ⟨.inl hpaths, _, ofOptions_of_nil hhelp hversion hpaths⟩
  rw [ofOptions_of_paths hhelp hversion hpaths]
  rcases hformat : ReportFormat.ofName? o.format with _ | format
  · exact .inr ⟨.inr (ReportFormat.ofName?_eq_none_iff.mp hformat), _, rfl⟩
  · exact .inl ⟨hpaths, format, rfl, rfl⟩

/-- The exit code is 1 without a path or with an unknown format. Else the first path that stops the run
decides, if those before it can be looked up, and there is no exit code if one of them cannot. What
does not end with 0 reports nothing. All this supposes of a console report that the console can draw
it. -/
theorem ofArguments_decided (fs : FileSystem) (args : List Text) (page : Text) (o : Options)
    (c : Report.Console) (ordered : fs.root.Ordered) (hread : Options.read args = .ok o)
    (hhelp : o.help = false) (hversion : o.version = false)
    (compiles : ∀ arg ∈ o.paths, ∀ tree, fs.list (.read arg) = .ok tree → tree.Compiles)
    (drawn : o.format = "rich".toList → (Run.ofArguments fs args page).DrawnBy c) :
    let run := Run.ofArguments fs args page
    let paths := o.paths.map Path.read
    (o.paths = [] ∨ o.format ∉ formatNames → run.endsAt c = some (.exit 1)) ∧
      (o.paths ≠ [] → o.format ∈ formatNames →
        ((∀ path ∈ before fs paths, fs.Reached path) →
          run.endsAt c = some (.exit ((paths.findSome? fs.stop?).getD 0)) ∧
            (run.endsAt c = some (.exit 0) ↔ ∀ path ∈ paths, fs.stop? path = none)) ∧
        ((∃ path ∈ before fs paths, ¬fs.Reached path) →
          ∀ code, run.endsAt c ≠ some (.exit code))) ∧
      (run.endsAt c ≠ some (.exit 0) → run.output = [] ∧ run.console = []) := by
  intro run paths
  have hrun : run = Run.ofOptions fs o page := by
    show Run.ofArguments fs args page = _
    rw [Run.ofArguments, hread]
  have hends (code : Nat) : run.endsAt c = some (.exit code) ↔ run.ending = .exit code := by
    have hdrawn : run.DrawnBy c := by
      rw [hrun]
      exact Run.drawnBy_ofOptions fun hformat => hrun ▸ drawn hformat
    rw [Run.endsAt_eq hdrawn]
    exact Option.some_inj
  simp only [ne_eq, hends]
  rcases Run.ofOptions_cases fs page hhelp hversion with
    ⟨hpaths, format, hformat, hscan⟩ | ⟨hunusable, line, hfailed⟩
  · rw [hscan] at hrun
    have hcompiles : ∀ path ∈ paths, ∀ tree, fs.list path = .ok tree → tree.Compiles := by
      intro path hpath
      obtain ⟨arg, harg, rfl⟩ := List.mem_map.mp hpath
      exact compiles arg harg
    rw [hrun, Run.ending_scan]
    refine ⟨fun h => ?_, fun _ _ => ⟨fun reached => ?_, fun unreached code => ?_⟩, ?_⟩
    · rcases h with h | h
      · exact absurd h hpaths
      · rw [ReportFormat.ofName?_eq_none_iff.mpr h] at hformat
        cases hformat
    · rw [Collection.ending_ofPaths ordered o.verbose hcompiles reached]
      rcases hstop : paths.findSome? fs.stop? with _ | code
      · exact ⟨rfl, fun _ => List.findSome?_eq_none_iff.mp hstop, fun _ => rfl⟩
      · refine ⟨rfl, fun hzero => ?_, fun hnone => ?_⟩
        · obtain ⟨path, -, hcode⟩ := List.exists_of_findSome?_eq_some hstop
          cases hzero
          exact absurd rfl (FileSystem.ne_zero_of_stop? hcode)
        · rw [List.findSome?_eq_none_iff.mpr hnone] at hstop
          cases hstop
    · obtain ⟨fault, hfault, hcode⟩ :=
        Collection.breaks_ofPaths ordered o.verbose hcompiles unreached
      rw [hfault]
      exact hcode code
    · rw [← Run.ending_scan fs o format paths]
      exact Run.silent_scan
  · rw [hrun, hfailed]
    refine ⟨fun _ => rfl, fun hpaths hformat => ?_, fun _ => ⟨rfl, rfl⟩⟩
    rcases hunusable with h | h
    · exact absurd h hpaths
    · exact absurd hformat h

def spoiled : FileSystem :=
  ⟨.file "bad.js".toList [0xFF]
    (.directory "src".toList
      (.file "app.js".toList (Utf8.encode "'fetch logs'".toList)
        (.file "bad.js".toList [0xFF] .nil)) .nil), []⟩

theorem ofArguments_decided_spoiled :
    let args := ["-f".toList, "rich".toList, "/src".toList, "/bad.js".toList, "/gone".toList]
    let o : Options :=
      { paths := ["/src".toList, "/bad.js".toList, "/gone".toList], format := "rich".toList }
    let run := Run.ofArguments spoiled args
    spoiled.root.Ordered ∧ Options.read args = .ok o ∧
      (∀ arg ∈ o.paths, ∀ tree, spoiled.list (.read arg) = .ok tree → tree.Compiles) ∧
      run.DrawnBy .bare ∧ (∀ path ∈ before spoiled (o.paths.map Path.read), spoiled.Reached path) ∧
      run.endsAt .bare = some (.exit 3) ∧ run.output = [] ∧ run.console = [] := by
  intro args o run
  have ordered : spoiled.root.Ordered := by decide
  have hread : Options.read args = .ok o := by decide
  have compiles : ∀ arg ∈ o.paths, ∀ tree, spoiled.list (.read arg) = .ok tree → tree.Compiles := by
    intro arg harg tree htree
    simp only [o, List.mem_cons, List.not_mem_nil, or_false] at harg
    obtain rfl | rfl | rfl := harg
    · have hsrc : tree = .file "app.js".toList (Utf8.encode "'fetch logs'".toList)
          (.file "bad.js".toList [0xFF] .nil) := by
        cases htree
        rfl
      rw [hsrc]
      exact Listing.compiles_of_all (by decide) (by decide +kernel)
    · cases htree
    · cases htree
  have reached : ∀ path ∈ before spoiled (o.paths.map Path.read), spoiled.Reached path := by
    have hbefore : before spoiled (o.paths.map Path.read) = [.read "/src".toList] := by
      decide +kernel
    rw [hbefore]
    simp only [List.mem_singleton, forall_eq]
    exact ⟨⟨_, rfl⟩, fun _ _ => by decide⟩
  have drawn : run.DrawnBy .bare := by rfl
  obtain ⟨-, hscan, hsilent⟩ :=
    ofArguments_decided spoiled args [] o .bare ordered hread rfl rfl compiles fun _ => drawn
  have hstop : (o.paths.map Path.read).findSome? spoiled.stop? = some 3 := by decide +kernel
  have hdecided : run.endsAt .bare = some (.exit 3) := by
    have hending := ((hscan (by decide) (by decide)).1 reached).1
    rwa [hstop] at hending
  have hfails : run.endsAt .bare ≠ some (.exit 0) := by
    rw [hdecided]
    nofun
  exact ⟨ordered, hread, compiles, drawn, reached, hdecided, hsilent hfails⟩

theorem Run.ending_of_access {args : List Text} {arg : Text} {paths : List Text}
    {fault : AccessFault} (hread : Options.read args = .ok { paths := arg :: paths })
    (h : fs.find? (.read arg) = .error fault) :
    (ofArguments fs args).ending = .access (.read arg) fault := by
  rw [ofArguments, hread]
  show (scan fs { paths := arg :: paths } .text (.read arg :: paths.map Path.read)).ending = _
  rw [ending_scan, Collection.fault_ofPaths_cons, Collection.ofPath, h]
  rfl

/-- Nothing stands at a path that is too long, but a run that comes to one ends without an exit
code. -/
theorem ofArguments_long :
    let fs : FileSystem := ⟨.nil, []⟩
    let arg : Text := List.replicate 256 'n'
    let path : Path := .read arg
    Options.read [arg] = .ok { paths := [arg] } ∧ fs.root.at? [arg] = none ∧
      (Run.ofArguments fs [arg]).ending = .access path .nameTooLong ∧
      (Run.ofArguments fs [arg]).ending ≠ .exit 2 := by
  intro fs arg path
  have hread : Options.read [arg] = .ok { paths := [arg] } := by decide +kernel
  have hproper : arg ≠ Path.parent := by decide
  have hlong : Path.nameFits arg = false := by decide +kernel
  have hparts : fs.absolute path = [arg] := by decide +kernel
  have hending := Run.ending_of_access hread (FileSystem.find?_of_long hparts hproper hlong)
  refine ⟨hread, rfl, hending, ?_⟩
  rw [hending]
  nofun

end CommandLine

end DqlScan
