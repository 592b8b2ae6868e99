import DqlScan.CommandLine.Run
import DqlScan.Proofs.CommandLine.Collection
import DqlScan.Proofs.Scan.Unread

/-!
# Endings of runs

Where all rule files compile, no path is too long and the console can draw what it is given, a run ends
with an exit code, and a scan comes to its end with at most one warning for each rule file
(`ofArguments_exits`). A line that cannot be compiled breaks off both.
-/

namespace DqlScan

open Ignore

/-! ### Runs that come to their end -/

/-- A path can be looked up. If it leads to a directory, so can the rule file in it, and all rule
files below compile. -/
structure FileSystem.Scannable (fs : FileSystem) (path : Path) : Prop where
  found : ∃ node?, fs.find? path = .ok node?
  ruleFile : ∀ tree, fs.list path = .ok tree → (path.child ruleFileName).fits = true
  compiles : ∀ tree, fs.list path = .ok tree → tree.Compiles

namespace FileSystem

variable {fs : FileSystem} {path : Path}

theorem list_of_find? {tree : Listing} (h : fs.find? path = .ok (some (.directory tree))) :
    fs.list path = .ok tree := by
  unfold find? at h
  unfold list
  rcases hnode : fs.node path with fault | node <;> rw [hnode] at h
  · cases fault <;> cases h
  · cases h
    rfl

theorem Scannable.fault_eq_none (ordered : fs.root.Ordered) (scannable : fs.Scannable path)
    {tree : Listing} (htree : fs.list path = .ok tree) (suffixes : Option (List Text)) :
    (scanDirectory fs path suffixes).fault = none := by
  have compiles : tree.Compiles := scannable.compiles tree htree
  obtain ⟨rules, hrules⟩ := compiles [] tree rfl
  obtain ⟨f, hending⟩ := Walk.ofRoot_completes ((suffixes.getD Language.suffixes).map Text.lower)
    htree (scannable.ruleFile tree htree) hrules (compiles.nodes (ordered_list ordered htree))
  exact DirectoryScan.fault_ofWalk_eq_none.mpr ⟨f, hending⟩

end FileSystem

namespace CommandLine

def PathFault.Exits (fault : PathFault) : Prop := fault = .notFound ∨ fault = .unreadable

theorem PathFault.Exits.ending {fault : PathFault} (h : fault.Exits) :
    ∃ code ≤ 3, fault.ending = .exit code := by
  rcases h with rfl | rfl
  · exact ⟨2, by omega, rfl⟩
  · exact ⟨3, by omega, rfl⟩

variable {fs : FileSystem}

theorem Collection.exits_ofPath (ordered : fs.root.Ordered) (verbose : Bool) {path : Path}
    (scannable : fs.Scannable path) :
    ∀ fault, (ofPath fs verbose path).2 = some fault → fault.Exits := by
  intro fault h
  obtain ⟨node?, hfound⟩ := scannable.found
  unfold ofPath at h
  rw [hfound] at h
  rcases node? with _ | node
  · cases h
    exact .inl rfl
  cases node with
  | directory tree =>
    have hnone := scannable.fault_eq_none ordered (FileSystem.list_of_find? hfound) none
    simp only [ofDirectory, hnone] at h
    cases h
  | file content =>
    dsimp only [ofFile] at h
    split at h <;> cases h
    exact .inr rfl

theorem Collection.exits_ofPaths (ordered : fs.root.Ordered) (verbose : Bool) {paths : List Path}
    (scannable : ∀ path ∈ paths, fs.Scannable path) :
    ∀ fault, (ofPaths fs verbose paths).2 = some fault → fault.Exits := by
  intro fault h
  induction paths with
  | nil => cases h
  | cons path paths ih =>
    obtain ⟨hpath, hpaths⟩ := List.forall_mem_cons.mp scannable
    rw [fault_ofPaths_cons, Option.or_eq_some_iff] at h
    rcases h with h | ⟨-, h⟩
    · exact exits_ofPath ordered verbose hpath fault h
    · exact ih hpaths h

theorem Run.exits_scan (ordered : fs.root.Ordered) (o : Options) (format : ReportFormat)
    {paths : List Path} (scannable : ∀ path ∈ paths, fs.Scannable path) :
    ∃ code ≤ 3, (scan fs o format paths).ending = .exit code := by
  have hexits := Collection.exits_ofPaths ordered o.verbose scannable
  unfold scan
  rcases hcollected : Collection.ofPaths fs o.verbose paths with ⟨found, _ | fault⟩
  · exact ⟨0, by omega, rfl⟩
  · exact (hexits fault (by rw [hcollected])).ending

theorem Run.exits_ofOptions (ordered : fs.root.Ordered) (o : Options) (page : Text)
    (scannable : ∀ arg ∈ o.paths, fs.Scannable (.read arg)) :
    ∃ code ≤ 3, (ofOptions fs o page).ending = .exit code := by
  unfold ofOptions
  split
  · exact ⟨0, by omega, rfl⟩
  split
  · exact ⟨0, by omega, rfl⟩
  split
  · exact ⟨1, by omega, rfl⟩
  · exact ⟨1, by omega, rfl⟩
  · refine exits_scan ordered o _ fun path hpath => ?_
    obtain ⟨arg, harg, rfl⟩ := List.mem_map.mp hpath
    exact scannable arg harg

/-! ### Runs at a console -/

def ReportFormat.name : ReportFormat → Text
  | .text => "text".toList
  | .console => "rich".toList
  | .json => "json".toList

theorem ReportFormat.ofName?_eq_some_iff {name : Text} {format : ReportFormat} :
    ofName? name = some format ↔ name = format.name := by
  constructor
  · intro h
    obtain ⟨before, after, hsplit, -⟩ := List.lookup_eq_some_iff.mp h
    have hmem : (name, format) ∈ before ++ (name, format) :: after := by simp
    rw [← hsplit] at hmem
    cases format <;> simpa [ReportFormat.name] using hmem
  · rintro rfl
    cases format <;> rfl

namespace Run

variable {o : Options} {page : Text} {run : Run} {c : Report.Console}

theorem endsAt_eq (h : run.DrawnBy c) : run.endsAt c = some run.ending := by
  obtain ⟨drawn, hdrawn⟩ := Option.isSome_iff_exists.mp h
  rw [endsAt, hdrawn]
  rfl

theorem blocks_scan {format : ReportFormat} (h : format ≠ .console) (paths : List Path) :
    (scan fs o format paths).blocks = [] := by
  unfold scan
  rcases Collection.ofPaths fs o.verbose paths with ⟨found, _ | fault⟩
  · cases format with
    | console => exact absurd rfl h
    | _ => rfl
  · rfl

theorem blocks_ofOptions (h : o.format ≠ ReportFormat.console.name) :
    (ofOptions fs o page).blocks = [] := by
  unfold ofOptions
  split
  · rfl
  split
  · rfl
  rcases hname : ReportFormat.ofName? o.format with _ | format
  · cases o.paths <;> rfl
  cases o.paths with
  | nil => rfl
  | cons arg args =>
    refine blocks_scan ?_ _
    rintro rfl
    exact h (ReportFormat.ofName?_eq_some_iff.mp hname)

/-- Only a run that is asked for a console report depends on what its console can draw. -/
theorem drawnBy_ofOptions
    (h : o.format = ReportFormat.console.name → (ofOptions fs o page).DrawnBy c) :
    (ofOptions fs o page).DrawnBy c := by
  by_cases hformat : o.format = ReportFormat.console.name
  · exact h hformat
  · rw [DrawnBy, blocks_ofOptions hformat]
    rfl

end Run

/-- Where the paths of a command line can be scanned, and the console can draw the report if one is asked
for, the run ends with an exit code, whatever its options ask for. A scan of such a directory comes to
its end, and a rule file that cannot be read is worth one warning. -/
theorem ofArguments_exits (fs : FileSystem) (ordered : fs.root.Ordered) :
    (∀ args page o c, Options.read args = .ok o → (∀ arg ∈ o.paths, fs.Scannable (.read arg)) →
      (o.format = "rich".toList → (Run.ofArguments fs args page).DrawnBy c) →
      ∃ code ≤ 3, (Run.ofArguments fs args page).endsAt c = some (.exit code)) ∧
    ∀ path tree suffixes, fs.list path = .ok tree → fs.Scannable path →
      (scanDirectory fs path suffixes).fault = none ∧
        ((scanDirectory fs path suffixes).notices.filterMap (·.ruleFile?)).Nodup := by
  constructor
  · intro args page o c hread scannable
    have hrun : Run.ofArguments fs args page = Run.ofOptions fs o page := by
      rw [Run.ofArguments, hread]
    rw [hrun]
    intro hdrawn
    obtain ⟨code, hle, hending⟩ := Run.exits_ofOptions ordered o page scannable
    exact ⟨code, hle, by rw [Run.endsAt_eq (Run.drawnBy_ofOptions hdrawn), hending]⟩
  · intro path tree suffixes htree scannable
    refine ⟨scannable.fault_eq_none ordered htree suffixes, ?_⟩
    rw [scanDirectory, DirectoryScan.unread_ofWalk]
    exact Walk.unread_ofRoot ordered

/-- A directory with a file next to a directory that has a rule file with the given content. -/
def ruled (content : Bytes) : FileSystem :=
  ⟨.directory "src".toList
    (.file "app.js".toList (Utf8.encode "'fetch logs'".toList)
      (.directory "sub".toList (.file ruleFileName content .nil) .nil)) .nil, []⟩

theorem ofArguments_exits_unreadable :
    let fs := ruled [0xFF]
    let args := ["-f".toList, "rich".toList, "/src".toList]
    let o : Options := { paths := ["/src".toList], format := "rich".toList }
    let run := Run.ofArguments fs args
    fs.root.Ordered ∧ Options.read args = .ok o ∧ fs.Scannable (.read "/src".toList) ∧
      run.DrawnBy .bare ∧ run.blocks.length = 5 ∧
      (∃ code ≤ 3, run.endsAt .bare = some (.exit code)) ∧
      (scanDirectory fs (.read "/src".toList) none).fault = none ∧
        ((scanDirectory fs (.read "/src".toList) none).notices.filterMap (·.ruleFile?)).Nodup := by
  intro fs args o run
  have ordered : fs.root.Ordered := by decide
  have hread : Options.read args = .ok o := by decide
  have hdrawn : run.DrawnBy .bare := by rfl
  have htree : ∃ tree, fs.list (.read "/src".toList) = .ok tree ∧ tree.Compiles := by
    refine ⟨_, rfl, ?_⟩
    exact Listing.compiles_of_all (by decide) (by decide +kernel)
  obtain ⟨tree, htree, compiles⟩ := htree
  have scannable : fs.Scannable (.read "/src".toList) := by
    refine ⟨⟨_, rfl⟩, fun _ _ => by decide, fun other hother => ?_⟩
    rw [htree] at hother
    cases hother
    exact compiles
  obtain ⟨hruns, hscans⟩ := ofArguments_exits fs ordered
  exact ⟨ordered, hread, scannable, hdrawn, by rfl,
    hruns args [] o .bare hread (by simpa [o] using scannable) fun _ => hdrawn,
    hscans _ tree none htree scannable⟩

/-- A rule file whose only line is an exclamation mark breaks off the scan and ends the run. -/
theorem ofArguments_breaks :
    let fs := ruled (Utf8.encode "!\n".toList)
    let fault : LoadFault := .rule (.invalidPattern "!\n".toList)
    Options.read ["/src".toList] = .ok { paths := ["/src".toList] } ∧
      (∃ tree, fs.list (.read "/src".toList) = .ok tree) ∧
      (scanDirectory fs (.read "/src".toList) none).fault = some fault ∧
      (Run.ofArguments fs ["/src".toList]).ending = .rules fault := by
  intro fs fault
  exact ⟨by decide, ⟨_, rfl⟩, by rfl, by rfl⟩

end CommandLine

end DqlScan
