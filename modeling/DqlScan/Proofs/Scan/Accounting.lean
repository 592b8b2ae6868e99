import Mathlib.Data.List.Nodup
import DqlScan.Proofs.Scan.Rewriting
import DqlScan.Proofs.Scan.Selection

/-!
# Accounts of scans

A scan that comes to its end accounts for each file of its walk once, as scanned or as unreadable,
and what it does with one file does not touch another, unless the file is a rule file
(`scanDirectory_accounts`).
-/

namespace DqlScan

open Ignore

/-! ### Two groups of files -/

def decoded? (file : List Text × Bytes) : Option (List Text × Text) :=
  match Utf8.decode file.2 with
  | .ok text => some (file.1, text)
  | .error _ => none

def undecoded? (file : List Text × Bytes) : Option (List Text × Utf8.Fault) :=
  match Utf8.decode file.2 with
  | .ok _ => none
  | .error fault => some (file.1, fault)

theorem decoded?_eq_some {file : List Text × Bytes} {read : List Text × Text} :
    decoded? file = some read ↔ file.1 = read.1 ∧ Utf8.decode file.2 = .ok read.2 := by
  unfold decoded?
  rcases Utf8.decode file.2 with fault | text <;> simp [Prod.ext_iff]

section Groups

variable {α : Type} {files : List (List Text × Bytes)} {take : List Text × Bytes → List α}

/-- What is taken only from the files that are UTF-8 is taken from their texts. -/
theorem flatMap_decoded {taken : List Text × Text → List α}
    (ok : ∀ parts content text, Utf8.decode content = .ok text →
      take (parts, content) = taken (parts, text))
    (error : ∀ parts content fault, Utf8.decode content = .error fault →
      take (parts, content) = []) :
    files.flatMap take = (files.filterMap decoded?).flatMap taken := by
  induction files with
  | nil => rfl
  | cons file files ih =>
    rw [List.flatMap_cons, List.filterMap_cons, ih, decoded?]
    rcases hdecode : Utf8.decode file.2 with fault | text
    · rw [error _ _ _ hdecode, List.nil_append]
    · rw [ok _ _ _ hdecode, List.flatMap_cons]

theorem flatMap_undecoded {taken : List Text × Utf8.Fault → List α}
    (ok : ∀ parts content text, Utf8.decode content = .ok text → take (parts, content) = [])
    (error : ∀ parts content fault, Utf8.decode content = .error fault →
      take (parts, content) = taken (parts, fault)) :
    files.flatMap take = (files.filterMap undecoded?).flatMap taken := by
  induction files with
  | nil => rfl
  | cons file files ih =>
    rw [List.flatMap_cons, List.filterMap_cons, ih, undecoded?]
    rcases hdecode : Utf8.decode file.2 with fault | text
    · rw [error _ _ _ hdecode, List.flatMap_cons]
    · rw [ok _ _ _ hdecode, List.nil_append]

theorem mem_decoded {parts : List Text} :
    parts ∈ (files.filterMap decoded?).map (·.1) ↔
      ∃ content text, (parts, content) ∈ files ∧ Utf8.decode content = .ok text := by
  simp only [List.mem_map, List.mem_filterMap]
  constructor
  · intro h
    obtain ⟨_, ⟨file, hfile, hdecoded⟩, rfl⟩ := h
    obtain ⟨hparts, hdecode⟩ := decoded?_eq_some.mp hdecoded
    exact ⟨file.2, _, hparts ▸ hfile, hdecode⟩
  · intro h
    obtain ⟨content, text, hfile, hdecode⟩ := h
    exact ⟨(parts, text), ⟨(parts, content), hfile, by simp [decoded?, hdecode]⟩, rfl⟩

theorem mem_undecoded {parts : List Text} :
    parts ∈ (files.filterMap undecoded?).map (·.1) ↔
      ∃ content fault, (parts, content) ∈ files ∧ Utf8.decode content = .error fault := by
  simp only [List.mem_map, List.mem_filterMap]
  constructor
  · intro h
    obtain ⟨_, ⟨file, hfile, hundecoded⟩, rfl⟩ := h
    unfold undecoded? at hundecoded
    split at hundecoded <;> cases hundecoded
    exact ⟨file.2, _, hfile, ‹_›⟩
  · intro h
    obtain ⟨content, fault, hfile, hdecode⟩ := h
    exact ⟨(parts, fault), ⟨(parts, content), hfile, by simp [undecoded?, hdecode]⟩, rfl⟩

/-- Where no two files have the same place, each is in one group and not in the other. -/
theorem mem_decoded_iff (nodup : (files.map Prod.fst).Nodup) {file : List Text × Bytes}
    (hfile : file ∈ files) :
    file.1 ∈ (files.filterMap decoded?).map (·.1) ↔
      file.1 ∉ (files.filterMap undecoded?).map (·.1) := by
  have hcontent : ∀ content, (file.1, content) ∈ files → content = file.2 := by
    intro content hmem
    exact congrArg Prod.snd (List.inj_on_of_nodup_map nodup hmem hfile rfl)
  rw [mem_decoded, mem_undecoded]
  constructor
  · rintro ⟨content, text, hmem, hdecode⟩ ⟨other, fault, hother, hfault⟩
    rw [hcontent content hmem] at hdecode
    rw [hcontent other hother, hdecode] at hfault
    cases hfault
  · intro hnone
    rcases hdecode : Utf8.decode file.2 with fault | text
    · exact absurd ⟨file.2, fault, hfile, hdecode⟩ hnone
    · exact ⟨file.2, text, hfile, hdecode⟩

end Groups

/-! ### Warnings about files -/

/-- The file that a notice says could not be read, and what is wrong with it. -/
def Notice.unreadFile? : Notice → Option (Text × Utf8.Fault)
  | .unreadFile file fault => some (file, fault)
  | .unterminated _ | .unlisted .. | .unreadRules .. => none

namespace Ignore.PathFilter

variable {notices : List Notice}

theorem unreadFile?_load {f g : PathFilter} {directory : Path} {ruleFile : Option Node}
    (h : f.load directory ruleFile = .ok (g, notices)) : ∀ n ∈ notices, n.unreadFile? = none := by
  unfold load at h
  split at h
  · split at h
    · split at h
      · cases h
        simp [Notice.unreadFile?]
      · split at h
        · cases h
        · split at h <;> cases h
          simp
    · cases h
      simp
  · cases h
    simp

theorem unreadFile?_ofRoot {root : Path} {nested : Bool} {ruleFile : Option Node} {f : PathFilter}
    (h : ofRoot root nested ruleFile = .ok (f, notices)) : ∀ n ∈ notices, n.unreadFile? = none := by
  unfold ofRoot at h
  split at h
  · cases h
    simp
  · split at h
    · cases h
      simp [Notice.unreadFile?]
    · next lines _ =>
      rcases hrules : Rule.ofLines lines with fault | rules <;> rw [hrules] at h <;> cases h
      simp

theorem unreadFile?_ofDirectory {fs : FileSystem} {root : Path} {nested : Bool} {f : PathFilter}
    (h : ofDirectory fs root nested = .ok (f, notices)) : ∀ n ∈ notices, n.unreadFile? = none := by
  unfold ofDirectory at h
  rcases hfile : ruleFile fs root with fault | file <;> rw [hfile] at h
  · cases h
  dsimp only at h
  rcases hloaded : ofRoot root nested file with fault | loaded <;> rw [hloaded] at h <;> cases h
  exact unreadFile?_ofRoot hloaded

end Ignore.PathFilter

namespace Walk

def LeavesFiles (w : Walk) : Prop := ∀ n, Visit.notice n ∈ w.visits → n.unreadFile? = none

theorem LeavesFiles.of_notices {notices : List Notice} (h : ∀ n ∈ notices, n.unreadFile? = none)
    (ending : Except LoadFault PathFilter) : (Walk.mk (notices.map .notice) ending).LeavesFiles := by
  intro n hn
  obtain ⟨m, hm, heq⟩ := List.mem_map.mp hn
  cases heq
  exact h n hm

theorem LeavesFiles.andThen {w : Walk} {next : PathFilter → Walk} (h : w.LeavesFiles)
    (hnext : ∀ f, w.ending = .ok f → (next f).LeavesFiles) : (w.andThen next).LeavesFiles := by
  unfold Walk.andThen
  rcases hending : w.ending with fault | f
  · exact h
  · intro n hn
    rcases List.mem_append.mp hn with hn | hn
    · exact h n hn
    · exact hnext f hending n hn

theorem leavesFiles_enter (f : PathFilter) (parts : List Text) (entries : Listing) :
    (enter f parts entries).LeavesFiles := by
  unfold enter
  rcases hload : f.load (f.root.extend parts) (entries.find? ruleFileName) with fault | ⟨g, notices⟩
  · exact nofun
  · exact .of_notices (PathFilter.unreadFile?_load hload) _

theorem leavesFiles_through (wanted parts : List Text) (f : PathFilter) (l : Listing) :
    (through wanted parts f l).LeavesFiles := by
  induction l generalizing parts f with
  | nil => exact nofun
  | file name content rest ih =>
    rw [through]
    intro n hn
    rcases List.mem_append.mp hn with hn | hn
    · split at hn <;> simp at hn
    · exact ih parts f n hn
  | directory name entries rest below ih =>
    rw [through]
    split
    · refine .andThen (.andThen (leavesFiles_enter f _ entries) fun g _ => below _ g) fun g _ => ?_
      exact ih parts g
    · exact ih parts f

theorem leavesFiles_ofRoot (fs : FileSystem) (root : Path) (wanted : List Text) :
    (ofRoot fs root wanted).LeavesFiles := by
  unfold ofRoot
  rcases hfilter : PathFilter.ofDirectory fs root true with fault | ⟨f, notices⟩
  · exact nofun
  · refine .andThen (.of_notices (PathFilter.unreadFile?_ofDirectory hfilter) _) fun g _ => ?_
    unfold ofFilter
    rcases fs.list g.root with fault | tree
    · intro n hn
      cases List.mem_singleton.mp hn
      rfl
    · exact leavesFiles_through wanted [] g tree

/-! ### Files of a walk -/

variable {fs : FileSystem} {root : Path} {wanted : List Text}

theorem files_ofRoot_of_list_error {fault : AccessFault} (h : fs.list root = .error fault) :
    (ofRoot fs root wanted).files = [] := by
  unfold ofRoot
  rcases hfilter : PathFilter.ofDirectory fs root true with other | ⟨f, notices⟩
  · rfl
  dsimp only
  rw [files_andThen rfl, files_notices, ofFilter, PathFilter.root_ofDirectory hfilter, h]
  rfl

theorem pairwise_files_ofRoot (ordered : fs.root.Ordered) {f : PathFilter}
    (h : (ofRoot fs root wanted).ending = .ok f) :
    (ofRoot fs root wanted).files.Pairwise fun a b => a.1 < b.1 := by
  rcases htree : fs.list root with fault | tree
  · rw [files_ofRoot_of_list_error htree]
    exact List.Pairwise.nil
  · rw [(ofRoot_trace ordered htree h).2.2]
    exact pairwise_reads (FileSystem.ordered_list ordered htree)

/-- The files of a walk stand where their components lead from the place of the root. -/
theorem at?_of_mem_files_ofRoot (ordered : fs.root.Ordered) {f : PathFilter}
    (h : (ofRoot fs root wanted).ending = .ok f) {parts : List Text} {content : Bytes}
    (hfile : (parts, content) ∈ (ofRoot fs root wanted).files) :
    fs.root.at? (fs.place root ++ parts) = some (.file content) := by
  rcases htree : fs.list root with fault | tree
  · rw [files_ofRoot_of_list_error htree] at hfile
    cases hfile
  · rw [(ofRoot_trace ordered htree h).2.2] at hfile
    have hroot : fs.root.at? (fs.place root) = some (.directory tree) :=
      FileSystem.at?_resolve .root (FileSystem.list_eq_ok.mp htree).2
    rw [Listing.at?_append hroot]
    exact ((mem_reads (FileSystem.ordered_list ordered htree)).mp hfile).1

end Walk

namespace DirectoryScan

/-- What a scan reports of the files of its walk: each is scanned or unreadable, and what is reported
of either kind is in the order of the walk. -/
structure Accounts (s : DirectoryScan) (files : List (List Text × Bytes)) : Prop where
  groups : ∀ file ∈ files, file.1 ∈ (files.filterMap decoded?).map (·.1) ↔
    file.1 ∉ (files.filterMap undecoded?).map (·.1)
  filesScanned : s.result.filesScanned = (files.filterMap decoded?).length
  seen : s.seen = (files.filterMap decoded?).map fun (parts, _) =>
    (Path.joined parts, Language.ofSuffix (Path.suffix (parts.getLast?.getD [])))
  unreadable : s.result.unreadable =
    (files.filterMap undecoded?).map fun (parts, _) => Path.joined parts
  warnings : s.notices.filterMap (·.unreadFile?) =
    (files.filterMap undecoded?).map fun (parts, fault) => (Path.joined parts, fault)
  queries : s.result.queries =
    (files.filterMap decoded?).flatMap fun (parts, text) => findQueries text (Path.joined parts)

/-- Two scans do the same, but for what becomes of one file. -/
def DiffersAt (s t : DirectoryScan) (parts : List Text) (old new : Bytes) : Prop :=
  ∃ before after, s.outcomes = before ++ .ofFile (parts, old) :: after ∧
    t.outcomes = before ++ .ofFile (parts, new) :: after ∧ s.fault = t.fault

variable {w : Walk}

theorem warnings_ofWalk (h : w.LeavesFiles) :
    (ofWalk w).notices.filterMap (·.unreadFile?) =
      (w.files.filterMap undecoded?).map fun (parts, fault) => (Path.joined parts, fault) := by
  obtain ⟨visits, ending⟩ := w
  simp only [notices, ofWalk, Walk.files, List.flatMap_map]
  induction visits with
  | nil => rfl
  | cons visit visits ih =>
    have hrest := ih fun n hn => h n (List.mem_cons_of_mem _ hn)
    rw [List.flatMap_cons, List.filterMap_append, hrest, List.filterMap_cons]
    cases visit with
    | notice n =>
      have hn : n.unreadFile? = none := h n List.mem_cons_self
      simp [Outcome.ofVisit, Outcome.notices, Visit.file?, hn]
    | file parts content =>
      simp only [Outcome.ofVisit, Visit.file?, List.filterMap_cons, undecoded?]
      rcases Utf8.decode content with fault | text
      · rfl
      · show ((Literal.unterminated? text).toList.map Notice.unterminated).filterMap _ ++ _ = _
        rcases Literal.unterminated? text <;> rfl

theorem accounts_ofWalk (leaves : w.LeavesFiles)
    (pairwise : w.files.Pairwise fun a b => a.1 < b.1) : (ofWalk w).Accounts w.files := by
  have hreads : (ofWalk w).reads = w.files.map .ofFile := reads_ofWalk w
  have hseen : (ofWalk w).seen = (w.files.filterMap decoded?).map fun (parts, _) =>
      (Path.joined parts, Language.ofSuffix (Path.suffix (parts.getLast?.getD []))) := by
    rw [seen_of_reads hreads, List.map_eq_flatMap]
    apply flatMap_decoded <;> intro parts content _ hdecode <;>
      simp [Outcome.ofFile, Outcome.ofVisit, hdecode, Outcome.seen?]
  refine ⟨fun file hfile => ?_, ?_, hseen, ?_, warnings_ofWalk leaves, ?_⟩
  · apply mem_decoded_iff _ hfile
    refine List.pairwise_map.mpr (pairwise.imp fun {a b} hlt heq => ?_)
    rw [heq] at hlt
    exact List.lt_irrefl b.1 hlt
  · show ((ofWalk w).seen.length : Int) = _
    rw [hseen, List.length_map]
  · rw [unreadable_of_reads hreads, List.map_eq_flatMap]
    apply flatMap_undecoded <;> intro parts content _ hdecode <;>
      simp [Outcome.ofFile, Outcome.ofVisit, hdecode, Outcome.unreadable?]
  · rw [queries_of_reads hreads]
    apply flatMap_decoded <;> intro parts content _ hdecode <;>
      simp [Outcome.ofFile, Outcome.ofVisit, hdecode, Outcome.queries, Reading.ofContent]

end DirectoryScan

/-! ### One file changed -/

namespace Walk

variable {w : Walk} {g : List Text → Bytes → Bytes}

theorem mapContents_eq_self (h : ∀ file ∈ w.files, g file.1 file.2 = file.2) :
    w.mapContents g = w := by
  obtain ⟨visits, ending⟩ := w
  rw [mapContents, Walk.mk.injEq]
  refine ⟨List.map_congr_left ?_ |>.trans (List.map_id visits), rfl⟩
  intro visit hvisit
  cases visit with
  | notice n => rfl
  | file parts content =>
    have hfile : (parts, content) ∈ (Walk.mk visits ending).files :=
      List.mem_filterMap.mpr ⟨_, hvisit, rfl⟩
    exact congrArg (Visit.file parts) (h _ hfile)

theorem mapContents_rewriteAt {parts : List Text} (new : Bytes)
    (h : ∀ file ∈ w.files, file.1 ≠ parts) : w.mapContents (rewriteAt parts new) = w :=
  mapContents_eq_self fun file hfile => if_neg (h file hfile)

/-- Where a walk visits one file with a new content, all before and after it stays. -/
theorem differsAt_mapContents (pairwise : w.files.Pairwise fun a b => a.1 < b.1) {parts : List Text}
    {old : Bytes} (hfile : (parts, old) ∈ w.files) (new : Bytes) :
    (DirectoryScan.ofWalk w).DiffersAt (.ofWalk (w.mapContents (rewriteAt parts new))) parts old
      new := by
  obtain ⟨visits, ending⟩ := w
  obtain ⟨visit, hvisit, hsome⟩ := List.mem_filterMap.mp hfile
  cases visit with
  | notice n => cases hsome
  | file path content =>
    cases hsome
    obtain ⟨before, after, rfl⟩ := List.append_of_mem hvisit
    simp only [files, List.filterMap_append, List.filterMap_cons, Visit.file?] at pairwise
    obtain ⟨-, hafter, hbefore⟩ := List.pairwise_append.mp pairwise
    have hbeforeSame : (Walk.mk before ending).mapContents (rewriteAt parts new) =
        ⟨before, ending⟩ := by
      refine mapContents_rewriteAt new fun file hmem heq => ?_
      have hlt : file.1 < parts := hbefore file hmem _ List.mem_cons_self
      exact List.lt_irrefl parts (heq ▸ hlt)
    have hafterSame : (Walk.mk after ending).mapContents (rewriteAt parts new) =
        ⟨after, ending⟩ := by
      refine mapContents_rewriteAt new fun file hmem heq => ?_
      have hlt : parts < file.1 := (List.pairwise_cons.mp hafter).1 file hmem
      exact List.lt_irrefl parts (heq ▸ hlt)
    refine ⟨before.map .ofVisit, after.map .ofVisit, ?_, ?_, rfl⟩
    · rw [DirectoryScan.ofWalk, List.map_append]
      rfl
    · rw [DirectoryScan.ofWalk, mapContents]
      dsimp only
      rw [List.map_append, List.map_cons, (Walk.mk.inj hbeforeSame).1, (Walk.mk.inj hafterSame).1,
        List.map_append, List.map_cons, Visit.mapContent, rewriteAt, if_pos rfl]
      rfl

end Walk

def FileSystem.rewrite (fs : FileSystem) (place : List Text) (content : Bytes) : FileSystem :=
  { fs with root := .place (.file content) fs.root place }

theorem scanDirectory_rewrite {fs : FileSystem} (ordered : fs.root.Ordered) {place : List Text}
    {old : Bytes} (hat : fs.root.at? place = some (.file old))
    (hrules : place.getLast? ≠ some ruleFileName) (new : Bytes) (root : Path)
    (suffixes : Option (List Text)) :
    scanDirectory (fs.rewrite place new) root suffixes =
      .ofWalk ((Walk.ofRoot fs root ((suffixes.getD Language.suffixes).map Text.lower)).mapContents
        fun parts => rewriteAt place new (fs.place root ++ parts)) := by
  have keeps : Walk.KeepsRules (rewriteAt place new) := by
    intro parts content
    apply if_neg
    rintro rfl
    exact hrules List.getLast?_concat
  have hfs : fs.rewrite place new = fs.mapContents (rewriteAt place new) := by
    rw [FileSystem.rewrite, Listing.place_eq_mapContents ordered hat]
    rfl
  rw [scanDirectory, hfs, Walk.ofRoot_mapContents keeps]

/-- A scan that is not broken off accounts for the files of its walk. If one file that is no rule file
gets another content, then the scan does the same but for what becomes of this file, and the same in
all if its walk does not come to it. -/
theorem scanDirectory_accounts (fs : FileSystem) (root : Path) (suffixes : Option (List Text))
    (ordered : fs.root.Ordered) (returns : (scanDirectory fs root suffixes).fault = none) :
    let files := (Walk.ofRoot fs root ((suffixes.getD Language.suffixes).map Text.lower)).files
    let s := scanDirectory fs root suffixes
    s.Accounts files ∧
      ∀ place old new, fs.root.at? place = some (.file old) → place.getLast? ≠ some ruleFileName →
        let t := scanDirectory (fs.rewrite place new) root suffixes
        (∃ parts, place = fs.place root ++ parts ∧ (parts, old) ∈ files ∧
            s.DiffersAt t parts old new) ∨
          (∀ file ∈ files, place ≠ fs.place root ++ file.1) ∧ s = t := by
  intro files s
  obtain ⟨f, hending⟩ := DirectoryScan.fault_ofWalk_eq_none.mp returns
  have pairwise : files.Pairwise fun a b => a.1 < b.1 := Walk.pairwise_files_ofRoot ordered hending
  refine ⟨DirectoryScan.accounts_ofWalk (Walk.leavesFiles_ofRoot fs root _) pairwise, ?_⟩
  intro place old new hat hrules t
  have ht : t = .ofWalk _ := scanDirectory_rewrite ordered hat hrules new root suffixes
  by_cases hread : ∃ file ∈ files, place = fs.place root ++ file.1
  · obtain ⟨⟨parts, content⟩, hfile, rfl⟩ := hread
    have hcontent := Walk.at?_of_mem_files_ofRoot ordered hending hfile
    rw [hat] at hcontent
    cases hcontent
    have hsame : (fun below => rewriteAt (fs.place root ++ parts) new (fs.place root ++ below)) =
        rewriteAt parts new := by
      funext below content
      simp [rewriteAt]
    rw [hsame] at ht
    exact .inl ⟨parts, rfl, hfile, ht ▸ Walk.differsAt_mapContents pairwise hfile new⟩
  · have hmissed : ∀ file ∈ files, place ≠ fs.place root ++ file.1 :=
      fun file hfile heq => hread ⟨file, hfile, heq⟩
    refine .inr ⟨hmissed, ?_⟩
    rw [ht, Walk.mapContents_eq_self]
    · rfl
    · intro file hfile
      exact if_neg (Ne.symm (hmissed file hfile))

def Listing.mixed : Listing :=
  .directory "src".toList
    (.file "bad.js".toList (0xFF :: Utf8.encode "'fetch logs'".toList)
      (.file "good.js".toList (Utf8.encode "'fetch logs'".toList) .nil))
    .nil

theorem scanDirectory_accounts_mixed :
    let fs : FileSystem := ⟨.mixed, []⟩
    let root : Path := ⟨.root, ["src".toList]⟩
    let files := (Walk.ofRoot fs root (Language.suffixes.map Text.lower)).files
    let s := scanDirectory fs root none
    let place := ["src".toList, "good.js".toList]
    let old := Utf8.encode "'fetch logs'".toList
    let t := scanDirectory (fs.rewrite place [0xFF]) root none
    fs.root.Ordered ∧ s.fault = none ∧ fs.root.at? place = some (.file old) ∧
      place.getLast? ≠ some ruleFileName ∧ s.Accounts files ∧
      ((∃ parts, place = fs.place root ++ parts ∧ (parts, old) ∈ files ∧
          s.DiffersAt t parts old [0xFF]) ∨
        (∀ file ∈ files, place ≠ fs.place root ++ file.1) ∧ s = t) := by
  intro fs root files s place old t
  have ordered : fs.root.Ordered := by decide
  have returns : s.fault = none := by decide +kernel
  have hat : fs.root.at? place = some (.file old) := by rfl
  have hrules : place.getLast? ≠ some ruleFileName := by decide
  obtain ⟨accounts, differs⟩ := scanDirectory_accounts fs root none ordered returns
  exact ⟨ordered, returns, hat, hrules, accounts, differs place old [0xFF] hat hrules⟩

/-- A scan for files without a suffix reads rule files as well. What one says there decides about
other files of the scan. -/
theorem scanDirectory_reads_rules :
    let fs : FileSystem := ⟨.directory "src".toList
      (.file ruleFileName [] (.file "app".toList (Utf8.encode "'fetch logs'".toList) .nil)) .nil, []⟩
    let root : Path := ⟨.root, ["src".toList]⟩
    let s := scanDirectory fs root (some [[]])
    let t := scanDirectory (fs.rewrite ["src".toList, ruleFileName] (Utf8.encode "app\n".toList)) root
      (some [[]])
    fs.root.Ordered ∧ s.fault = none ∧ t.fault = none ∧
      ([ruleFileName], []) ∈ (Walk.ofRoot fs root [[]]).files ∧
      s.seen.map (·.1) = [ruleFileName, "app".toList] ∧ t.seen.map (·.1) = [ruleFileName] := by
  decide +kernel

end DqlScan
