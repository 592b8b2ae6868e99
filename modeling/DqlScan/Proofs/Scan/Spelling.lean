import DqlScan.Proofs.Scan.Selection

/-!
# Spellings of a root

Rules see the paths below an absolute root without the root, and those below a relative root with
it. Two spellings of one root give the same result exactly if the two views agree on all files
(`scanDirectory_spellings`).
-/

namespace DqlScan

open Ignore

def Listing.Named (tree : Listing) : Prop :=
  ∀ parts node, tree.at? parts = some node → ∀ name ∈ parts, '/' ∉ name

theorem Listing.named_of_all {tree : Listing} (ordered : tree.Ordered)
    (h : (tree.nodes.all fun entry => entry.1.all fun name => !name.contains '/') = true) :
    tree.Named := by
  intro parts node hat
  refine forall_at ordered (P := fun parts _ => ∀ name ∈ parts, '/' ∉ name) (by simp) ?_ hat
  intro entry hentry name hname
  have hall := List.all_eq_true.mp h entry hentry
  simpa using List.all_eq_true.mp hall name hname

/-! ### Files that results name -/

namespace DirectoryScan

/-- A scan names exactly the files that it has read, as scanned or as unreadable. -/
theorem mem_names {s : DirectoryScan} {files : List (List Text × Bytes)}
    (h : s.reads = files.map .ofFile) (name : Text) :
    name ∈ s.seen.map (·.1) ∨ name ∈ s.result.unreadable ↔
      ∃ file ∈ files, Path.joined file.1 = name := by
  rw [seen_eq, unreadable_eq, h]
  simp only [List.mem_map, List.mem_filterMap]
  constructor
  · rintro (⟨⟨_, language⟩, ⟨o, ⟨file, hfile, rfl⟩, hseen⟩, rfl⟩ | ⟨o, ⟨file, hfile, rfl⟩, hname⟩)
    · refine ⟨file, hfile, ?_⟩
      simp only [Outcome.ofFile, Outcome.ofVisit] at hseen
      split at hseen <;> cases hseen
      rfl
    · refine ⟨file, hfile, ?_⟩
      simp only [Outcome.ofFile, Outcome.ofVisit] at hname
      split at hname <;> cases hname
      rfl
  · intro h
    obtain ⟨file, hfile, rfl⟩ := h
    rcases hdecode : Utf8.decode file.2 with fault | text
    · refine .inr ⟨_, ⟨file, hfile, rfl⟩, ?_⟩
      simp [Outcome.ofFile, Outcome.ofVisit, hdecode, Outcome.unreadable?]
    · have hseen : (Outcome.ofFile file).seen? = some (Path.joined file.1,
          Language.ofSuffix (Path.suffix (file.1.getLast?.getD []))) := by
        simp [Outcome.ofFile, Outcome.ofVisit, hdecode, Outcome.seen?]
      exact .inl ⟨_, ⟨_, ⟨file, hfile, rfl⟩, hseen⟩, rfl⟩

end DirectoryScan

/-! ### Two spellings of one root -/

namespace Walk

theorem fits_of_ending {fs : FileSystem} {root : Path} {wanted : List Text} {f : PathFilter}
    (h : (ofRoot fs root wanted).ending = .ok f) : (root.child ruleFileName).fits = true := by
  cases hfits : (root.child ruleFileName).fits with
  | true => rfl
  | false =>
    have hfile : PathFilter.ruleFile fs root =
        .error (.access (root.child ruleFileName) .nameTooLong) := by
      rw [PathFilter.ruleFile, FileSystem.find?, FileSystem.node, if_neg (by simp [hfits])]
      rfl
    rw [ofRoot, PathFilter.ofDirectory, hfile] at h
    cases h

end Walk

theorem list_absolute {fs : FileSystem} {parts : List Text} {tree : Listing}
    (htree : fs.list ⟨.relative, parts⟩ = .ok tree)
    (hfits : Path.fits ⟨.root, fs.current ++ parts⟩ = true) :
    fs.list ⟨.root, fs.current ++ parts⟩ = .ok tree :=
  FileSystem.list_eq_ok.mpr ⟨hfits, (FileSystem.list_eq_ok.mp htree).2⟩

namespace Walk

variable {fs : FileSystem} {root : Path} {wanted : List Text} {tree : Listing}

theorem files_subset {s t : DirectoryScan} {files others : List (List Text × Bytes)}
    (hs : s.reads = files.map .ofFile)
    (ht : t.reads = others.map .ofFile) (hresult : s.result = t.result) (hseen : s.seen = t.seen)
    (named : tree.Named) (hfiles : ∀ file ∈ files, tree.at? file.1 = some (.file file.2))
    (hothers : ∀ file ∈ others, tree.at? file.1 = some (.file file.2)) :
    ∀ file ∈ files, file ∈ others := by
  intro file hfile
  have hname := (DirectoryScan.mem_names hs (Path.joined file.1)).mpr ⟨file, hfile, rfl⟩
  rw [hseen, hresult] at hname
  obtain ⟨other, hother, hjoined⟩ := (DirectoryScan.mem_names ht (Path.joined file.1)).mp hname
  have hat := hfiles file hfile
  have hatOther := hothers other hother
  have hne : ∀ {parts content}, tree.at? parts = some (.file content) → parts ≠ [] := by
    rintro parts content h rfl
    cases h
  have hparts : other.1 = file.1 := Path.joined_injective (hne hatOther) (hne hat)
    (named _ _ hatOther) (named _ _ hat) hjoined
  have hcontent : other.2 = file.2 := by
    rw [hparts, hat] at hatOther
    exact (Node.file.inj (Option.some.inj hatOther)).symm
  have hsame : other = file := Prod.ext hparts hcontent
  exact hsame ▸ hother

theorem gather_readsAt_congr {f g : PathFilter} (ordered : tree.Ordered)
    (h : ∀ parts content, tree.at? parts = some (.file content) →
      ((parts, content) ∈ gather (readsAt wanted f) f [] tree ↔
        (parts, content) ∈ gather (readsAt wanted g) g [] tree)) :
    gather (readsAt wanted f) f [] tree = gather (readsAt wanted g) g [] tree := by
  apply List.flatMap_congr
  intro entry hentry
  have hat := ((Listing.mem_nodes ordered).mp hentry).2
  obtain ⟨parts, node⟩ := entry
  cases node with
  | directory entries => simp [readsAt]
  | file content =>
    have hsame := h parts content hat
    rw [mem_reads ordered, mem_reads ordered, and_iff_right hat, and_iff_right hat,
      ← Bool.and_eq_true, ← Bool.and_eq_true] at hsame
    simp only [readsAt, List.nil_append, ← ite_and, ← Bool.and_eq_true]
    rw [Bool.eq_iff_iff.mpr hsame]

theorem at?_of_mem_reads {f : PathFilter} (ordered : tree.Ordered) :
    ∀ file ∈ gather (readsAt wanted f) f [] tree,
      tree.at? file.1 = some (.file file.2) := by
  rintro ⟨parts, content⟩ hmem
  exact ((mem_reads ordered).mp hmem).1

end Walk

/-- The relative and the absolute spelling of a root give the same result and tell of the same
files exactly if both scans come to their ends and each file is kept and reached by the rules that
see the relative root if and only if it is by those that do not. -/
theorem scanDirectory_spellings (fs : FileSystem) (parts : List Text) (tree : Listing)
    (suffixes : Option (List Text)) (ordered : fs.root.Ordered) (named : tree.Named)
    (htree : fs.list ⟨.relative, parts⟩ = .ok tree) :
    let relative : Path := ⟨.relative, parts⟩
    let absolute : Path := ⟨.root, fs.current ++ parts⟩
    let wanted := (suffixes.getD Language.suffixes).map Text.lower
    let s := scanDirectory fs relative suffixes
    let t := scanDirectory fs absolute suffixes
    (s.fault = none ∧ t.fault = none ∧ s.result = t.result ∧ s.seen = t.seen) ↔
      t.fault = none ∧ ∃ f, (Walk.ofRoot fs relative wanted).ending = .ok f ∧
        ∀ below content, tree.at? below = some (.file content) →
          (tree.Keeps f.IgnoresAt wanted below content ∧ relative.Reaches below ↔
            tree.Keeps tree.Ignores wanted below content ∧ absolute.Reaches below) := by
  intro relative absolute wanted s t
  have treeOrdered : tree.Ordered := FileSystem.ordered_list ordered htree
  -- Both walks go through the same tree, so each decision can be compared at the filters' ends.
  have hrelative : ∀ {f}, (Walk.ofRoot fs relative wanted).ending = .ok f →
      s.reads = (Walk.gather (Walk.readsAt wanted f) f [] tree).map .ofFile ∧
        ∀ below content, (below, content) ∈ Walk.gather (Walk.readsAt wanted f) f [] tree ↔
          tree.Keeps f.IgnoresAt wanted below content ∧ relative.Reaches below := by
    intro f hf
    obtain ⟨hfits, ends, hfiles⟩ := Walk.ofRoot_trace ordered htree hf
    refine ⟨by rw [← hfiles]; exact DirectoryScan.reads_ofWalk _, fun below content => ?_⟩
    rw [Walk.mem_reads_iff_ignoresAt treeOrdered (ends.root.symm ▸ hfits), ends.root]
  have habsolute : ∀ {g}, (Walk.ofRoot fs absolute wanted).ending = .ok g →
      t.reads = (Walk.gather (Walk.readsAt wanted g) g [] tree).map .ofFile ∧
        ∀ below content, (below, content) ∈ Walk.gather (Walk.readsAt wanted g) g [] tree ↔
          tree.Keeps tree.Ignores wanted below content ∧ absolute.Reaches below := by
    intro g hg
    have hlist := list_absolute htree (Path.fits_of_child (Walk.fits_of_ending hg))
    obtain ⟨hfits, ends, hfiles⟩ := Walk.ofRoot_trace ordered hlist hg
    refine ⟨by rw [← hfiles]; exact DirectoryScan.reads_ofWalk _, fun below content => ?_⟩
    exact ends.mem_reads_iff treeOrdered rfl hfits
  constructor
  · intro h
    obtain ⟨hs, ht, hresult, hseen⟩ := h
    obtain ⟨f, hf⟩ := DirectoryScan.fault_ofWalk_eq_none.mp hs
    obtain ⟨g, hg⟩ := DirectoryScan.fault_ofWalk_eq_none.mp ht
    obtain ⟨hsReads, hsMem⟩ := hrelative hf
    obtain ⟨htReads, htMem⟩ := habsolute hg
    refine ⟨ht, f, hf, fun below content hat => ?_⟩
    rw [← hsMem, ← htMem]
    exact ⟨Walk.files_subset hsReads htReads hresult hseen named
        (Walk.at?_of_mem_reads treeOrdered) (Walk.at?_of_mem_reads treeOrdered) _,
      Walk.files_subset htReads hsReads hresult.symm hseen.symm named
        (Walk.at?_of_mem_reads treeOrdered) (Walk.at?_of_mem_reads treeOrdered) _⟩
  · intro h
    obtain ⟨ht, f, hf, hkeeps⟩ := h
    obtain ⟨g, hg⟩ := DirectoryScan.fault_ofWalk_eq_none.mp ht
    obtain ⟨hsReads, hsMem⟩ := hrelative hf
    obtain ⟨htReads, htMem⟩ := habsolute hg
    have hfiles : Walk.gather (Walk.readsAt wanted f) f [] tree =
        Walk.gather (Walk.readsAt wanted g) g [] tree := by
      apply Walk.gather_readsAt_congr treeOrdered
      intro below content hat
      rw [hsMem, htMem]
      exact hkeeps below content hat
    have hreads : s.reads = t.reads := by rw [hsReads, htReads, hfiles]
    exact ⟨DirectoryScan.fault_ofWalk_eq_none.mpr ⟨f, hf⟩, ht, DirectoryScan.result_of_reads hreads⟩

theorem scanDirectory_spellings_sample :
    let fs : FileSystem := ⟨.directory "src".toList .sample .nil, []⟩
    let relative : Path := ⟨.relative, ["src".toList]⟩
    let absolute : Path := ⟨.root, ["src".toList]⟩
    let wanted := Language.suffixes.map Text.lower
    let s := scanDirectory fs relative none
    let t := scanDirectory fs absolute none
    fs.root.Ordered ∧ Listing.sample.Named ∧ fs.list relative = .ok .sample ∧
      ((s.fault = none ∧ t.fault = none ∧ s.result = t.result ∧ s.seen = t.seen) ↔
        t.fault = none ∧ ∃ f, (Walk.ofRoot fs relative wanted).ending = .ok f ∧
          ∀ below content, Listing.sample.at? below = some (.file content) →
            (Listing.sample.Keeps f.IgnoresAt wanted below content ∧ relative.Reaches below ↔
              Listing.sample.Keeps Listing.sample.Ignores wanted below content ∧
                absolute.Reaches below)) := by
  intro fs relative absolute wanted s t
  have ordered : fs.root.Ordered := by decide
  have named : Listing.sample.Named := Listing.named_of_all (by decide) (by decide)
  have htree : fs.list relative = .ok .sample := by rfl
  exact ⟨ordered, named, htree,
    scanDirectory_spellings fs ["src".toList] .sample none ordered named htree⟩

/-- The rules of a directory below the root do not count if the root is relative: one file is read
by its absolute and two by its relative spelling. -/
theorem scanDirectory_spelling_counts :
    let fs : FileSystem := ⟨.directory "src".toList .sample .nil, []⟩
    let s := scanDirectory fs ⟨.relative, ["src".toList]⟩ none
    let t := scanDirectory fs ⟨.root, ["src".toList]⟩ none
    s.fault = none ∧ t.fault = none ∧ s.result ≠ t.result ∧
      s.seen.map (·.1) = ["sub/app.js".toList, "sub/gen.js".toList] ∧
      t.seen.map (·.1) = ["sub/app.js".toList] := by
  decide +kernel

end DqlScan
