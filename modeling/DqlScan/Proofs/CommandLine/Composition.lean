import DqlScan.Proofs.CommandLine.ExitCodes

/-!
# Paths after one another

A run on two lists of paths finds what runs on each of them find, and prints it as text in the same
order. It ends at the first path that ends one of them (`ofOptions_composed`).
-/

namespace DqlScan

theorem Report.lines_append (placed : Bool) (r s : ScanResult) :
    lines placed (r ++ s) = lines placed r ++ lines placed s := by
  unfold lines
  rw [ScanResult.append_eq, List.map_append]
  exact List.flatMap_append

namespace CommandLine

namespace Run

variable {fs : FileSystem} {o : Options} {page : Text} {c : Collection} {fault : PathFault}

/-- A run that is to print texts prints those that its paths yield, if none of them stops it. -/
theorem output_ofOptions (hhelp : o.help = false) (hversion : o.version = false)
    (hformat : o.format = "text".toList)
    (hfound : Collection.ofPaths fs o.verbose (o.paths.map .read) = (c, none)) :
    (ofOptions fs o page).output = Report.lines o.ide c.result := by
  by_cases hpaths : o.paths = []
  · rw [hpaths] at hfound
    cases hfound
    rw [ofOptions_of_nil hhelp hversion hpaths]
    rfl
  · rw [ofOptions_of_paths hhelp hversion hpaths, hformat]
    show (scan fs o .text (o.paths.map .read)).output = _
    rw [scan, hfound]

/-- A path that stops a run is all that the run tells of. -/
theorem ofOptions_of_fault (hhelp : o.help = false) (hversion : o.version = false)
    {paths : List Text}
    (hfound : Collection.ofPaths fs o.verbose (paths.map .read) = (c, some fault)) :
    ofOptions fs { o with paths := paths } page =
      if o.format ∈ formatNames then
        { ending := fault.ending, errors := c.errors, notices := shown o.verbose c.notices }
      else failed 1 ("Error: Unknown format: ".toList ++ o.format) := by
  have hpaths : paths ≠ [] := by
    rintro rfl
    cases hfound
  rw [ofOptions_of_paths (o := { o with paths := paths }) hhelp hversion hpaths]
  rcases hformat : ReportFormat.ofName? o.format with _ | format
  · rw [if_neg (ReportFormat.ofName?_eq_none_iff.mp hformat)]
  · have hname : o.format ∈ formatNames := by
      by_contra hname
      rw [ReportFormat.ofName?_eq_none_iff.mpr hname] at hformat
      cases hformat
    rw [if_pos hname]
    show scan fs { o with paths := paths } format (paths.map .read) = _
    rw [scan, hfound]

end Run

/-- If both lists of paths can be collected, then so can one behind the other, field by field, and what
is printed of both as text is what is printed of each. A fault in the first list is all that there is,
with what was found and written before it. A fault in the second ends the run as it ends that of the
second, and what is written comes behind all that is written of the first. -/
theorem ofOptions_composed (fs : FileSystem) (o : Options) (page : Text) (hhelp : o.help = false)
    (hversion : o.version = false) (ps qs : List Text) :
    let collect := fun paths : List Text => Collection.ofPaths fs o.verbose (paths.map Path.read)
    let run := fun paths : List Text => Run.ofOptions fs { o with paths := paths } page
    (∀ c d, collect ps = (c, none) → collect qs = (d, none) →
      collect (ps ++ qs) =
        (⟨⟨c.result.queries ++ d.result.queries, c.result.filesScanned + d.result.filesScanned,
          c.result.unreadable ++ d.result.unreadable⟩, c.errors ++ d.errors,
          c.notices ++ d.notices⟩, none) ∧
      (o.format = "text".toList → (run (ps ++ qs)).output = (run ps).output ++ (run qs).output)) ∧
    (∀ c fault, collect ps = (c, some fault) →
      collect (ps ++ qs) = (c, some fault) ∧ run (ps ++ qs) = run ps) ∧
    ∀ c d fault, collect ps = (c, none) → collect qs = (d, some fault) →
      (collect (ps ++ qs)).2 = some fault ∧ (collect (ps ++ qs)).1.errors = c.errors ++ d.errors ∧
      (run (ps ++ qs)).ending = (run qs).ending ∧
      (o.format ∈ formatNames → (run (ps ++ qs)).errors = c.errors ++ (run qs).errors) := by
  intro collect run
  have happend : collect (ps ++ qs) = Collection.andThen (collect ps) (collect qs) := by
    show Collection.ofPaths fs o.verbose ((ps ++ qs).map Path.read) = _
    rw [List.map_append, Collection.ofPaths_append]
  refine ⟨fun c d hps hqs => ?_, fun c fault hps => ?_, fun c d fault hps hqs => ?_⟩
  · have hboth : collect (ps ++ qs) = (c ++ d, none) := by rw [happend, hps, hqs]; rfl
    refine ⟨hboth, fun hformat => ?_⟩
    have houtput {paths : List Text} {c : Collection} (h : collect paths = (c, none)) :
        (run paths).output = Report.lines o.ide c.result :=
      Run.output_ofOptions (o := { o with paths := paths }) hhelp hversion hformat h
    rw [houtput hboth, houtput hps, houtput hqs]
    exact Report.lines_append o.ide c.result d.result
  · have hboth : collect (ps ++ qs) = (c, some fault) := by rw [happend, hps]; rfl
    refine ⟨hboth, ?_⟩
    exact (Run.ofOptions_of_fault hhelp hversion hboth).trans
      (Run.ofOptions_of_fault hhelp hversion hps).symm
  · have hboth : collect (ps ++ qs) = (c ++ d, some fault) := by rw [happend, hps, hqs]; rfl
    have hrun : run qs = _ := Run.ofOptions_of_fault hhelp hversion hqs
    have hrunBoth : run (ps ++ qs) = _ := Run.ofOptions_of_fault hhelp hversion hboth
    rw [hboth, hrun, hrunBoth]
    refine ⟨rfl, rfl, ?_, fun hformat => ?_⟩
    · split <;> rfl
    · rw [if_pos hformat, if_pos hformat]
      rfl

/-- A directory, a file and a file that is not UTF-8, of which the second and the third come behind the
first in turn. -/
theorem ofOptions_composed_sample :
    let fs : FileSystem :=
      ⟨.directory "a".toList (.file "app.js".toList (Utf8.encode "'fetch logs'".toList) .nil)
        (.file "bad.js".toList [0xFF]
          (.file "main.js".toList (Utf8.encode "'fetch events'".toList) .nil)), []⟩
    let o : Options := { verbose := true }
    let collect := fun paths : List Text => Collection.ofPaths fs o.verbose (paths.map Path.read)
    let run := fun paths : List Text => Run.ofOptions fs { o with paths := paths }
    let a : List Text := ["/a".toList]
    let main : List Text := ["/main.js".toList]
    let bad : List Text := ["/bad.js".toList]
    o.help = false ∧ o.version = false ∧
    ∃ c d e fault, collect a = (c, none) ∧ collect main = (d, none) ∧ collect bad = (e, some fault) ∧
      (collect (a ++ main)).1.result.queries = c.result.queries ++ d.result.queries ∧
      (run (a ++ main)).output = (run a).output ++ (run main).output ∧
      run (bad ++ a) = run bad ∧
      (run (a ++ bad)).ending = (run bad).ending ∧
      (run (a ++ bad)).errors = c.errors ++ (run bad).errors := by
  intro fs o collect run a main bad
  have composed := ofOptions_composed fs o [] rfl rfl
  obtain ⟨c, hc⟩ : ∃ c, collect a = (c, none) := ⟨_, by rfl⟩
  obtain ⟨d, hd⟩ : ∃ d, collect main = (d, none) := ⟨_, by rfl⟩
  obtain ⟨e, fault, he⟩ : ∃ e fault, collect bad = (e, some fault) := ⟨_, _, by rfl⟩
  obtain ⟨hboth, houtput⟩ := (composed a main).1 c d hc hd
  obtain ⟨-, hbad⟩ := (composed bad a).2.1 e fault he
  obtain ⟨-, -, hending, herrors⟩ := (composed a bad).2.2 c e fault hc he
  refine ⟨rfl, rfl, c, d, e, fault, hc, hd, he, ?_, houtput rfl, hbad, hending, herrors ?_⟩
  · exact congrArg (·.1.result.queries) hboth
  · exact List.mem_cons_self

end CommandLine

end DqlScan
