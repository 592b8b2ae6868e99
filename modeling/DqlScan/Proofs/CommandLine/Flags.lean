import DqlScan.Proofs.CommandLine.Composition

/-!
# Flags in front of a command line

A flag in front of other arguments sets what it would set behind them (`Options.read_flag`). Neither of
the flags that ask for more to be shown changes how a run ends or what it finds
(`ofArguments_flagged`).
-/

namespace DqlScan.CommandLine

namespace Options

/-! ### Flags set before -/

/-- The flags that ask for more to be shown, by their names. -/
inductive Shows : Text → Setting → Prop where
  | verbose : Shows "--verbose".toList .verbose
  | ide : Shows "--ide".toList .ide

/-- Of two options that ask for a text the first counts, but it does not matter when more is asked to
be shown. -/
theorem Shows.set_set {name : Text} {flag : Setting} (h : Shows name flag) (o : Options)
    (setting : Setting) : (o.set flag).set setting = (o.set setting).set flag := by
  cases h <;> cases setting <;> rfl

theorem set_format (o : Options) (flag : Setting) (value : Text) :
    { o.set flag with format := value } = ({ o with format := value } : Options).set flag := by
  cases flag <;> rfl

theorem set_paths (o : Options) (flag : Setting) (paths : List Text) :
    { o.set flag with paths := (o.set flag).paths ++ paths } =
      ({ o with paths := o.paths ++ paths } : Options).set flag := by
  cases flag <;> rfl

def Progress.set (flag : Setting) (p : Progress) : Progress := (p.1.set flag, p.2)

theorem ok_set {flag : Setting} {o later : Options} (h : later = o.set flag) :
    (Except.ok (later, none) : Except UsageFault Progress) =
      (Except.ok (o, none)).map (Progress.set flag) := by
  rw [h]
  rfl

section Shows

variable {name : Text} {flag : Setting} (h : Shows name flag)
include h

theorem readLong_set (o : Options) (arg : Text) :
    readLong (o.set flag) arg = (readLong o arg).map (Progress.set flag) := by
  unfold readLong
  dsimp only
  rcases Setting.ofLong? (arg.takeWhile (· ≠ '=')) with _ | setting
  · rfl
  rcases arg.drop (arg.takeWhile (· ≠ '=')).length with _ | ⟨c, value⟩
  · cases setting with
    | format => rfl
    | _ => exact ok_set (h.set_set o _)
  · cases setting with
    | format => exact ok_set (set_format o flag value)
    | _ => rfl

theorem readLetters_set (o : Options) (letters : Text) :
    readLetters (o.set flag) letters = (readLetters o letters).map (Progress.set flag) := by
  induction letters generalizing o with
  | nil => rfl
  | cons letter rest ih =>
    unfold readLetters
    rcases Setting.ofLetter? letter with _ | setting
    · rfl
    cases setting with
    | format =>
      by_cases hrest : rest = []
      · simp only [hrest, if_true]
        rfl
      · simp only [hrest, if_false]
        exact ok_set (set_format o flag rest)
    | _ =>
      dsimp only
      rw [h.set_set, ih]

theorem readArgument_set (o : Options) (arg : Text) :
    readArgument (o.set flag) arg = (readArgument o arg).map (Progress.set flag) := by
  unfold readArgument
  split
  · exact readLong_set h o _
  · exact readLetters_set h o _
  · exact ok_set (set_paths o flag [_])

theorem readFrom_set (o : Options) (waiting : Option Text) (args : List Text) :
    readFrom (o.set flag) waiting args = (readFrom o waiting args).map (·.set flag) := by
  induction args generalizing o waiting with
  | nil => cases waiting <;> rfl
  | cons arg args ih =>
    cases waiting with
    | some name =>
      unfold readFrom
      rw [set_format, ih]
    | none =>
      unfold readFrom
      dsimp only
      by_cases hend : arg = ['-', '-']
      · rw [if_pos hend, if_pos hend, set_paths]
        rfl
      · rw [if_neg hend, if_neg hend, readArgument_set h]
        rcases readArgument o arg with fault | ⟨later, waiting⟩
        · rfl
        · exact ih later waiting

theorem read_flag (args : List Text) : read (name :: args) = (read args).map (·.set flag) := by
  have hread := readFrom_set h {} none args
  cases h with
  | verbose => exact hread
  | ide => exact hread

end Shows

end Options

/-! ### What is found -/

namespace Collection

variable {fs : FileSystem}

/-- What was found, without what was written on the way. -/
def unwritten (x : Collection × Option PathFault) : Collection × Option PathFault :=
  ({ x.1 with errors := [] }, x.2)

theorem unwritten_andThen (x y : Collection × Option PathFault) :
    unwritten (andThen x y) = andThen (unwritten x) (unwritten y) := by
  rcases x with ⟨c, _ | fault⟩ <;> rfl

theorem unwritten_ofPath (verbose : Bool) (path : Path) :
    unwritten (ofPath fs verbose path) = unwritten (ofPath fs false path) := by
  unfold ofPath
  split <;> rfl

theorem unwritten_ofPaths (verbose : Bool) (paths : List Path) :
    unwritten (ofPaths fs verbose paths) = unwritten (ofPaths fs false paths) := by
  induction paths with
  | nil => rfl
  | cons path paths ih =>
    rw [ofPaths_cons, ofPaths_cons, unwritten_andThen, unwritten_andThen, unwritten_ofPath, ih]

end Collection

/-! ### Runs side by side -/

namespace Run

variable {fs : FileSystem} {o : Options} {page : Text}

def warnings (r : Run) : List Notice := r.notices.filter (·.level = .warning)

/-- The runs end alike, report the same, to a console as well, and warn of the same. -/
structure FindsAs (r s : Run) : Prop where
  ending : r.ending = s.ending
  output : r.output = s.output
  blocks : r.blocks = s.blocks
  warnings : r.warnings = s.warnings

/-- The runs differ in their output at most. -/
structure TellsAs (r s : Run) : Prop where
  ending : r.ending = s.ending
  errors : r.errors = s.errors
  blocks : r.blocks = s.blocks
  notices : r.notices = s.notices

theorem warnings_shown (verbose : Bool) (notices : List Notice) :
    (shown verbose notices).filter (·.level = .warning) =
      notices.filter (·.level = .warning) := by
  rw [shown, List.filter_filter]
  refine List.filter_congr fun notice _ => ?_
  by_cases h : notice.level = .warning <;> simp [h]

theorem scan_verbose (format : ReportFormat) (paths : List Path) :
    (scan fs (o.set .verbose) format paths).FindsAs (scan fs o format paths) := by
  have hverbose : (o.set .verbose).verbose = true := rfl
  have hide : (o.set .verbose).ide = o.ide := rfl
  have hfound : Collection.unwritten (Collection.ofPaths fs true paths) =
      Collection.unwritten (Collection.ofPaths fs o.verbose paths) := by
    rw [Collection.unwritten_ofPaths true, Collection.unwritten_ofPaths o.verbose]
  rw [scan, scan, hverbose, hide]
  generalize Collection.ofPaths fs true paths = verbose at hfound ⊢
  generalize Collection.ofPaths fs o.verbose paths = asked at hfound ⊢
  obtain ⟨⟨result, errors, notices⟩, fault⟩ := verbose
  obtain ⟨⟨result', errors', notices'⟩, fault'⟩ := asked
  simp only [Collection.unwritten, Prod.mk.injEq, Collection.mk.injEq, true_and] at hfound
  obtain ⟨⟨rfl, rfl⟩, rfl⟩ := hfound
  have hwarnings := (warnings_shown true notices).trans (warnings_shown o.verbose notices).symm
  cases fault with
  | some fault => exact ⟨rfl, rfl, rfl, hwarnings⟩
  | none => exact ⟨rfl, rfl, rfl, hwarnings⟩

theorem scan_ide (format : ReportFormat) (paths : List Path) :
    (scan fs (o.set .ide) format paths).TellsAs (scan fs o format paths) ∧
      ((scan fs (o.set .ide) format paths).output = (scan fs o format paths).output ∨
        format = .text ∧ ∃ c, Collection.ofPaths fs o.verbose paths = (c, none)) := by
  have hverbose : (o.set .ide).verbose = o.verbose := rfl
  rw [scan, scan, hverbose]
  rcases Collection.ofPaths fs o.verbose paths with ⟨found, _ | fault⟩
  · refine ⟨⟨rfl, rfl, rfl, rfl⟩, ?_⟩
    cases format with
    | text => exact .inr ⟨rfl, found, rfl⟩
    | _ => exact .inl rfl
  · exact ⟨⟨rfl, rfl, rfl, rfl⟩, .inl rfl⟩

/-- Where a flag makes no difference to a scan, it makes none to a run, which without a scan does not
look at it. -/
theorem ofArguments_flag {R : Run → Run → Prop} (refl : ∀ r, R r r) {name : Text} {flag : Setting}
    (hflag : Options.Shows name flag) {args : List Text}
    (hscan : ∀ o format paths, Options.read args = .ok o → o.help = false → o.version = false →
      paths = o.paths.map .read → ReportFormat.ofName? o.format = some format →
        R (scan fs (o.set flag) format paths) (scan fs o format paths)) :
    R (ofArguments fs (name :: args) page) (ofArguments fs args page) := by
  unfold ofArguments
  rw [Options.read_flag hflag]
  rcases hread : Options.read args with fault | o
  · exact refl _
  have hsame : (o.set flag).help = o.help ∧ (o.set flag).version = o.version ∧
      (o.set flag).paths = o.paths ∧ (o.set flag).format = o.format := by
    cases hflag <;> exact ⟨rfl, rfl, rfl, rfl⟩
  obtain ⟨hhelp, hversion, hpaths, hformat⟩ := hsame
  show R (ofOptions fs (o.set flag) page) (ofOptions fs o page)
  unfold ofOptions
  rw [hhelp, hversion, hpaths, hformat]
  by_cases help : o.help = true
  · rw [if_pos help, if_pos help]
    exact refl _
  by_cases version : o.version = true
  · rw [if_neg help, if_neg help, if_pos version, if_pos version]
    exact refl _
  rw [if_neg help, if_neg help, if_neg version, if_neg version]
  rcases hargs : o.paths with _ | ⟨arg, rest⟩
  · exact refl _
  rcases hknown : ReportFormat.ofName? o.format with _ | format
  · exact refl _
  · exact hscan o format _ hread (by simpa using help) (by simpa using version) (by rw [hargs]) hknown

end Run

/-- The arguments ask for texts, and no path stops the run on the way to what is found. -/
structure Prints (fs : FileSystem) (args : List Text) (o : Options) (c : Collection) : Prop where
  read : Options.read args = .ok o
  help : o.help = false
  version : o.version = false
  format : o.format = "text".toList
  found : Collection.ofPaths fs o.verbose (o.paths.map .read) = (c, none)

/-- With `--verbose` in front a run ends as it does without, reports the same and warns of the same.
With `--ide` in front it writes and tells the same beside its report; the report differs only if it is
text, and then it has the same queries one by one, each behind its place. -/
theorem ofArguments_flagged (fs : FileSystem) (args : List Text) (page : Text) :
    let run := Run.ofArguments fs args page
    let verbose := Run.ofArguments fs ("--verbose".toList :: args) page
    let placed := Run.ofArguments fs ("--ide".toList :: args) page
    verbose.FindsAs run ∧ placed.TellsAs run ∧
      (placed.output ≠ run.output → ∃ o c, Prints fs args o c) ∧
      ∀ o c, Prints fs args o c →
        run.output = Text.unlines (c.result.queries.map fun q =>
          if o.ide then q.placedLine else q.plainLine) ∧
        placed.output = Text.unlines (c.result.queries.map Query.placedLine) := by
  intro run verbose placed
  refine ⟨?_, ?_, fun hne => ?_, fun o c prints => ⟨?_, ?_⟩⟩
  · exact Run.ofArguments_flag (fun _ => ⟨rfl, rfl, rfl, rfl⟩) .verbose
      fun _ format paths _ _ _ _ _ => Run.scan_verbose format paths
  · exact Run.ofArguments_flag (fun _ => ⟨rfl, rfl, rfl, rfl⟩) .ide
      fun _ format paths _ _ _ _ _ => (Run.scan_ide format paths).1
  · by_contra hnone
    refine hne (Run.ofArguments_flag (R := fun r s => r.output = s.output) (fun _ => rfl) .ide ?_)
    intro o format paths hread hhelp hversion hpaths hknown
    rcases (Run.scan_ide format paths).2 with hsame | ⟨rfl, c, hfound⟩
    · exact hsame
    · rw [hpaths] at hfound
      exact absurd ⟨o, c, hread, hhelp, hversion, ReportFormat.ofName?_eq_some_iff.mp hknown, hfound⟩ hnone
  · show (Run.ofArguments fs args page).output = _
    rw [Run.ofArguments, prints.read]
    exact Run.output_ofOptions prints.help prints.version prints.format prints.found
  · show (Run.ofArguments fs ("--ide".toList :: args) page).output = _
    rw [Run.ofArguments, Options.read_flag .ide, prints.read]
    exact Run.output_ofOptions (o := o.set .ide) prints.help prints.version prints.format prints.found

/-- A directory with a query, a literal that is left open and a file that is not UTF-8. -/
theorem ofArguments_flagged_sample :
    let fs : FileSystem :=
      ⟨.directory "a".toList
        (.file "app.js".toList (Utf8.encode "'fetch logs' + 'it".toList)
          (.file "bad.js".toList [0xFF] .nil)) .nil, []⟩
    let args := ["/a".toList]
    let run := Run.ofArguments fs args
    let verbose := Run.ofArguments fs ("--verbose".toList :: args)
    let placed := Run.ofArguments fs ("--ide".toList :: args)
    verbose.FindsAs run ∧ placed.TellsAs run ∧ verbose.errors ≠ run.errors ∧
      run.output = "dql-format: fetch logs\n".toList ∧
      placed.output = "app.js:1:0: fetch logs\n".toList := by
  intro fs args run verbose placed
  obtain ⟨hverbose, hplaced, -, hlines⟩ := ofArguments_flagged fs args []
  have hread : Options.read args = .ok { paths := args } := by decide
  obtain ⟨c, hc, hqueries⟩ : ∃ c, Collection.ofPaths fs false [.read "/a".toList] = (c, none) ∧
      c.result.queries = [⟨"fetch logs".toList, "app.js".toList, 1, 0⟩] :=
    ⟨_, by rfl, by rfl⟩
  obtain ⟨hrun, hide⟩ := hlines _ c ⟨hread, rfl, rfl, rfl, hc⟩
  rw [hqueries] at hrun hide
  exact ⟨hverbose, hplaced, by decide +kernel, hrun, hide⟩

end DqlScan.CommandLine
