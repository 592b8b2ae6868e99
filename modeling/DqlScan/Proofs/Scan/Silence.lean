import DqlScan.Proofs.File.Removal
import DqlScan.Proofs.Scan.Unread
import DqlScan.Proofs.Scan.Unseen

/-!
# Walks without rule files that are not UTF-8

A rule file that is not UTF-8 gives a walk nothing but a warning. So without such files the walk is
the same, less these warnings (`Walk.through_without`), one for each of them in a directory that it
enters (`Walk.filter_unread_through`).
-/

namespace DqlScan

open Ignore

def Listing.Undecoded (l : Listing) : Prop :=
  ∃ content fault, l.find? ruleFileName = some (.file content) ∧ Utf8.decode content = .error fault

/-- The rule files that are gone from the directories in a listing, to which `parts` lead, are not
UTF-8. -/
def Listing.Loses (gone : List Text → Bool) (parts : List Text) (l : Listing) : Prop :=
  ∀ entry ∈ l.nodes, gone (parts ++ entry.1 ++ [ruleFileName]) = true → entry.2.entries.Undecoded

variable {gone : List Text → Bool}

namespace Listing

variable {l : Listing}

theorem ruleFile_without (ordered : l.Ordered) (h : gone [ruleFileName] = false) :
    ((l.without gone).find? ruleFileName).map Node.content =
      (l.find? ruleFileName).map Node.content := by
  rw [find?_without ordered, h]
  rcases l.find? ruleFileName with _ | node
  · rfl
  · cases node <;> rfl

theorem Undecoded.find?_without (undecoded : l.Undecoded) (ordered : l.Ordered)
    (h : gone [ruleFileName] = true) : (l.without gone).find? ruleFileName = none := by
  obtain ⟨content, fault, hfind, -⟩ := undecoded
  rw [Listing.find?_without ordered, hfind, h]
  rfl

variable {parts : List Text} {name : Text} {node : Node} {rest : Listing}

theorem Loses.later (loses : (node.cons name rest).Loses gone parts) : rest.Loses gone parts := by
  intro entry hentry
  apply loses
  rw [nodes_cons]
  exact List.mem_append_right _ hentry

theorem Loses.inside (loses : (node.cons name rest).Loses gone parts) {entry : List Text × Node}
    (hentry : entry ∈ node.nodes)
    (hgone : gone (parts ++ [name] ++ entry.1 ++ [ruleFileName]) = true) :
    entry.2.entries.Undecoded := by
  have hmem : (name :: entry.1, entry.2) ∈ (node.cons name rest).nodes := by
    rw [nodes_cons]
    exact List.mem_append_left _ (List.mem_map_of_mem hentry)
  apply loses _ hmem
  simpa using hgone

theorem Loses.here (loses : (node.cons name rest).Loses gone parts)
    (hgone : gone (parts ++ [name] ++ [ruleFileName]) = true) : node.entries.Undecoded := by
  have hgone : gone (parts ++ [name] ++ [] ++ [ruleFileName]) = true := by simpa using hgone
  exact loses.inside (List.mem_cons_self (a := ([], node))) hgone

theorem Loses.below (loses : (node.cons name rest).Loses gone parts) :
    node.entries.Loses gone (parts ++ [name]) :=
  fun _ hentry => loses.inside (List.mem_cons_of_mem _ hentry)

end Listing

/-! ### Filters -/

namespace Ignore

theorem ruleLines_of_decode_error {content : Bytes} {fault : Utf8.Fault}
    (h : Utf8.decode content = .error fault) :
    ∃ other, ruleLines (.file content) = .error other := by
  rw [ruleLines_file, Utf8.decodeBlocks, h]
  exact ⟨_, rfl⟩

namespace PathFilter

variable {f g : PathFilter} {directory : Path} {file : Option Node}
  {notices : List Notice} {l : Listing}

theorem load_undecoded (hload : f.nested ∧ directory ≠ f.root) (undecoded : l.Undecoded) :
    ∃ fault, f.load directory (l.find? ruleFileName) =
      .ok (f, [.unreadRules (directory.child ruleFileName) fault]) := by
  obtain ⟨content, fault, hfind, hdecode⟩ := undecoded
  obtain ⟨other, hlines⟩ := ruleLines_of_decode_error hdecode
  refine ⟨other, ?_⟩
  unfold load
  rw [if_pos hload, hfind]
  dsimp only
  rw [hlines]

/-- A load that warns has nothing else to it, and the notice names the rule file. -/
theorem load_eq_ok (h : f.load directory file = .ok (g, notices)) :
    notices = [] ∨
      g = f ∧ ∃ fault, notices = [.unreadRules (directory.child ruleFileName) fault] := by
  unfold load at h
  split at h
  · split at h
    · split at h
      · cases h
        exact .inr ⟨rfl, _, rfl⟩
      · split at h
        · cases h
        · split at h <;> cases h
          exact .inl rfl
    · cases h
      exact .inl rfl
  · cases h
    exact .inl rfl

end PathFilter

end Ignore

/-! ### Walks -/

def Path.isGone (root : Path) (gone : List Text → Bool) (file : Path) : Bool :=
  (file.below? root).any gone

def Notice.tells (root : Path) (gone : List Text → Bool) (n : Notice) : Bool :=
  n.ruleFile?.any (root.isGone gone)

def Visit.tells (root : Path) (gone : List Text → Bool) (visit : Visit) : Bool :=
  visit.ruleFile?.any (root.isGone gone)

theorem Path.isGone_ruleFile (root : Path) (gone : List Text → Bool) (parts : List Text) :
    root.isGone gone ((root.extend parts).child ruleFileName) = gone (parts ++ [ruleFileName]) := by
  have hchild : (root.extend parts).child ruleFileName = root.extend (parts ++ [ruleFileName]) := by
    simp only [extend, child, List.append_assoc]
  rw [isGone, hchild, below?_extend]
  rfl

theorem Path.isGone_ruleFile_self (root : Path) (gone : List Text → Bool) :
    root.isGone gone (root.child ruleFileName) = gone [ruleFileName] := by
  have hfile := isGone_ruleFile root gone []
  rwa [extend_nil, List.nil_append] at hfile

namespace Walk

def silence (root : Path) (gone : List Text → Bool) (w : Walk) : Walk :=
  { w with visits := w.visits.filter fun visit => !visit.tells root gone }

variable {root : Path} {wanted parts : List Text} {f : PathFilter}

theorem silence_andThen {w : Walk} {next next' : PathFilter → Walk}
    (h : ∀ g, w.ending = .ok g → next' g = (next g).silence root gone) :
    (w.silence root gone).andThen next' = (w.andThen next).silence root gone := by
  obtain ⟨visits, fault | g⟩ := w
  · rfl
  · simp only [andThen, silence, h g rfl, List.filter_append]

theorem enter_without {entries : Listing} (nested : f.nested = true) (hne : parts ≠ [])
    (ordered : entries.Ordered)
    (undecoded : gone (parts ++ [ruleFileName]) = true → entries.Undecoded) :
    enter f parts (entries.without fun below => gone (parts ++ below)) =
      (enter f parts entries).silence f.root gone := by
  have hload : f.nested ∧ f.root.extend parts ≠ f.root := ⟨nested, Path.extend_ne_self hne⟩
  have hfile := Path.isGone_ruleFile f.root gone parts
  unfold enter
  cases hgone : gone (parts ++ [ruleFileName]) with
  | true =>
    -- The filter stays as it is, with a file that tells a fault and with no file.
    obtain ⟨fault, hundecoded⟩ := PathFilter.load_undecoded hload (undecoded hgone)
    rw [hundecoded, (undecoded hgone).find?_without ordered hgone]
    have hnone : f.load (f.root.extend parts) none = .ok (f, []) := by
      unfold PathFilter.load
      split <;> rfl
    rw [hnone]
    simp [silence, Visit.tells, Visit.ruleFile?, Notice.ruleFile?, hfile, hgone]
  | false =>
    rw [PathFilter.load_eq (Listing.ruleFile_without ordered hgone)]
    rcases hfound : f.load (f.root.extend parts) (entries.find? ruleFileName) with
      fault | ⟨g, notices⟩
    · rfl
    · rcases PathFilter.load_eq_ok hfound with rfl | ⟨-, fault, rfl⟩
      · rfl
      · simp [silence, Visit.tells, Visit.ruleFile?, Notice.ruleFile?, hfile, hgone]

theorem selects_ruleFile (bare : [] ∉ wanted) (f : PathFilter) (parts : List Text) :
    selects wanted f parts ruleFileName = false := by
  have hsuffix : Text.lower (Path.suffix ruleFileName) = [] := rfl
  have hwanted : wanted.contains [] = false := by simpa using bare
  simp only [selects, hsuffix, hwanted, Bool.and_false, Bool.false_and]

theorem through_file {name : Text} (h : selects wanted f parts name = false) (content : Bytes)
    (rest : Listing) :
    through wanted parts f (.file name content rest) = through wanted parts f rest := by
  rw [through, if_neg (by simp [h])]
  rfl

/-- A walk through a listing without files that are gone is the walk through the listing, less what
it tells of them. -/
theorem through_without {l : Listing} (nested : f.nested = true) (ordered : l.Ordered)
    (bare : [] ∉ wanted) (names : ∀ parts, gone parts = true → parts.getLast? = some ruleFileName)
    (loses : l.Loses gone parts) :
    through wanted parts f (l.without fun below => gone (parts ++ below)) =
      (through wanted parts f l).silence f.root gone := by
  induction l generalizing parts f with
  | nil => rfl
  | file name content rest ih =>
    have loses : ((Node.file content).cons name rest).Loses gone parts := loses
    have hrest := ih nested ordered.2 loses.later
    rw [Listing.without]
    split
    · next hgone =>
      -- A file that is gone was not read: the name of a rule file has no suffix.
      have hname := names _ hgone
      rw [List.getLast?_concat, Option.some.injEq] at hname
      subst hname
      rw [hrest, through_file (selects_ruleFile bare f parts)]
    · rw [through, through, hrest]
      simp only [silence, List.filter_append]
      split <;> rfl
  | directory name entries rest below ih =>
    have loses : ((Node.directory entries).cons name rest).Loses gone parts := loses
    have hne : parts ++ [name] ≠ [] := List.append_ne_nil_of_right_ne_nil _ (List.cons_ne_nil _ _)
    have hentries : (entries.without fun below => gone (parts ++ name :: below)) =
        entries.without fun below => gone (parts ++ [name] ++ below) := by
      simp only [List.append_assoc, List.singleton_append]
    -- The filter that goes on has other rules, but the root is the same.
    have hrest : ∀ g : PathFilter, g.nested = true → g.root = f.root →
        through wanted parts g (rest.without fun below => gone (parts ++ below)) =
          (through wanted parts g rest).silence f.root gone := by
      intro g nested hroot
      rw [← hroot]
      exact ih nested ordered.2.2 loses.later
    have hbelow : ∀ g : PathFilter, g.nested = true → g.root = f.root →
        through wanted (parts ++ [name]) g
            (entries.without fun below => gone (parts ++ [name] ++ below)) =
          (through wanted (parts ++ [name]) g entries).silence f.root gone := by
      intro g nested hroot
      rw [← hroot]
      exact below nested ordered.2.1 loses.below
    rw [Listing.without, hentries, through, through]
    split
    · dsimp only
      rw [enter_without nested hne ordered.2.1 loses.here, silence_andThen, silence_andThen]
      · intro g hg
        obtain ⟨added, rfl⟩ := entered_adds hne nested hg
        exact hrest _ nested rfl
      · intro g hg
        obtain rfl := enter_ending nested hne hg
        exact hbelow _ nested rfl
    · exact hrest f nested rfl

/-! ### Warnings that go -/

def goneFiles (root : Path) (gone : List Text → Bool) (directories : List (List Text)) :
    List Path :=
  (directories.filter fun directory => gone (directory ++ [ruleFileName])).map fun directory =>
    (root.extend directory).child ruleFileName

theorem goneFiles_append (root : Path) (gone : List Text → Bool) (first second : List (List Text)) :
    goneFiles root gone (first ++ second) =
      goneFiles root gone first ++ goneFiles root gone second := by
  rw [goneFiles, List.filter_append, List.map_append, goneFiles, goneFiles]

theorem unread_andThen_onward (w : Walk) (next : PathFilter → Walk) :
    (w.andThen next).unread = w.unread ++ w.onward fun g => (next g).unread := by
  obtain ⟨visits, fault | g⟩ := w
  · exact (List.append_nil _).symm
  · exact List.filterMap_append

theorem filter_onward {w : Walk} {unread : PathFilter → List Path}
    {entered : PathFilter → List (List Text)}
    (h : ∀ g, w.ending = .ok g → (unread g).filter (root.isGone gone) =
      goneFiles root gone (entered g)) :
    (w.onward unread).filter (root.isGone gone) = goneFiles root gone (w.onward entered) := by
  obtain ⟨visits, fault | g⟩ := w
  · rfl
  · exact h g rfl

theorem filter_unread_enter {entries : Listing} (nested : f.nested = true) (hne : parts ≠ [])
    (undecoded : gone (parts ++ [ruleFileName]) = true → entries.Undecoded) :
    (enter f parts entries).unread.filter (f.root.isGone gone) = goneFiles f.root gone [parts] := by
  have hload : f.nested ∧ f.root.extend parts ≠ f.root := ⟨nested, Path.extend_ne_self hne⟩
  have hfile := Path.isGone_ruleFile f.root gone parts
  cases hgone : gone (parts ++ [ruleFileName]) with
  | true =>
    obtain ⟨fault, hundecoded⟩ := PathFilter.load_undecoded hload (undecoded hgone)
    unfold enter
    rw [hundecoded]
    simp [unread, Visit.ruleFile?, Notice.ruleFile?, goneFiles, hfile, hgone]
  | false =>
    rcases unread_enter f parts entries with h | h <;> rw [h] <;> simp [goneFiles, hfile, hgone]

theorem filter_unread_through {l : Listing} (nested : f.nested = true)
    (loses : l.Loses gone parts) :
    (through wanted parts f l).unread.filter (f.root.isGone gone) =
      goneFiles f.root gone (entered wanted parts f l) := by
  induction l generalizing parts f with
  | nil => rfl
  | file name content rest ih =>
    rw [unread_through_file]
    have loses : ((Node.file content).cons name rest).Loses gone parts := loses
    exact ih nested loses.later
  | directory name entries rest below ih =>
    have loses : ((Node.directory entries).cons name rest).Loses gone parts := loses
    have hne : parts ++ [name] ≠ [] := List.append_ne_nil_of_right_ne_nil _ (List.cons_ne_nil _ _)
    cases henters : enters f parts name with
    | false =>
      rw [through_passed henters, entered, if_neg (by simp [henters])]
      exact ih nested loses.later
    | true =>
      have hhere : gone (parts ++ [name] ++ [ruleFileName]) = true → entries.Undecoded := loses.here
      rw [through, if_pos henters, entered, if_pos henters]
      dsimp only
      -- A rule below may break the walk off, so what is entered goes on from the same filters.
      have hinner : ((enter f (parts ++ [name]) entries).onward fun g =>
            (through wanted (parts ++ [name]) g entries).unread).filter (f.root.isGone gone) =
          goneFiles f.root gone ((enter f (parts ++ [name]) entries).onward fun g =>
            entered wanted (parts ++ [name]) g entries) := by
        apply filter_onward
        intro g hg
        obtain rfl := enter_ending nested hne hg
        exact below (f := f.adding _) nested loses.below
      have hafter : (((enter f (parts ++ [name]) entries).andThen fun g =>
              through wanted (parts ++ [name]) g entries).onward fun g =>
            (through wanted parts g rest).unread).filter (f.root.isGone gone) =
          goneFiles f.root gone (((enter f (parts ++ [name]) entries).andThen fun g =>
              through wanted (parts ++ [name]) g entries).onward fun g =>
            entered wanted parts g rest) := by
        apply filter_onward
        intro g hg
        obtain ⟨added, rfl⟩ := entered_adds hne nested hg
        exact ih (f := f.adding added) nested loses.later
      rw [unread_andThen_onward, unread_andThen_onward, List.filter_append, List.filter_append,
        filter_unread_enter nested hne hhere, hinner, hafter, ← goneFiles_append,
        ← goneFiles_append]
      rfl

end Walk

end DqlScan
