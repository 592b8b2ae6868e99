import DqlScan.Proofs.Except
import DqlScan.Proofs.Ignore.Loading
import DqlScan.Proofs.Scan.Silence

/-!
# Rule files that are not UTF-8

A rule file that is not UTF-8 is as good as none: a scan does the same without it, and only warns
less (`scanDirectory_without`).
-/

namespace DqlScan

open Ignore

/-- All that is gone are rule files that are not UTF-8. -/
def FileSystem.Undecoded (fs : FileSystem) (gone : List Text → Bool) : Prop :=
  ∀ place, gone place = true → place.getLast? = some ruleFileName ∧ ∃ content fault,
    fs.root.at? place = some (.file content) ∧ Utf8.decode content = .error fault

variable {gone : List Text → Bool}

namespace Ignore.PathFilter

variable {f g : PathFilter} {directory root : Path} {nested : Bool} {file : Option Node}
  {notices : List Notice} {l : Listing}

theorem ofRoot_undecoded (root : Path) (nested : Bool) (undecoded : l.Undecoded) :
    ∃ fault, ofRoot root nested (l.find? ruleFileName) =
      .ok ({ root, nested }, [.unreadRules (root.child ruleFileName) fault]) := by
  obtain ⟨content, fault, hfind, hdecode⟩ := undecoded
  obtain ⟨other, hlines⟩ := ruleLines_of_decode_error hdecode
  refine ⟨other, ?_⟩
  unfold ofRoot
  rw [hfind]
  dsimp only
  rw [hlines]

theorem ofRoot_notices (h : ofRoot root nested file = .ok (f, notices)) :
    notices = [] ∨ ∃ fault, notices = [.unreadRules (root.child ruleFileName) fault] := by
  unfold ofRoot at h
  split at h
  · cases h
    exact .inl rfl
  · split at h
    · cases h
      exact .inr ⟨_, rfl⟩
    · obtain ⟨rules, -, heq⟩ := map_eq_ok.mp h
      cases heq
      exact .inl rfl

/-- An attempt to load a directory that warns or fails leaves the filter as it is. -/
theorem afterLoad_eq_self {fs : FileSystem} (h : ∀ g, f.loadAt fs directory ≠ .ok (g, [])) :
    f.afterLoad fs directory = f := by
  unfold afterLoad
  rcases hload : f.loadAt fs directory with fault | ⟨g, notices⟩
  · rfl
  rw [hload] at h
  unfold loadAt at hload
  split at hload
  · split at hload
    · cases hload
    · rcases load_eq_ok hload with rfl | ⟨heq, -⟩
      · exact absurd rfl (h g)
      · exact heq
  · cases hload
    rfl

end Ignore.PathFilter

/-! ### Roots -/

namespace FileSystem

variable {fs : FileSystem} {root : Path} {tree : Listing}

theorem Undecoded.entries (undecoded : fs.Undecoded gone) {place : List Text} {node : Node}
    (hat : fs.root.at? place = some node) (hgone : gone (place ++ [ruleFileName]) = true) :
    node.entries.Undecoded := by
  obtain ⟨-, content, fault, hfile, hdecode⟩ := undecoded _ hgone
  refine ⟨content, fault, ?_, hdecode⟩
  have hbelow : (fs.root.at? place).bind (·.at? [ruleFileName]) = some (.file content) :=
    (Node.at?_append ..).symm.trans hfile
  rw [hat] at hbelow
  have hfound : (node.entries.find? ruleFileName).bind (·.at? []) = some (.file content) := hbelow
  obtain ⟨found, hfind, heq⟩ := Option.bind_eq_some_iff.mp hfound
  cases heq
  exact hfind

theorem at?_place (htree : fs.list root = .ok tree) :
    fs.root.at? (fs.place root) = some (.directory tree) :=
  at?_resolve .root (list_eq_ok.mp htree).2

theorem Undecoded.listed (undecoded : fs.Undecoded gone) (htree : fs.list root = .ok tree)
    (hgone : gone (fs.place root ++ [ruleFileName]) = true) : tree.Undecoded :=
  undecoded.entries (at?_place htree) hgone

theorem Undecoded.loses (undecoded : fs.Undecoded gone) (ordered : fs.root.Ordered)
    (htree : fs.list root = .ok tree) :
    tree.Loses (fun parts => gone (fs.place root ++ parts)) [] := by
  intro entry hentry hgone
  have hat : fs.root.at? (fs.place root ++ entry.1) = some entry.2 := by
    rw [Listing.at?_append (at?_place htree)]
    exact ((Listing.mem_nodes (ordered_list ordered htree)).mp hentry).2
  apply undecoded.entries hat
  simpa using hgone

theorem Undecoded.getLast? (undecoded : fs.Undecoded gone) (htree : fs.list root = .ok tree)
    (parts : List Text) (hgone : gone (fs.place root ++ parts) = true) :
    parts.getLast? = some ruleFileName := by
  obtain ⟨hlast, content, fault, hfile, -⟩ := undecoded _ hgone
  cases parts with
  | nil =>
    rw [List.append_nil, at?_place htree] at hfile
    cases hfile
  | cons name parts => rwa [List.getLast?_append_cons] at hlast

end FileSystem

namespace Walk

variable {fs : FileSystem} {root : Path} {wanted : List Text}

/-- The directories whose rules a walk from a root loads, the root among them. -/
def loadedFrom (fs : FileSystem) (root : Path) (wanted : List Text) : List (List Text) :=
  match PathFilter.ofDirectory fs root true, fs.list root with
  | .ok (f, _), .ok tree => [] :: entered wanted [] f tree
  | _, _ => []

theorem ruleFile_of_below_error {fault : AccessFault} (h : fs.below root = .error fault) :
    PathFilter.ruleFile fs root = .error (.access (root.child ruleFileName) .nameTooLong) := by
  have hlist : fs.list root = .error fault := by
    unfold FileSystem.below at h
    split at h
    · cases h
    · cases h
    · cases h
    · next hlist =>
      cases h
      exact hlist
  rcases FileSystem.list_error hlist with hnowhere | ⟨-, hlong⟩
  · rw [FileSystem.below_of_nowhere hlist hnowhere] at h
    cases h
  · rw [PathFilter.ruleFile, hlong]
    rfl

theorem ofRoot_of_below {tree : Listing} {made : PathFilter × List Notice}
    (h : fs.below root = .ok tree) (hmade : PathFilter.ofDirectory fs root true = .ok made) :
    PathFilter.ofRoot root true (tree.find? ruleFileName) = .ok made := by
  unfold PathFilter.ofDirectory at hmade
  rw [ruleFile_of_below h] at hmade
  by_cases hfits : (root.child ruleFileName).fits = true
  · rw [if_pos hfits] at hmade
    dsimp only at hmade
    rcases hloaded : PathFilter.ofRoot root true (tree.find? ruleFileName) with fault | loaded <;>
      rw [hloaded] at hmade <;> cases hmade
    rfl
  · rw [if_neg hfits] at hmade
    cases hmade

theorem notices_of_list_error {fault : AccessFault} (h : fs.list root = .error fault)
    {f : PathFilter} {notices : List Notice}
    (hmade : PathFilter.ofDirectory fs root true = .ok (f, notices)) : notices = [] := by
  rcases hbelow : fs.below root with other | tree
  · rw [PathFilter.ofDirectory, ruleFile_of_below_error hbelow] at hmade
    cases hmade
  · rcases FileSystem.below_eq_ok hbelow with hlist | ⟨rfl, -⟩
    · rw [hlist] at h
      cases h
    · cases ofRoot_of_below hbelow hmade
      rfl

theorem ofDirectory_without (ordered : fs.root.Ordered) (undecoded : fs.Undecoded gone)
    (root : Path) :
    PathFilter.ofDirectory (fs.without gone) root true =
      (PathFilter.ofDirectory fs root true).map fun made => (made.1, made.2.filter fun n =>
        !n.tells root fun parts => gone (fs.place root ++ parts)) := by
  have hwithout := FileSystem.below_without ordered gone root
  have hfile := Path.isGone_ruleFile_self root fun parts => gone (fs.place root ++ parts)
  unfold PathFilter.ofDirectory
  rcases hbelow : fs.below root with fault | tree <;> rw [hbelow] at hwithout
  · -- The path is too long to be looked up in either tree.
    rw [ruleFile_of_below_error hbelow, ruleFile_of_below_error hwithout]
    rfl
  rw [ruleFile_of_below hbelow, ruleFile_of_below hwithout]
  by_cases hfits : (root.child ruleFileName).fits = true
  swap
  · rw [if_neg hfits, if_neg hfits]
    rfl
  rw [if_pos hfits, if_pos hfits]
  dsimp only
  rcases FileSystem.below_eq_ok hbelow with hlist | ⟨rfl, -⟩
  swap
  · rfl
  have order : tree.Ordered := FileSystem.ordered_list ordered hlist
  cases hgone : gone (fs.place root ++ [ruleFileName]) with
  | true =>
    have htree := undecoded.listed hlist hgone
    obtain ⟨fault, hundecoded⟩ := PathFilter.ofRoot_undecoded root true htree
    rw [hundecoded, htree.find?_without order hgone]
    simp [PathFilter.ofRoot, Except.map, Except.mapError, Notice.tells, Notice.ruleFile?, hfile,
      hgone]
  | false =>
    rw [PathFilter.ofRoot_eq (Listing.ruleFile_without order hgone)]
    rcases hmade : PathFilter.ofRoot root true (tree.find? ruleFileName) with fault | ⟨f, notices⟩
    · rfl
    · rcases PathFilter.ofRoot_notices hmade with rfl | ⟨fault, rfl⟩
      · rfl
      · simp [Except.map, Except.mapError, Notice.tells, Notice.ruleFile?, hfile, hgone]

theorem silence_notices (root : Path) (gone : List Text → Bool) (notices : List Notice) (w : Walk) :
    (Walk.mk (notices.map .notice ++ w.visits) w.ending).silence root gone =
      ⟨(notices.filter fun n => !n.tells root gone).map .notice ++ (w.silence root gone).visits,
        w.ending⟩ := by
  rw [silence, silence, List.filter_append, List.filter_map]
  rfl

/-- A walk without files that are gone is the walk as it was, less what it told of them. Only of a
root that is such a file, or is sought below one, it tells another reason why it cannot be listed. -/
theorem ofRoot_without (ordered : fs.root.Ordered) (undecoded : fs.Undecoded gone)
    (bare : [] ∉ wanted) (root : Path) :
    ofRoot (fs.without gone) root wanted =
        (ofRoot fs root wanted).silence root (fun parts => gone (fs.place root ++ parts)) ∨
      FileSystem.Meets gone [] (fs.absolute root) ∧ ∃ f,
        ofRoot fs root wanted = ⟨[.notice (.unlisted root .notDirectory)], .ok f⟩ ∧
        ofRoot (fs.without gone) root wanted = ⟨[.notice (.unlisted root .missing)], .ok f⟩ := by
  unfold ofRoot
  rw [ofDirectory_without ordered undecoded]
  rcases hmade : PathFilter.ofDirectory fs root true with fault | ⟨f, notices⟩
  · exact .inl rfl
  have hf := PathFilter.ofDirectory_eq_ok hmade
  have hroot : f.root = root := by rw [hf]
  dsimp only [Except.map]
  rw [andThen_of_ok rfl, andThen_of_ok rfl]
  unfold ofFilter
  rw [hroot]
  rcases FileSystem.list_without ordered gone root with hsame | ⟨hmeets, hmissing, hfile⟩
  · left
    rw [hsame]
    -- What the filter tells comes first in both walks.
    rcases hlist : fs.list root with fault | tree
    · exact (silence_notices root _ notices ⟨[.notice (.unlisted root fault)], .ok f⟩).symm
    have hthrough : through wanted [] f (tree.without fun parts => gone (fs.place root ++ parts)) =
        (through wanted [] f tree).silence f.root fun parts => gone (fs.place root ++ parts) :=
      through_without (by rw [hf]) (FileSystem.ordered_list ordered hlist) bare
        (undecoded.getLast? hlist) (undecoded.loses ordered hlist)
    rw [hroot] at hthrough
    dsimp only [Except.map]
    rw [hthrough]
    exact (silence_notices root _ notices (through wanted [] f tree)).symm
  · right
    rw [notices_of_list_error hfile hmade, hmissing, hfile]
    exact ⟨hmeets, f, rfl, rfl⟩

theorem filter_ruleFiles (undecoded : fs.Undecoded gone) {tree : Listing}
    (htree : fs.list root = .ok tree) {f : PathFilter} {notices : List Notice}
    (hmade : PathFilter.ofDirectory fs root true = .ok (f, notices)) :
    (notices.filterMap (·.ruleFile?)).filter
        (root.isGone fun parts => gone (fs.place root ++ parts)) =
      goneFiles root (fun parts => gone (fs.place root ++ parts)) [[]] := by
  have hloaded := ofRoot_of_below (FileSystem.below_of_list htree) hmade
  have hfile := Path.isGone_ruleFile_self root fun parts => gone (fs.place root ++ parts)
  cases hgone : gone (fs.place root ++ [ruleFileName]) with
  | true =>
    obtain ⟨fault, hundecoded⟩ :=
      PathFilter.ofRoot_undecoded root true (undecoded.listed htree hgone)
    rw [hundecoded] at hloaded
    cases hloaded
    simp [Notice.ruleFile?, goneFiles, Path.extend_nil, hfile, hgone]
  | false =>
    rcases PathFilter.ofRoot_notices hloaded with rfl | ⟨fault, rfl⟩ <;>
      simp [Notice.ruleFile?, goneFiles, hfile, hgone]

theorem filter_unread_ofRoot (ordered : fs.root.Ordered) (undecoded : fs.Undecoded gone)
    (root : Path) (wanted : List Text) :
    (ofRoot fs root wanted).unread.filter
        (root.isGone fun parts => gone (fs.place root ++ parts)) =
      goneFiles root (fun parts => gone (fs.place root ++ parts)) (loadedFrom fs root wanted) := by
  unfold ofRoot loadedFrom
  rcases hmade : PathFilter.ofDirectory fs root true with fault | ⟨f, notices⟩
  · rfl
  have hf := PathFilter.ofDirectory_eq_ok hmade
  have hroot : f.root = root := by rw [hf]
  have hunread : ∀ w : Walk, (Walk.mk (notices.map .notice ++ w.visits) w.ending).unread =
      notices.filterMap (·.ruleFile?) ++ w.unread := by
    intro w
    rw [← unread_notices notices w.ending]
    exact List.filterMap_append
  dsimp only
  rw [andThen_of_ok rfl, hunread, ofFilter, hroot]
  rcases hlist : fs.list root with fault | tree
  · rw [notices_of_list_error hlist hmade]
    rfl
  have hthrough : (through wanted [] f tree).unread.filter
        (f.root.isGone fun parts => gone (fs.place root ++ parts)) =
      goneFiles f.root (fun parts => gone (fs.place root ++ parts)) (entered wanted [] f tree) :=
    filter_unread_through (by rw [hf]) (undecoded.loses ordered hlist)
  rw [hroot] at hthrough
  dsimp only
  rw [List.filter_append, hthrough, filter_ruleFiles undecoded hlist hmade, ← goneFiles_append]
  rfl

end Walk

/-! ### Scans -/

theorem Text.lower_eq_nil {t : Text} (h : lower t = []) : t = [] := by
  cases t with
  | nil => rfl
  | cons c rest =>
    have hhere := (List.append_eq_nil_iff.mp h).1
    split at hhere
    · cases hhere
    · split at hhere <;> cases hhere

namespace DirectoryScan

variable {root : Path}

theorem filter_notices_ofVisit (root : Path) (gone : List Text → Bool) (visit : Visit) :
    (Outcome.ofVisit visit).notices.filter (fun n => !n.tells root gone) =
      if visit.tells root gone then [] else (Outcome.ofVisit visit).notices := by
  cases visit with
  | notice n =>
    show [n].filter _ = if n.tells root gone then [] else [n]
    cases h : n.tells root gone <;> simp [h]
  | file parts content =>
    have hnone := Outcome.filterMap_notices (.file parts content)
    apply List.filter_eq_self.mpr
    intro n hn
    have hrule : n.ruleFile? = none := List.filterMap_eq_nil_iff.mp hnone n hn
    rw [Notice.tells, hrule]
    rfl

theorem notices_silence (w : Walk) (root : Path) (gone : List Text → Bool) :
    (ofWalk (w.silence root gone)).notices =
      (ofWalk w).notices.filter fun n => !n.tells root gone := by
  obtain ⟨visits, ending⟩ := w
  simp only [notices, ofWalk, Walk.silence, List.flatMap_map]
  induction visits with
  | nil => rfl
  | cons visit visits ih =>
    rw [List.flatMap_cons, List.filter_append, filter_notices_ofVisit, ← ih, List.filter_cons]
    cases visit.tells root gone <;> rfl

theorem files_silence (w : Walk) (root : Path) (gone : List Text → Bool) :
    (w.silence root gone).files = w.files := by
  obtain ⟨visits, ending⟩ := w
  simp only [Walk.files, Walk.silence, List.filterMap_filter]
  congr 1
  funext visit
  cases visit with
  | notice n => exact ite_self _
  | file parts content => rfl

/-- A walk that tells less of rule files gives the same scan, which tells less of them. -/
theorem ofWalk_silence (w : Walk) (root : Path) (gone : List Text → Bool) :
    let s := ofWalk w
    let s' := ofWalk (w.silence root gone)
    s'.result = s.result ∧ s'.seen = s.seen ∧ s'.fault = s.fault ∧
      s'.notices = s.notices.filter fun n => !n.tells root gone := by
  intro s s'
  have hreads : s'.reads = s.reads := by
    rw [reads_ofWalk, files_silence]
    exact (reads_ofWalk w).symm
  obtain ⟨hresult, hseen⟩ := result_of_reads hreads
  exact ⟨hresult, hseen, rfl, notices_silence w root gone⟩

theorem map_tells (notices : List Notice) (root : Path) (gone : List Text → Bool) :
    (notices.filter (·.tells root gone)).map (fun n => (n.level, n.ruleFile?)) =
      ((notices.filterMap (·.ruleFile?)).filter (root.isGone gone)).map fun file =>
        (Level.warning, some file) := by
  induction notices with
  | nil => rfl
  | cons n notices ih =>
    cases n with
    | unreadRules file fault =>
      cases hgone : root.isGone gone file <;>
        simpa [Notice.tells, Notice.ruleFile?, Notice.level, hgone] using ih
    | unterminated | unlisted | unreadFile => exact ih

end DirectoryScan

/-- A scan does the same without rule files that are not UTF-8, with one warning less for each of
them in a directory whose rules it loads. Only of a root that is such a file, or is sought below one,
it tells another reason why it cannot be listed. A filter is not changed by an attempt to load that
warns or fails. -/
theorem scanDirectory_without {fs : FileSystem} (ordered : fs.root.Ordered)
    (undecoded : fs.Undecoded gone) (root : Path) (suffixes : Option (List Text))
    (bare : [] ∉ suffixes.getD Language.suffixes) :
    let s := scanDirectory fs root suffixes
    let s' := scanDirectory (fs.without gone) root suffixes
    let wanted := (suffixes.getD Language.suffixes).map Text.lower
    let below := fun parts => gone (fs.place root ++ parts)
    let told := Walk.goneFiles root below (Walk.loadedFrom fs root wanted)
    s'.result = s.result ∧ s'.seen = s.seen ∧ s'.fault = s.fault ∧
      (s'.notices = s.notices.filter (fun n => !n.tells root below) ∨
        FileSystem.Meets gone [] (fs.absolute root) ∧ s.notices = [.unlisted root .notDirectory] ∧
          s'.notices = [.unlisted root .missing]) ∧
      (s.notices.filter (·.tells root below)).map (fun n => (n.level, n.ruleFile?)) =
        told.map (fun file => (.warning, some file)) ∧ told.Nodup ∧
      ∀ (f : PathFilter) (directory : Path), (∀ g, f.loadAt fs directory ≠ .ok (g, [])) →
        f.afterLoad fs directory = f := by
  intro s s' wanted below told
  have hbare : [] ∉ wanted := by
    rintro hmem
    obtain ⟨suffix, hsuffix, hlower⟩ := List.mem_map.mp hmem
    exact bare (Text.lower_eq_nil hlower ▸ hsuffix)
  -- A scan tells of rule files what its walk does, where each of them is told of once.
  have htold : (Walk.ofRoot fs root wanted).unread.filter (root.isGone below) = told :=
    Walk.filter_unread_ofRoot ordered undecoded root wanted
  have hunread : s.notices.filterMap (·.ruleFile?) = (Walk.ofRoot fs root wanted).unread :=
    DirectoryScan.unread_ofWalk _
  have hmap : (s.notices.filter (·.tells root below)).map (fun n => (n.level, n.ruleFile?)) =
      told.map (fun file => (.warning, some file)) := by
    rw [DirectoryScan.map_tells, hunread, htold]
  have hnodup : told.Nodup := by
    rw [← htold]
    exact (Walk.unread_ofRoot ordered).filter _
  have hload : ∀ (f : PathFilter) (directory : Path),
      (∀ g, f.loadAt fs directory ≠ .ok (g, [])) → f.afterLoad fs directory = f :=
    fun f directory => PathFilter.afterLoad_eq_self
  rcases Walk.ofRoot_without ordered undecoded hbare root with hsame | ⟨hmeets, f, hfile, hmissing⟩
  · have hs' : s' = .ofWalk ((Walk.ofRoot fs root wanted).silence root below) :=
      congrArg DirectoryScan.ofWalk hsame
    obtain ⟨hresult, hseen, hfault, hnotices⟩ :=
      DirectoryScan.ofWalk_silence (Walk.ofRoot fs root wanted) root below
    rw [hs']
    exact ⟨hresult, hseen, hfault, .inl hnotices, hmap, hnodup, hload⟩
  · have hs : s = .ofWalk ⟨[.notice (.unlisted root .notDirectory)], .ok f⟩ :=
      congrArg DirectoryScan.ofWalk hfile
    have hs' : s' = .ofWalk ⟨[.notice (.unlisted root .missing)], .ok f⟩ :=
      congrArg DirectoryScan.ofWalk hmissing
    rw [hs] at hmap ⊢
    rw [hs']
    exact ⟨rfl, rfl, rfl, .inr ⟨hmeets, rfl, rfl⟩, hmap, hnodup, hload⟩

def Listing.spoiled : Listing :=
  .file ruleFileName [0xFF]
    (.file "app.js".toList (Utf8.encode "'fetch logs'".toList)
      (.directory "src".toList
        (.file ruleFileName [0x2A, 0x0A, 0xC3, 0x28]
          (.file "gen.js".toList (Utf8.encode "'fetch events'".toList) .nil))
        .nil))

theorem scanDirectory_without_sample :
    let fs : FileSystem := ⟨.spoiled, []⟩
    let gone : List Text → Bool := fun place =>
      place = [ruleFileName] ∨ place = ["src".toList, ruleFileName]
    let root : Path := ⟨.root, []⟩
    let s := scanDirectory fs root none
    let s' := scanDirectory (fs.without gone) root none
    fs.root.Ordered ∧ fs.Undecoded gone ∧ [] ∉ Language.suffixes ∧
      s'.result = s.result ∧ s'.seen = s.seen ∧ s'.fault = s.fault ∧
      s.notices.length = 2 ∧ s'.notices.length = 0 := by
  intro fs gone root s s'
  have ordered : fs.root.Ordered := by decide
  have undecoded : fs.Undecoded gone := by
    intro place h
    rcases of_decide_eq_true h with rfl | rfl
    · exact ⟨rfl, _, _, rfl, rfl⟩
    · exact ⟨rfl, _, _, rfl, rfl⟩
  have bare : [] ∉ Language.suffixes := by decide
  obtain ⟨hresult, hseen, hfault, -⟩ := scanDirectory_without ordered undecoded root none bare
  exact ⟨ordered, undecoded, bare, hresult, hseen, hfault, by decide +kernel, by decide +kernel⟩

/-- Where the root is a rule file that is not UTF-8, a scan tells another reason without it. -/
theorem scanDirectory_without_root :
    let fs : FileSystem := ⟨.file ruleFileName [0xFF] .nil, []⟩
    let gone : List Text → Bool := fun place => place = [ruleFileName]
    let root : Path := ⟨.relative, [ruleFileName]⟩
    let failed := "WARNING Failed to list .gitignore: "
    fs.root.Ordered ∧ fs.Undecoded gone ∧ [] ∉ Language.suffixes ∧
      (scanDirectory fs root none).notices.map Notice.line =
        [(failed ++ "[Errno 20] Not a directory: '.gitignore'").toList] ∧
      (scanDirectory (fs.without gone) root none).notices.map Notice.line =
        [(failed ++ "[Errno 2] No such file or directory: '.gitignore'").toList] := by
  intro fs gone root failed
  have undecoded : fs.Undecoded gone := by
    intro place h
    obtain rfl := of_decide_eq_true h
    exact ⟨rfl, _, _, rfl, rfl⟩
  exact ⟨by decide, undecoded, by decide, by decide +kernel, by decide +kernel⟩

end DqlScan
