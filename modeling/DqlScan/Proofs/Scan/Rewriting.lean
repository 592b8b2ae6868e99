import DqlScan.Proofs.File.Rewriting
import DqlScan.Proofs.Scan.Unseen

/-!
# Walks through rewritten files

A walk takes nothing but rules from the contents of files. So where other files change, it visits the
same files with their new contents (`ofRoot_mapContents`).
-/

namespace DqlScan

open Ignore

def Visit.mapContent (g : List Text → Bytes → Bytes) : Visit → Visit
  | .notice n => .notice n
  | .file parts content => .file parts (g parts content)

namespace Walk

variable {g : List Text → Bytes → Bytes}

def mapContents (g : List Text → Bytes → Bytes) (w : Walk) : Walk :=
  { w with visits := w.visits.map (·.mapContent g) }

theorem mapContents_andThen (g : List Text → Bytes → Bytes) (w : Walk) (next : PathFilter → Walk) :
    (w.andThen next).mapContents g =
      (w.mapContents g).andThen fun f => (next f).mapContents g := by
  obtain ⟨visits, fault | f⟩ := w
  · rfl
  · simp only [andThen, mapContents, List.map_append]

theorem mapContents_notices (g : List Text → Bytes → Bytes) (notices : List Notice)
    (ending : Except LoadFault PathFilter) :
    (Walk.mk (notices.map .notice) ending).mapContents g = ⟨notices.map .notice, ending⟩ := by
  simp only [mapContents, List.map_map]
  rfl

/-- Rule files have the contents that they had. -/
def KeepsRules (g : List Text → Bytes → Bytes) : Prop :=
  ∀ parts content, g (parts ++ [ruleFileName]) content = content

theorem KeepsRules.ruleFile (keeps : KeepsRules g) (place : List Text) (entries : Listing) :
    ((entries.mapContents fun below => g (place ++ below)).find? ruleFileName).map Node.content =
      (entries.find? ruleFileName).map Node.content := by
  rw [Listing.find?_mapContents]
  rcases entries.find? ruleFileName with _ | node
  · rfl
  cases node with
  | file content =>
    show some (Except.ok (g (place ++ [ruleFileName]) content)) = some (.ok content)
    rw [keeps]
  | directory below => rfl

theorem enter_mapContents (keeps : KeepsRules g) (f : PathFilter) (parts : List Text)
    (entries : Listing) :
    enter f parts (entries.mapContents fun below => g (parts ++ below)) =
      (enter f parts entries).mapContents g := by
  unfold enter
  rw [PathFilter.load_eq (keeps.ruleFile parts entries)]
  rcases f.load (f.root.extend parts) (entries.find? ruleFileName) with fault | ⟨f, notices⟩
  · rfl
  · exact (mapContents_notices g notices _).symm

theorem through_mapContents (keeps : KeepsRules g) (wanted parts : List Text) (f : PathFilter)
    (l : Listing) :
    through wanted parts f (l.mapContents fun below => g (parts ++ below)) =
      (through wanted parts f l).mapContents g := by
  induction l generalizing parts f with
  | nil => rfl
  | file name content rest ih =>
    rw [Listing.mapContents, through, through, ih]
    simp only [mapContents, List.map_append]
    split <;> rfl
  | directory name entries rest below ih =>
    have hentries : (entries.mapContents fun below => g (parts ++ name :: below)) =
        entries.mapContents fun below => g (parts ++ [name] ++ below) := by
      simp only [List.append_assoc, List.singleton_append]
    rw [Listing.mapContents, through, through]
    split
    · dsimp only
      rw [hentries, enter_mapContents keeps, mapContents_andThen, mapContents_andThen]
      simp only [below, ih]
    · exact ih parts f

variable {fs : FileSystem} {root : Path}

theorem ofFilter_mapContents (keeps : KeepsRules g) (fs : FileSystem) (wanted : List Text)
    (f : PathFilter) :
    ofFilter (fs.mapContents g) wanted f =
      (ofFilter fs wanted f).mapContents fun parts => g (fs.place f.root ++ parts) := by
  have hkeeps : KeepsRules fun parts => g (fs.place f.root ++ parts) := by
    intro parts content
    show g (fs.place f.root ++ (parts ++ [ruleFileName])) content = content
    rw [← List.append_assoc, keeps]
  unfold ofFilter
  rw [FileSystem.list_mapContents]
  rcases fs.list f.root with fault | tree
  · rfl
  · exact through_mapContents hkeeps wanted [] f tree

theorem ofDirectory_mapContents (keeps : KeepsRules g) (fs : FileSystem) (root : Path) :
    PathFilter.ofDirectory (fs.mapContents g) root true = PathFilter.ofDirectory fs root true := by
  unfold PathFilter.ofDirectory
  rcases htree : fs.list root with fault | tree
  · have htree' : (fs.mapContents g).list root = .error fault := by
      rw [FileSystem.list_mapContents, htree]
      rfl
    have hfile : (fs.mapContents g).find? (root.child ruleFileName) =
        fs.find? (root.child ruleFileName) :=
      FileSystem.find?_eq_of_list_error htree' htree (by decide) (by decide)
    simp only [PathFilter.ruleFile, hfile]
  · have htree' : (fs.mapContents g).list root =
        .ok (tree.mapContents fun below => g (fs.place root ++ below)) := by
      rw [FileSystem.list_mapContents, htree]
      rfl
    rw [ruleFile_of_below (FileSystem.below_of_list htree'),
      ruleFile_of_below (FileSystem.below_of_list htree)]
    by_cases hfits : (root.child ruleFileName).fits = true
    · rw [if_pos hfits, if_pos hfits]
      dsimp only
      rw [PathFilter.ofRoot_eq (keeps.ruleFile _ tree)]
    · rw [if_neg hfits, if_neg hfits]

/-- A walk on rewritten files is the walk on the files as they were, rewritten. -/
theorem ofRoot_mapContents (keeps : KeepsRules g) (fs : FileSystem) (root : Path)
    (wanted : List Text) :
    ofRoot (fs.mapContents g) root wanted =
      (ofRoot fs root wanted).mapContents fun parts => g (fs.place root ++ parts) := by
  unfold ofRoot
  rw [ofDirectory_mapContents keeps]
  rcases hfilter : PathFilter.ofDirectory fs root true with fault | ⟨f, notices⟩
  · rfl
  have hroot : f.root = root := PathFilter.root_ofDirectory hfilter
  dsimp only
  rw [mapContents_andThen, mapContents_notices]
  apply andThen_congr
  intro g' hg'
  cases hg'
  rw [ofFilter_mapContents keeps, hroot]

end Walk

end DqlScan
