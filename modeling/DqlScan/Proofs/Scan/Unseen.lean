import DqlScan.Proofs.File.Place
import DqlScan.Proofs.Scan.Outcomes

/-!
# What a scan does not see

Two trees may differ beneath the directories that a scan does not enter, and in the contents of
files that it neither reads nor takes rules from. The scan does the same on both, if its root can be
found in both (`scanDirectory_indifferent`).
-/

namespace DqlScan

open Ignore

namespace Listing

/-- The same names, of files and of directories. Rule files and the files that are read have the
same contents, and the directories that are seen agree in what they hold. -/
def Agrees (sees reads : List Text → Prop) (parts : List Text) : Listing → Listing → Prop
  | .nil, .nil => True
  | .file name content rest, .file name' content' rest' =>
    name = name' ∧ (name = ruleFileName ∨ reads (parts ++ [name]) → content = content') ∧
      Agrees sees reads parts rest rest'
  | .directory name entries rest, .directory name' entries' rest' =>
    name = name' ∧ (sees (parts ++ [name]) → Agrees sees reads (parts ++ [name]) entries entries') ∧
      Agrees sees reads parts rest rest'
  | _, _ => False

end Listing

def Node.Agrees (sees reads : List Text → Prop) (parts : List Text) (name : Text) :
    Node → Node → Prop
  | .file content, .file content' =>
    name = ruleFileName ∨ reads (parts ++ [name]) → content = content'
  | .directory entries, .directory entries' =>
    sees (parts ++ [name]) → entries.Agrees sees reads (parts ++ [name]) entries'
  | _, _ => False

namespace Listing

variable {sees reads : List Text → Prop} {parts : List Text} {l l' : Listing}

theorem agrees_nil : Agrees sees reads parts .nil l' ↔ l' = .nil := by
  cases l' <;> simp [Agrees]

theorem agrees_cons (node : Node) {name : Text} {rest : Listing} :
    (node.cons name rest).Agrees sees reads parts l' ↔
      ∃ node' rest', l' = node'.cons name rest' ∧ node.Agrees sees reads parts name node' ∧
        rest.Agrees sees reads parts rest' := by
  constructor
  · intro h
    cases node with
    | file content =>
      cases l' with
      | nil => exact h.elim
      | directory name' entries' rest' => exact h.elim
      | file name' content' rest' =>
        obtain ⟨rfl, hcontent, hrest⟩ := h
        exact ⟨.file content', rest', rfl, hcontent, hrest⟩
    | directory entries =>
      cases l' with
      | nil => exact h.elim
      | file name' content' rest' => exact h.elim
      | directory name' entries' rest' =>
        obtain ⟨rfl, hentries, hrest⟩ := h
        exact ⟨.directory entries', rest', rfl, hentries, hrest⟩
  · intro h
    obtain ⟨node', rest', rfl, hnode, hrest⟩ := h
    cases node with
    | file content =>
      cases node' with
      | file content' => exact ⟨rfl, hnode, hrest⟩
      | directory entries' => exact hnode.elim
    | directory entries =>
      cases node' with
      | file content' => exact hnode.elim
      | directory entries' => exact ⟨rfl, hnode, hrest⟩

theorem Agrees.find? (h : l.Agrees sees reads parts l') (name : Text) :
    Option.Rel (Node.Agrees sees reads parts name) (l.find? name) (l'.find? name) := by
  induction l using entry_induction generalizing l' with
  | nil =>
    obtain rfl := agrees_nil.mp h
    exact .none
  | cons node n rest _ ih =>
    obtain ⟨node', rest', rfl, hnode, hrest⟩ := (agrees_cons node).mp h
    rw [find?_cons, find?_cons]
    split
    · next heq => exact .some (heq ▸ hnode)
    · exact ih hrest

/-- Places may be counted from a directory on the way. -/
theorem Agrees.relative {place here : List Text} (h : l.Agrees sees reads here l')
    (hhere : here = place ++ parts) :
    l.Agrees (fun below => sees (place ++ below)) (fun below => reads (place ++ below)) parts l' := by
  subst hhere
  induction l using entry_induction generalizing parts l' with
  | nil =>
    obtain rfl := agrees_nil.mp h
    trivial
  | cons node name rest hentries ih =>
    obtain ⟨node', rest', rfl, hnode, hrest⟩ := (agrees_cons node).mp h
    refine (agrees_cons node).mpr ⟨node', rest', rfl, ?_, ih hrest⟩
    cases node <;> cases node' <;> try exact hnode.elim
    · intro hsame
      apply hnode
      rwa [List.append_assoc]
    · intro hsees
      apply hentries
      rw [← List.append_assoc]
      apply hnode
      rwa [List.append_assoc]

/-- What is read as the rule file of a directory is the same. -/
theorem Agrees.ruleFile (h : l.Agrees sees reads parts l') :
    (l.find? ruleFileName).map Node.content = (l'.find? ruleFileName).map Node.content := by
  have hrule := h.find? ruleFileName
  generalize l.find? ruleFileName = found, l'.find? ruleFileName = found' at hrule
  cases hrule with
  | none => rfl
  | @some node node' hnode =>
    cases node <;> cases node' <;> try exact hnode.elim
    · rw [hnode (.inl rfl)]
    · rfl

end Listing

/-! ### One walk on two trees -/

namespace Ignore.PathFilter

theorem load_eq {found found' : Option Node}
    (h : found.map Node.content = found'.map Node.content) (f : PathFilter) (directory : Path) :
    f.load directory found = f.load directory found' := by
  rcases found with _ | node <;> rcases found' with _ | node'
  · rfl
  · cases h
  · cases h
  · cases node <;> cases node' <;> cases h <;> rfl

theorem ofRoot_eq {found found' : Option Node}
    (h : found.map Node.content = found'.map Node.content) (root : Path) (nested : Bool) :
    ofRoot root nested found = ofRoot root nested found' := by
  rcases found with _ | node <;> rcases found' with _ | node'
  · rfl
  · cases h
  · cases h
  · cases node <;> cases node' <;> cases h <;> rfl

end Ignore.PathFilter

namespace Walk

/-- What is said of the filter with which a walk goes on; nothing of a walk that was broken off. -/
def onward {α : Type} (w : Walk) (next : PathFilter → List α) : List α :=
  match w.ending with
  | .error _ => []
  | .ok f => next f

def entered (wanted : List Text) (parts : List Text) (f : PathFilter) :
    Listing → List (List Text)
  | .nil => []
  | .file _ _ rest => entered wanted parts f rest
  | .directory name entries rest =>
    if enters f parts name then
      let here := parts ++ [name]
      let loaded := enter f here entries
      let inner := loaded.andThen fun f => through wanted here f entries
      here :: loaded.onward (fun f => entered wanted here f entries) ++
        inner.onward fun f => entered wanted parts f rest
    else entered wanted parts f rest

theorem onward_of_ok {α : Type} {w : Walk} {f : PathFilter} (h : w.ending = .ok f)
    (next : PathFilter → List α) : w.onward next = next f := by
  rw [onward, h]

theorem andThen_congr {w : Walk} {next next' : PathFilter → Walk}
    (h : ∀ f, w.ending = .ok f → next f = next' f) : w.andThen next = w.andThen next' := by
  unfold andThen
  rcases hending : w.ending with fault | f
  · rfl
  · dsimp only
    rw [h f hending]

theorem files_subset_andThen (w : Walk) (next : PathFilter → Walk) :
    w.files ⊆ (w.andThen next).files := by
  unfold andThen
  rcases w.ending with fault | f
  · exact List.Subset.refl _
  · dsimp only [files]
    rw [List.filterMap_append]
    exact List.subset_append_left _ _

variable {sees reads : List Text → Prop} {wanted parts : List Text} {f : PathFilter}
  {l l' : Listing}

theorem enter_eq (h : l.Agrees sees reads parts l') (f : PathFilter) :
    enter f parts l = enter f parts l' := by
  unfold enter
  rw [PathFilter.load_eq h.ruleFile]

/-- A walk enters only directories that are seen, and reads only files that are read. -/
structure Within (sees reads : List Text → Prop) (wanted parts : List Text) (f : PathFilter)
    (l : Listing) : Prop where
  entered : ∀ directory ∈ entered wanted parts f l, sees directory
  read : ∀ file ∈ (through wanted parts f l).files, reads file.1

/-! A part of a walk enters and reads no more than the whole. -/

namespace Within

variable {name : Text} {content : Bytes} {entries rest : Listing} {g : PathFilter}

theorem behind_file (h : Within sees reads wanted parts f (.file name content rest)) :
    Within sees reads wanted parts f rest := by
  refine ⟨h.entered, fun file hfile => h.read file ?_⟩
  rw [through, files, List.filterMap_append]
  exact List.mem_append_right _ hfile

theorem passed (henters : enters f parts name = false)
    (h : Within sees reads wanted parts f (.directory name entries rest)) :
    Within sees reads wanted parts f rest := by
  refine ⟨fun directory hdirectory => h.entered directory ?_, fun file hfile => h.read file ?_⟩
  · rw [Walk.entered, if_neg (by simp [henters])]
    exact hdirectory
  · rw [through_passed henters]
    exact hfile

theorem here (henters : enters f parts name = true)
    (h : Within sees reads wanted parts f (.directory name entries rest)) :
    sees (parts ++ [name]) := by
  apply h.entered
  rw [Walk.entered, if_pos henters]
  exact List.mem_cons_self

theorem inside (henters : enters f parts name = true)
    (h : Within sees reads wanted parts f (.directory name entries rest))
    (hending : (enter f (parts ++ [name]) entries).ending = .ok g) :
    Within sees reads wanted (parts ++ [name]) g entries := by
  refine ⟨fun directory hdirectory => h.entered directory ?_, fun file hfile => h.read file ?_⟩
  · rw [Walk.entered, if_pos henters]
    apply List.mem_cons_of_mem
    apply List.mem_append_left
    rw [onward_of_ok hending]
    exact hdirectory
  · rw [through, if_pos henters]
    apply files_subset_andThen
    rw [files_andThen hending]
    exact List.mem_append_right _ hfile

theorem behind (henters : enters f parts name = true)
    (h : Within sees reads wanted parts f (.directory name entries rest))
    (hending : ((enter f (parts ++ [name]) entries).andThen fun f =>
      through wanted (parts ++ [name]) f entries).ending = .ok g) :
    Within sees reads wanted parts g rest := by
  refine ⟨fun directory hdirectory => h.entered directory ?_, fun file hfile => h.read file ?_⟩
  · rw [Walk.entered, if_pos henters]
    apply List.mem_cons_of_mem
    apply List.mem_append_right
    rw [onward_of_ok hending]
    exact hdirectory
  · rw [through, if_pos henters, files_andThen hending]
    exact List.mem_append_right _ hfile

end Within

/-- A walk does not tell listings apart that agree on what it enters and reads. -/
theorem through_eq (h : l.Agrees sees reads parts l')
    (hwithin : Within sees reads wanted parts f l) :
    through wanted parts f l = through wanted parts f l' := by
  induction l generalizing parts f l' with
  | nil =>
    obtain rfl := Listing.agrees_nil.mp h
    rfl
  | file name content rest ih =>
    obtain ⟨node', rest', rfl, hnode, hrest⟩ := (Listing.agrees_cons (.file content)).mp h
    cases node' with
    | directory entries' => exact hnode.elim
    | file content' =>
      show through wanted parts f _ = through wanted parts f (.file name content' rest')
      rw [through, through, ih hrest hwithin.behind_file]
      cases hselects : selects wanted f parts name with
      | false => rfl
      | true =>
        have hsame : content = content' := by
          apply hnode ∘ .inr
          apply hwithin.read (parts ++ [name], content)
          rw [through, hselects]
          exact List.mem_cons_self
        rw [hsame]
  | directory name entries rest below ih =>
    obtain ⟨node', rest', rfl, hnode, hrest⟩ :=
      (Listing.agrees_cons (.directory entries)).mp h
    cases node' with
    | file content' => exact hnode.elim
    | directory entries' =>
      show through wanted parts f _ = through wanted parts f (.directory name entries' rest')
      cases henters : enters f parts name with
      | false =>
        rw [through_passed henters, through_passed henters]
        exact ih hrest (hwithin.passed henters)
      | true =>
        have hagrees : entries.Agrees sees reads (parts ++ [name]) entries' :=
          hnode (hwithin.here henters)
        have hinner : ((enter f (parts ++ [name]) entries).andThen fun f =>
              through wanted (parts ++ [name]) f entries) =
            (enter f (parts ++ [name]) entries').andThen fun f =>
              through wanted (parts ++ [name]) f entries' := by
          rw [← enter_eq hagrees]
          exact andThen_congr fun _ hending => below hagrees (hwithin.inside henters hending)
        rw [through, through, if_pos henters, if_pos henters]
        dsimp only
        rw [← hinner]
        exact andThen_congr fun _ hending => ih hrest (hwithin.behind henters hending)

end Walk

/-! ### Places on two trees -/

namespace Listing

variable {sees reads : List Text → Prop} {l l' tree tree' : Listing}

/-- Trees agree at a place as far as the directories on the way there are seen. -/
theorem Agrees.at? {place : List Text} (h : l.Agrees sees reads place l') {parts : List Text}
    (hsees : ∀ above, above <+: parts → above ≠ [] → sees (place ++ above))
    (htree : l.at? parts = some (.directory tree)) (htree' : l'.at? parts = some (.directory tree')) :
    tree.Agrees sees reads (place ++ parts) tree' := by
  induction parts generalizing place l l' with
  | nil =>
    cases htree
    cases htree'
    rwa [List.append_nil]
  | cons name parts ih =>
    obtain ⟨node, hfind, hnode⟩ := Option.bind_eq_some_iff.mp htree
    obtain ⟨node', hfind', hnode'⟩ := Option.bind_eq_some_iff.mp htree'
    have hagrees := h.find? name
    rw [show l.find? name = some node from hfind, show l'.find? name = some node' from hfind']
      at hagrees
    obtain ⟨hagrees⟩ := hagrees
    cases node with
    | file content => cases parts <;> cases hnode
    | directory entries =>
      cases node' with
      | file content => exact hagrees.elim
      | directory entries' =>
        have hhere : sees (place ++ [name]) :=
          hsees [name] (List.cons_prefix_cons.mpr ⟨rfl, List.nil_prefix⟩) (List.cons_ne_nil _ _)
        have hbelow := ih (hagrees hhere) (fun above hinit _ => ?_) hnode hnode'
        · rwa [List.append_assoc] at hbelow
        · rw [List.append_assoc]
          exact hsees (name :: above) (List.cons_prefix_cons.mpr ⟨rfl, hinit⟩) (List.cons_ne_nil _ _)

end Listing

namespace FileSystem

variable {sees reads : List Text → Prop} {fs fs' : FileSystem} {p : Path}

/-- Components without `..` lead to the same kind of node, or to the same fault. -/
theorem isFile_follow {above above' : List Listing} {l l' : Listing} {place parts : List Text}
    (h : l.Agrees sees reads place l') (straight : Path.parent ∉ parts)
    (hsees : ∀ above, above <+: parts → above ≠ [] → sees (place ++ above)) :
    (follow above l parts).map Node.isFile = (follow above' l' parts).map Node.isFile := by
  induction parts generalizing above above' place l l' with
  | nil => rfl
  | cons name parts ih =>
    obtain ⟨hname, hparts⟩ := List.ne_and_not_mem_of_not_mem_cons straight
    have hagrees := h.find? name
    rw [follow_name (Ne.symm hname), follow_name (Ne.symm hname)]
    split
    · generalize l.find? name = found, l'.find? name = found' at hagrees
      cases hagrees with
      | none => rfl
      | @some node node' hnode =>
        cases node <;> cases node' <;> try exact hnode.elim
        · dsimp only
          split <;> rfl
        · have hhere : sees (place ++ [name]) :=
            hsees [name] (List.cons_prefix_cons.mpr ⟨rfl, List.nil_prefix⟩) (List.cons_ne_nil _ _)
          apply ih (hnode hhere) hparts
          intro above hinit _
          rw [List.append_assoc]
          exact hsees (name :: above) (List.cons_prefix_cons.mpr ⟨rfl, hinit⟩)
            (List.cons_ne_nil _ _)
    · rfl

theorem list_eq_error {fault : AccessFault} :
    fs.list p = .error fault ↔ (fs.node p).map Node.isFile = .error fault ∨
      (fs.node p).map Node.isFile = .ok true ∧ fault = .notDirectory := by
  unfold list
  rcases fs.node p with other | node
  · simp [Except.map]
  · cases node <;> simp [Except.map, Node.isFile, eq_comm]

theorem follow_concat_error {above : List Listing} {here : Listing} {parts : List Text}
    {fault : AccessFault} (h : follow above here parts = .error fault) (name : Text) :
    LeadsNowhere (.error fault) ∨
      fault = .nameTooLong ∧ follow above here (parts ++ [name]) = .error .nameTooLong := by
  induction parts generalizing above here with
  | nil => cases h
  | cons first parts ih =>
    rw [List.cons_append]
    by_cases hparent : first = Path.parent
    · cases above with
      | nil =>
        simp only [follow, hparent, if_true] at h ⊢
        exact ih h
      | cons up above =>
        simp only [follow, hparent, if_true] at h ⊢
        exact ih h
    · rw [follow_name hparent] at h ⊢
      split at h
      · next hfits =>
        rw [if_pos hfits]
        split at h
        · cases h
          exact .inl trivial
        · exact ih h
        · split at h <;> cases h
          exact .inl trivial
      · next hfits =>
        cases h
        rw [if_neg hfits]
        exact .inr ⟨rfl, rfl⟩

theorem find?_of_not_fits (h : ¬p.fits = true) : fs.find? p = .error .nameTooLong := by
  unfold find? node
  rw [if_neg h]

/-- A directory cannot be listed where there is none, or where it cannot be looked up, and then
nothing below it can be looked up either. -/
theorem list_error {fault : AccessFault} (h : fs.list p = .error fault) :
    LeadsNowhere (.error fault) ∨
      fault = .nameTooLong ∧ ∀ name, fs.find? (p.child name) = .error .nameTooLong := by
  rcases list_eq_error.mp h with hnode | ⟨-, rfl⟩
  · by_cases hfits : p.fits = true
    · rw [node, if_pos hfits] at hnode
      rcases hfollow : follow [] fs.root (fs.absolute p) with other | found <;>
        rw [hfollow] at hnode <;> cases hnode
      by_cases hnowhere : LeadsNowhere (.error fault)
      · exact .inl hnowhere
      · have hlong := fun name => (follow_concat_error hfollow name).resolve_left hnowhere
        refine .inr ⟨(hlong []).1, fun name => ?_⟩
        unfold find? node
        rw [absolute_child, (hlong name).2, ite_self]
    · rw [node, if_neg hfits] at hnode
      cases hnode
      exact .inr ⟨rfl, fun name => find?_of_not_fits fun h => hfits (Path.fits_of_child h)⟩
  · exact .inl trivial

/-- What is looked up below a directory that cannot be listed is told by why it cannot. -/
theorem find?_eq_of_list_error {fault : AccessFault} (h : fs.list p = .error fault)
    (h' : fs'.list p = .error fault) {name : Text} (proper : name ≠ Path.parent)
    (nameFits : Path.nameFits name = true) : fs.find? (p.child name) = fs'.find? (p.child name) := by
  rcases list_error h with hnowhere | ⟨hlong, hnone⟩
  · rw [find?_below (below_of_nowhere h hnowhere) proper nameFits,
      find?_below (below_of_nowhere h' hnowhere) proper nameFits]
  · subst hlong
    rcases list_error h' with hnowhere | ⟨-, hnone'⟩
    · exact hnowhere.elim
    · rw [hnone, hnone']

end FileSystem

/-! ### One scan on two trees -/

namespace Walk

def enteredFrom (fs : FileSystem) (root : Path) (wanted : List Text) : List (List Text) :=
  match PathFilter.ofDirectory fs root true, fs.list root with
  | .ok (f, _), .ok tree => entered wanted [] f tree
  | _, _ => []

/-- Whether a directory does not lie below the root of a walk, or is entered by it. -/
def Sees (root : List Text) (entered : List (List Text)) (place : List Text) : Prop :=
  ∀ below, place = root ++ below → below = [] ∨ below ∈ entered

def Reads (root : List Text) (files : List (List Text × Bytes)) (place : List Text) : Prop :=
  ∃ file ∈ files, place = root ++ file.1

theorem sees_of_mem {root below : List Text} {entered : List (List Text)} (h : below ∈ entered) :
    Sees root entered (root ++ below) := by
  intro other heq
  rw [← List.append_cancel_left heq]
  exact .inr h

theorem sees_of_prefix {root place : List Text} (h : place <+: root)
    (entered : List (List Text)) : Sees root entered place := by
  intro below heq
  have hlength := h.length_le
  rw [heq, List.length_append] at hlength
  exact .inl (List.eq_nil_of_length_eq_zero (by omega))

variable {fs fs' : FileSystem} {root : Path} {wanted : List Text}

theorem ofRoot_eq {sees reads : List Text → Prop} {tree tree' : Listing}
    (htree : fs.list root = .ok tree) (htree' : fs'.list root = .ok tree')
    (h : tree.Agrees sees reads [] tree')
    (hentered : ∀ directory ∈ enteredFrom fs root wanted, sees directory)
    (hread : ∀ file ∈ (ofRoot fs root wanted).files, reads file.1) :
    ofRoot fs root wanted = ofRoot fs' root wanted := by
  have hfilter : PathFilter.ofDirectory fs root true = PathFilter.ofDirectory fs' root true := by
    unfold PathFilter.ofDirectory
    rw [ruleFile_of_below (FileSystem.below_of_list htree),
      ruleFile_of_below (FileSystem.below_of_list htree')]
    by_cases hfits : (root.child ruleFileName).fits = true
    · rw [if_pos hfits, if_pos hfits]
      dsimp only
      rw [PathFilter.ofRoot_eq h.ruleFile]
    · rw [if_neg hfits, if_neg hfits]
  unfold enteredFrom at hentered
  unfold ofRoot at hread ⊢
  rw [← hfilter]
  rcases hloaded : PathFilter.ofDirectory fs root true with fault | ⟨f, notices⟩
  · rfl
  rw [hloaded] at hread hentered
  rw [htree] at hentered
  have hroot : f.root = root := PathFilter.root_ofDirectory hloaded
  dsimp only at hread ⊢
  rw [files_andThen rfl, files_notices, List.nil_append] at hread
  apply andThen_congr
  intro g hg
  cases hg
  unfold ofFilter at hread ⊢
  rw [hroot, htree] at hread
  rw [hroot, htree, htree']
  exact through_eq h ⟨hentered, hread⟩

theorem ofRoot_eq_of_list_error {fault : AccessFault} (h : fs.list root = .error fault)
    (h' : fs'.list root = .error fault) (wanted : List Text) :
    ofRoot fs root wanted = ofRoot fs' root wanted := by
  have hfilter : PathFilter.ofDirectory fs root true = PathFilter.ofDirectory fs' root true := by
    have hfile : fs.find? (root.child ruleFileName) = fs'.find? (root.child ruleFileName) :=
      FileSystem.find?_eq_of_list_error h h' (by decide) (by decide)
    unfold PathFilter.ofDirectory PathFilter.ruleFile
    dsimp only
    rw [hfile]
  unfold ofRoot
  rw [← hfilter]
  rcases hloaded : PathFilter.ofDirectory fs root true with fault | ⟨f, notices⟩
  · rfl
  apply andThen_congr
  intro g hg
  cases hg
  unfold ofFilter
  rw [PathFilter.root_ofDirectory hloaded, h, h']

end Walk

/-- File systems that agree but for what a walk from a root does not see: what stands below the
directories in its root that it does not enter, and the contents of files that it does not read and
that are no rule files. -/
structure FileSystem.AgreesFor (fs fs' : FileSystem) (root : Path) (wanted : List Text) : Prop where
  current : fs'.current = fs.current
  trees : fs.root.Agrees
    (Walk.Sees (Path.resolve [] (fs.absolute root)) (Walk.enteredFrom fs root wanted))
    (Walk.Reads (Path.resolve [] (fs.absolute root)) (Walk.ofRoot fs root wanted).files) [] fs'.root

namespace FileSystem.AgreesFor

variable {fs fs' : FileSystem} {root : Path} {wanted : List Text}

theorem absolute (agrees : fs.AgreesFor fs' root wanted) : fs'.absolute root = fs.absolute root := by
  unfold FileSystem.absolute
  rw [agrees.current]

theorem list_error (agrees : fs.AgreesFor fs' root wanted) (straight : Path.parent ∉ fs.absolute root)
    (fault : AccessFault) : fs.list root = .error fault ↔ fs'.list root = .error fault := by
  have hkind : (fs.node root).map Node.isFile = (fs'.node root).map Node.isFile := by
    unfold node
    rw [agrees.absolute]
    split
    · refine isFile_follow agrees.trees straight fun above hinit _ => ?_
      rw [Path.resolve_of_not_mem straight]
      exact Walk.sees_of_prefix hinit _
    · rfl
  rw [list_eq_error, list_eq_error, hkind]

theorem ofRoot_eq (agrees : fs.AgreesFor fs' root wanted) {tree tree' : Listing}
    (htree : fs.list root = .ok tree) (htree' : fs'.list root = .ok tree') :
    Walk.ofRoot fs root wanted = Walk.ofRoot fs' root wanted := by
  have hat := at?_resolve .root (list_eq_ok.mp htree).2
  have hat' := at?_resolve .root (list_eq_ok.mp htree').2
  rw [agrees.absolute] at hat'
  have hbelow := agrees.trees.at? (fun above hinit _ => Walk.sees_of_prefix hinit _) hat hat'
  rw [List.nil_append] at hbelow
  apply Walk.ofRoot_eq htree htree' (hbelow.relative (List.append_nil _).symm)
  · intro directory hdirectory
    exact Walk.sees_of_mem hdirectory
  · intro file hfile
    exact ⟨file, hfile, rfl⟩

end FileSystem.AgreesFor

/-- A scan does the same on file systems that agree but for what it does not see, if its root leads
to a directory in both or fails alike. It does unless a `..` takes it through what is not seen. -/
theorem scanDirectory_indifferent (fs fs' : FileSystem) (root : Path)
    (suffixes : Option (List Text))
    (agrees : fs.AgreesFor fs' root ((suffixes.getD Language.suffixes).map Text.lower))
    (alike : Path.parent ∉ fs.absolute root ∨
      ∀ fault, fs.list root = .error fault ↔ fs'.list root = .error fault) :
    scanDirectory fs root suffixes = scanDirectory fs' root suffixes := by
  have hfault : ∀ fault, fs.list root = .error fault ↔ fs'.list root = .error fault := by
    rcases alike with straight | h
    · exact agrees.list_error straight
    · exact h
  show DirectoryScan.ofWalk _ = DirectoryScan.ofWalk _
  apply congrArg
  rcases htree : fs.list root with fault | tree
  · exact Walk.ofRoot_eq_of_list_error htree ((hfault fault).mp htree) _
  rcases htree' : fs'.list root with fault | tree'
  · rw [(hfault fault).mpr htree'] at htree
    cases htree
  · exact agrees.ofRoot_eq htree htree'

/-- A directory of which a scan reads `app.js` only. -/
def Listing.partlySeen (generated notes : Bytes) (modules : Listing) : Listing :=
  .directory "src".toList
    (.file ruleFileName (Utf8.encode "gen.js\n".toList)
      (.file "app.js".toList (Utf8.encode "'fetch logs'".toList)
        (.file "gen.js".toList generated
          (.directory "node_modules".toList modules (.file "notes.txt".toList notes .nil)))))
    .nil

theorem agrees_partlySeen (content : Bytes) (generated generated' notes notes' : Bytes)
    (modules modules' : Listing) :
    (Listing.partlySeen generated notes modules).Agrees (Walk.Sees ["src".toList] [])
      (Walk.Reads ["src".toList] [(["app.js".toList], content)]) []
      (.partlySeen generated' notes' modules') := by
  have hread : ∀ name, Walk.Reads ["src".toList] [(["app.js".toList], content)]
      ["src".toList, name] → name = "app.js".toList := by
    intro name h
    obtain ⟨file, hfile, heq⟩ := h
    cases List.mem_singleton.mp hfile
    exact (List.cons.inj (List.cons.inj heq).2).1
  refine ⟨rfl, fun _ => ⟨rfl, fun _ => rfl, rfl, fun _ => rfl, rfl, ?_, rfl, ?_, rfl, ?_, trivial⟩,
    trivial⟩
  · intro h
    rcases h with h | h
    · exact absurd h (by decide)
    · exact absurd (hread _ h) (by decide)
  · intro h
    rcases h ["node_modules".toList] rfl with h | h <;> cases h
  · intro h
    rcases h with h | h
    · exact absurd h (by decide)
    · exact absurd (hread _ h) (by decide)

theorem scanDirectory_indifferent_sample :
    let fs : FileSystem := ⟨.partlySeen [] [] .nil, []⟩
    let fs' : FileSystem :=
      ⟨.partlySeen [0xFF] [0x27] (.file ruleFileName (Utf8.encode "!\n".toList) .nil), []⟩
    let root : Path := ⟨.root, ["src".toList]⟩
    fs.AgreesFor fs' root (Language.suffixes.map Text.lower) ∧ Path.parent ∉ fs.absolute root ∧
      scanDirectory fs root none = scanDirectory fs' root none := by
  intro fs fs' root
  have hentered : Walk.enteredFrom fs root (Language.suffixes.map Text.lower) = [] := by
    decide +kernel
  have hread : (Walk.ofRoot fs root (Language.suffixes.map Text.lower)).files =
      [(["app.js".toList], Utf8.encode "'fetch logs'".toList)] := by
    decide +kernel
  have agrees : fs.AgreesFor fs' root (Language.suffixes.map Text.lower) := by
    refine ⟨rfl, ?_⟩
    rw [hentered, hread]
    apply agrees_partlySeen
  have straight : Path.parent ∉ fs.absolute root := by decide
  exact ⟨agrees, straight, scanDirectory_indifferent fs fs' root none agrees (.inl straight)⟩

/-- A `..` may take a root through an ignored directory that holds what the way needs in one of the
trees only. -/
theorem scanDirectory_detour :
    let fs : FileSystem := ⟨.partlySeen [] [] (.directory ['x'] .nil .nil), []⟩
    let fs' : FileSystem := ⟨.partlySeen [] [] .nil, []⟩
    let root : Path :=
      ⟨.root, ["src".toList, "node_modules".toList, ['x'], Path.parent, Path.parent]⟩
    ignored defaultRules (subject ["node_modules".toList] true) = true ∧
      fs.AgreesFor fs' root (Language.suffixes.map Text.lower) ∧
      (scanDirectory fs root none).seen = [("app.js".toList, "javascript".toList)] ∧
      (scanDirectory fs' root none).seen = [] := by
  intro fs fs' root
  have hentered : Walk.enteredFrom fs root (Language.suffixes.map Text.lower) = [] := by
    decide +kernel
  have hread : (Walk.ofRoot fs root (Language.suffixes.map Text.lower)).files =
      [(["app.js".toList], Utf8.encode "'fetch logs'".toList)] := by
    decide +kernel
  refine ⟨by decide +kernel, ⟨rfl, ?_⟩, by decide +kernel, by decide +kernel⟩
  rw [hentered, hread]
  apply agrees_partlySeen

end DqlScan
