import DqlScan.Proofs.File.Place

/-!
# Rewritten files

A tree with other contents in its files. Paths lead to the same places in it (`list_mapContents`),
and a file that is put in the place of another changes that content alone (`place_eq_mapContents`).
-/

namespace DqlScan

/-- The tree with the contents that `g` gives to its files, by their components. -/
def Listing.mapContents (g : List Text → Bytes → Bytes) : Listing → Listing
  | .nil => .nil
  | .file name content rest => .file name (g [name] content) (mapContents g rest)
  | .directory name entries rest =>
    .directory name (mapContents (fun parts => g (name :: parts)) entries) (mapContents g rest)

def Node.mapContents (g : List Text → Bytes → Bytes) : Node → Node
  | .file content => .file (g [] content)
  | .directory entries => .directory (entries.mapContents g)

def rewriteAt (place : List Text) (new : Bytes) (parts : List Text) (content : Bytes) : Bytes :=
  if parts = place then new else content

variable {g : List Text → Bytes → Bytes}

namespace Listing

theorem mapContents_cons (g : List Text → Bytes → Bytes) (node : Node) (name : Text)
    (rest : Listing) :
    (node.cons name rest).mapContents g =
      (node.mapContents fun parts => g (name :: parts)).cons name (rest.mapContents g) := by
  cases node <;> rfl

theorem find?_mapContents (g : List Text → Bytes → Bytes) (l : Listing) (name : Text) :
    (l.mapContents g).find? name =
      (l.find? name).map (·.mapContents fun parts => g (name :: parts)) := by
  induction l using entry_induction with
  | nil => rfl
  | cons node n rest _ ih =>
    rw [mapContents_cons, find?_cons, find?_cons]
    split
    · next heq => rw [heq, Option.map_some]
    · exact ih

theorem at?_mapContents (g : List Text → Bytes → Bytes) (l : Listing) (parts : List Text) :
    (l.mapContents g).at? parts =
      (l.at? parts).map (·.mapContents fun below => g (parts ++ below)) := by
  induction parts generalizing l g with
  | nil => rfl
  | cons name parts ih =>
    show ((l.mapContents g).find? name).bind (·.at? parts) =
      ((l.find? name).bind (·.at? parts)).map _
    rw [find?_mapContents]
    rcases l.find? name with _ | node
    · rfl
    cases node with
    | file content => cases parts <;> rfl
    | directory entries => exact ih (fun parts => g (name :: parts)) entries

theorem mapContents_eq_self {l : Listing}
    (h : ∀ entry ∈ l.toList, ∀ parts content, g (entry.1 :: parts) content = content) :
    l.mapContents g = l := by
  induction l using entry_induction generalizing g with
  | nil => rfl
  | cons node name rest below ih =>
    rw [toList_cons] at h
    obtain ⟨hhere, hrest⟩ := List.forall_mem_cons.mp h
    rw [mapContents_cons, ih hrest]
    cases node with
    | file content => rw [Node.mapContents, hhere]
    | directory entries =>
      rw [Node.mapContents]
      exact congrArg (Node.cons · name rest) (congrArg Node.directory
        (below fun entry _ parts => hhere (entry.1 :: parts)))

end Listing

theorem Node.mapContents_eq_self {node : Node} (h : ∀ parts content, g parts content = content) :
    node.mapContents g = node := by
  cases node with
  | file content => rw [mapContents, h]
  | directory entries =>
    rw [mapContents, Listing.mapContents_eq_self fun entry _ parts => h (entry.1 :: parts)]

/-! ### One file in the place of another -/

namespace Listing

/-- A node that is put in the place of another leaves the entries of other names as they are. -/
theorem put_eq_mapContents {l : Listing} (ordered : l.Ordered) {name : Text} {node : Node}
    (hfind : l.find? name = some node)
    (hother : ∀ n, n ≠ name → ∀ parts content, g (n :: parts) content = content) :
    l.put name (node.mapContents fun parts => g (name :: parts)) = l.mapContents g := by
  induction l using entry_induction with
  | nil => cases hfind
  | cons head n rest _ ih =>
    obtain ⟨later, -, hrest⟩ := ordered_cons.mp ordered
    rw [find?_cons] at hfind
    rw [put_cons, mapContents_cons]
    split at hfind
    · next heq =>
      subst heq
      cases hfind
      have hsame : rest.mapContents g = rest :=
        mapContents_eq_self fun entry hentry =>
          hother _ fun heq => List.lt_irrefl n (heq ▸ later entry hentry)
      rw [if_pos rfl, hsame]
    · next hne =>
      have hlt : n < name := later (name, node) ((find?_eq_some_iff hrest).mp hfind)
      have hhead : (head.mapContents fun parts => g (n :: parts)) = head :=
        Node.mapContents_eq_self (hother n hne)
      rw [if_neg (Ne.symm hne), if_neg (List.lt_asymm hlt), hhead, ih hrest hfind]

theorem place_eq_mapContents {l : Listing} (ordered : l.Ordered) {parts : List Text} {old : Bytes}
    (hat : l.at? parts = some (.file old)) (new : Bytes) :
    place (.file new) l parts = l.mapContents (rewriteAt parts new) := by
  induction parts generalizing l with
  | nil => cases hat
  | cons name parts ih =>
    obtain ⟨node, hfind, hnode⟩ := Option.bind_eq_some_iff.mp hat
    have hother : ∀ n, n ≠ name → ∀ below content,
        rewriteAt (name :: parts) new (n :: below) content = content := by
      intro n hne below content
      exact if_neg fun heq => hne (List.cons.inj heq).1
    rw [← put_eq_mapContents ordered hfind hother]
    cases node with
    | file content =>
      cases parts with
      | cons next parts => cases hnode
      | nil => rw [Node.mapContents, rewriteAt, if_pos rfl, place]
    | directory entries =>
      have hentries : l.entriesOf name = entries := by
        rw [entriesOf, show l.find? name = _ from hfind]
        rfl
      have hinner :
          rewriteAt parts new = fun below => rewriteAt (name :: parts) new (name :: below) := by
        funext below content
        simp [rewriteAt]
      have hplace : place (.file new) l (name :: parts) =
          l.put name (.directory (place (.file new) (l.entriesOf name) parts)) := by
        cases parts with
        | nil => cases hnode
        | cons next parts => rfl
      have horder : entries.Ordered :=
        ordered_entries_of_mem ordered ((find?_eq_some_iff ordered).mp hfind)
      rw [hplace, hentries, ih horder hnode, hinner]
      rfl

end Listing

/-! ### Places of a rewritten tree -/

namespace FileSystem

variable {fs : FileSystem}

theorem follow_mapContents {tree here here' : Listing} {place parts : List Text}
    {above above' : List Listing} (trail : Trail tree place above here)
    (trail' : Trail (tree.mapContents g) place above' here') :
    follow above' here' parts = (follow above here parts).map
      (·.mapContents fun below => g (Path.resolve place parts ++ below)) := by
  -- The rewritten tree is followed on a trail of its own, since a path may go up again.
  induction parts generalizing place above above' here here' with
  | nil =>
    have hat := trail'.at?
    rw [Listing.at?_mapContents, trail.at?] at hat
    exact congrArg Except.ok (Option.some.inj hat).symm
  | cons name parts ih =>
    rw [Path.resolve]
    by_cases hparent : name = Path.parent
    · subst hparent
      obtain ⟨up, upper, htrail, hfollow⟩ := follow_parent trail parts
      obtain ⟨up', upper', htrail', hfollow'⟩ := follow_parent trail' parts
      rw [if_pos rfl, hfollow, hfollow']
      exact ih htrail htrail'
    · rw [if_neg hparent, follow_name hparent, follow_name hparent]
      by_cases hfits : Path.nameFits name = true
      · rw [if_pos hfits, if_pos hfits]
        have hfound : here'.find? name = (here.find? name).map
            (·.mapContents fun below => g (place ++ [name] ++ below)) := by
          rw [← Listing.at?_concat trail'.at?, ← Listing.at?_concat trail.at?,
            Listing.at?_mapContents]
        rw [hfound]
        rcases hfind : here.find? name with _ | node
        · rfl
        rw [hfind] at hfound
        cases node with
        | file content =>
          dsimp only [Option.map_some, Node.mapContents]
          split
          · next hnil =>
            subst hnil
            rfl
          · rfl
        | directory entries =>
          dsimp only [Option.map_some, Node.mapContents]
          exact ih (trail.enter hfind) (trail'.enter hfound)
      · rw [if_neg hfits, if_neg hfits]
        rfl

def mapContents (g : List Text → Bytes → Bytes) (fs : FileSystem) : FileSystem :=
  { fs with root := fs.root.mapContents g }

theorem node_mapContents (g : List Text → Bytes → Bytes) (fs : FileSystem) (p : Path) :
    (fs.mapContents g).node p =
      (fs.node p).map (·.mapContents fun below => g (fs.place p ++ below)) := by
  unfold node
  split
  · exact follow_mapContents .root .root
  · rfl

theorem list_mapContents (g : List Text → Bytes → Bytes) (fs : FileSystem) (p : Path) :
    (fs.mapContents g).list p =
      (fs.list p).map (·.mapContents fun below => g (fs.place p ++ below)) := by
  unfold list
  rw [node_mapContents]
  rcases fs.node p with fault | node
  · rfl
  · cases node <;> rfl

end FileSystem

end DqlScan
