import DqlScan.Proofs.File.Lookup

/-!
# Places

Where a path lies in the tree: what it leads to stands at its components, a `..` taken back with the
component before it (`FileSystem.at?_resolve`).
-/

namespace DqlScan

/-- Where components lead from a place, a `..` taken back with the component before it. -/
def Path.resolve (place : List Text) : List Text → List Text
  | [] => place
  | name :: parts =>
    if name = Path.parent then resolve place.dropLast parts else resolve (place ++ [name]) parts

theorem Path.resolve_of_not_mem {place parts : List Text} (h : Path.parent ∉ parts) :
    resolve place parts = place ++ parts := by
  induction parts generalizing place with
  | nil => exact (List.append_nil place).symm
  | cons name parts ih =>
    obtain ⟨hname, hparts⟩ := List.ne_and_not_mem_of_not_mem_cons h
    rw [resolve, if_neg (Ne.symm hname), ih hparts, List.append_assoc]
    rfl

theorem Node.at?_append (node : Node) (parts below : List Text) :
    node.at? (parts ++ below) = (node.at? parts).bind (·.at? below) := by
  induction parts generalizing node with
  | nil => rfl
  | cons first parts ih =>
    show (node.entries.find? first).bind (·.at? (parts ++ below)) =
      ((node.entries.find? first).bind (·.at? parts)).bind (·.at? below)
    rcases node.entries.find? first with _ | next
    · rfl
    · exact ih next

theorem Listing.at?_append {l entries : Listing} {parts : List Text}
    (h : l.at? parts = some (.directory entries)) (below : List Text) :
    l.at? (parts ++ below) = entries.at? below := by
  rw [at?, Node.at?_append, show (Node.directory l).at? parts = _ from h]
  rfl

theorem Listing.at?_concat {l entries : Listing} {parts : List Text}
    (h : l.at? parts = some (.directory entries)) (name : Text) :
    l.at? (parts ++ [name]) = entries.find? name := by
  rw [at?_append h]
  show (entries.find? name).bind (·.at? []) = _
  rcases entries.find? name <;> rfl

/-- The directories on the way to a place, innermost first, and the one that stands there. -/
inductive Trail (tree : Listing) : List Text → List Listing → Listing → Prop
  | root : Trail tree [] [] tree
  | enter {place : List Text} {above : List Listing} {here entries : Listing} {name : Text}
      (trail : Trail tree place above here) (h : here.find? name = some (.directory entries)) :
      Trail tree (place ++ [name]) (here :: above) entries

theorem Trail.at? {tree here : Listing} {place : List Text} {above : List Listing}
    (trail : Trail tree place above here) : tree.at? place = some (.directory here) := by
  induction trail with
  | root => rfl
  | enter _ h ih => rw [Listing.at?_concat ih, h]

theorem Trail.ordered {tree here : Listing} {place : List Text} {above : List Listing}
    (trail : Trail tree place above here) (ordered : tree.Ordered) : here.Ordered := by
  induction trail with
  | root => exact ordered
  | enter _ h ih => exact Listing.ordered_entries_of_mem ih ((Listing.find?_eq_some_iff ih).mp h)

namespace FileSystem

/-- A `..` leads to the directory before, from which the other components lead on. -/
theorem follow_parent {tree here : Listing} {place : List Text} {above : List Listing}
    (trail : Trail tree place above here) (parts : List Text) :
    ∃ up upper, Trail tree place.dropLast up upper ∧
      follow above here (Path.parent :: parts) = follow up upper parts := by
  cases trail with
  | root => exact ⟨[], tree, .root, by simp only [follow, if_true]⟩
  | @enter _ up upper _ _ trail _ =>
    refine ⟨up, upper, ?_, by simp only [follow, if_true]⟩
    rwa [List.dropLast_concat]

theorem at?_resolve {tree here : Listing} {node : Node} {place parts : List Text}
    {above : List Listing} (trail : Trail tree place above here)
    (h : follow above here parts = .ok node) :
    tree.at? (Path.resolve place parts) = some node := by
  induction parts generalizing place above here with
  | nil =>
    cases h
    exact trail.at?
  | cons name parts ih =>
    by_cases hparent : name = Path.parent
    · subst hparent
      obtain ⟨up, upper, htrail, hfollow⟩ := follow_parent trail parts
      rw [Path.resolve, if_pos rfl]
      exact ih htrail (hfollow ▸ h)
    · rw [Path.resolve, if_neg hparent]
      rw [follow_name hparent] at h
      split at h
      · split at h
        · cases h
        · next entries hfind => exact ih (trail.enter hfind) h
        · next content hfind =>
          split at h <;> cases h
          next hlast =>
            rw [hlast]
            exact (Listing.at?_concat trail.at? name).trans hfind
      · cases h

def place (fs : FileSystem) (p : Path) : List Text := Path.resolve [] (fs.absolute p)

theorem at?_of_find? {fs : FileSystem} {p : Path} {found : Node}
    (h : fs.find? p = .ok (some found)) : fs.root.at? (fs.place p) = some found := by
  unfold find? at h
  rcases hnode : fs.node p with fault | node <;> rw [hnode] at h
  · cases fault <;> cases h
  · cases h
    unfold node at hnode
    split at hnode
    · exact at?_resolve .root hnode
    · cases hnode

end FileSystem

end DqlScan
