import DqlScan.Proofs.File.Place

/-!
# Removed files

A tree without some of its files. Paths lead to the same places in it, unless they lead to a file
that is gone or on through one (`FileSystem.node_without`).
-/

namespace DqlScan

/-- The tree without the files that `gone` holds of, by their components. -/
def Listing.without (gone : List Text → Bool) : Listing → Listing
  | .nil => .nil
  | .file name content rest =>
    if gone [name] then without gone rest else .file name content (without gone rest)
  | .directory name entries rest =>
    .directory name (without (fun parts => gone (name :: parts)) entries) (without gone rest)

def Node.without (gone : List Text → Bool) : Node → Node
  | .file content => .file content
  | .directory entries => .directory (entries.without gone)

variable {gone : List Text → Bool}

namespace Listing

theorem without_cons (gone : List Text → Bool) (node : Node) (name : Text) (rest : Listing) :
    (node.cons name rest).without gone =
      if node.isFile && gone [name] then rest.without gone
      else (node.without fun parts => gone (name :: parts)).cons name (rest.without gone) := by
  cases node <;> rfl

theorem find?_without {l : Listing} (ordered : l.Ordered) (gone : List Text → Bool) (name : Text) :
    (l.without gone).find? name =
      ((l.find? name).filter fun node => !(node.isFile && gone [name])).map
        (·.without fun parts => gone (name :: parts)) := by
  induction l using entry_induction with
  | nil => rfl
  | cons node n rest _ ih =>
    obtain ⟨above, -, hrest⟩ := ordered_cons.mp ordered
    rw [without_cons, find?_cons]
    by_cases hname : n = name
    · subst hname
      -- No other entry has the name of one that is gone.
      have hnone : rest.find? n = none := by
        rw [Option.eq_none_iff_forall_ne_some]
        intro other hother
        exact List.lt_irrefl n (above (n, other) ((find?_eq_some_iff hrest).mp hother))
      rw [if_pos rfl, Option.filter_some]
      rcases node.isFile && gone [n] with _ | _
      · exact (find?_cons ..).trans (if_pos rfl)
      · rw [if_pos rfl, ih hrest, hnone]
        rfl
    · rw [if_neg hname, ← ih hrest]
      split
      · rfl
      · rw [find?_cons, if_neg hname]

theorem find?_without_directory {l entries : Listing} (ordered : l.Ordered) {name : Text}
    (h : l.find? name = some (.directory entries)) :
    (l.without gone).find? name =
      some (.directory (entries.without fun parts => gone (name :: parts))) := by
  rw [find?_without ordered, h]
  rfl

theorem at?_without {l entries : Listing} (ordered : l.Ordered) {parts : List Text}
    (h : l.at? parts = some (.directory entries)) :
    (l.without gone).at? parts =
      some (.directory (entries.without fun below => gone (parts ++ below))) := by
  induction parts generalizing l gone with
  | nil =>
    cases h
    rfl
  | cons name parts ih =>
    obtain ⟨node, hfind, hnode⟩ := Option.bind_eq_some_iff.mp h
    cases node with
    | file content => cases parts <;> cases hnode
    | directory inner =>
      have hinner : inner.Ordered :=
        ordered_entries_of_mem ordered ((find?_eq_some_iff ordered).mp hfind)
      show ((l.without gone).find? name).bind (·.at? parts) = _
      rw [find?_without_directory ordered hfind]
      exact ih hinner hnode

end Listing

/-! ### Places -/

theorem Trail.find?_without {tree here here' : Listing} {place : List Text}
    {above above' : List Listing} (trail : Trail tree place above here) (ordered : tree.Ordered)
    (trail' : Trail (tree.without gone) place above' here') (name : Text) :
    here'.find? name =
      ((here.find? name).filter fun node => !(node.isFile && gone (place ++ [name]))).map
        (·.without fun below => gone (place ++ [name] ++ below)) := by
  have hat := trail'.at?
  rw [Listing.at?_without ordered trail.at?] at hat
  rw [← Node.directory.inj (Option.some.inj hat), Listing.find?_without (trail.ordered ordered)]
  simp only [List.append_assoc, List.singleton_append]

namespace FileSystem

def without (gone : List Text → Bool) (fs : FileSystem) : FileSystem :=
  { fs with root := fs.root.without gone }

/-- The components lead to a file that is gone, or on from the place of one. -/
def Meets (gone : List Text → Bool) (place parts : List Text) : Prop :=
  ∃ before, before <+: parts ∧ gone (Path.resolve place before) = true

theorem Meets.cons {place next parts : List Text} {name : Text}
    (hnext : ∀ parts, Path.resolve place (name :: parts) = Path.resolve next parts)
    (h : Meets gone next parts) : Meets gone place (name :: parts) := by
  obtain ⟨before, hbefore, hgone⟩ := h
  exact ⟨name :: before, List.cons_prefix_cons.mpr ⟨rfl, hbefore⟩, by rwa [hnext]⟩

/-- Components lead to the same in a tree without files, or they meet a file that is gone. -/
theorem follow_without {tree here here' : Listing} (ordered : tree.Ordered)
    {place parts : List Text} {above above' : List Listing} (trail : Trail tree place above here)
    (trail' : Trail (tree.without gone) place above' here') :
    follow above' here' parts = (follow above here parts).map
        (·.without fun below => gone (Path.resolve place parts ++ below)) ∨
      Meets gone place parts ∧ follow above' here' parts = .error .missing ∧
        (follow above here parts = .error .notDirectory ∨
          ∃ content, follow above here parts = .ok (.file content)) := by
  -- The smaller tree is followed on a trail of its own, since a path may go up again.
  induction parts generalizing place above above' here here' with
  | nil =>
    have hat := trail'.at?
    rw [Listing.at?_without ordered trail.at?] at hat
    exact .inl (congrArg Except.ok (Option.some.inj hat).symm)
  | cons name parts ih =>
    by_cases hparent : name = Path.parent
    · subst hparent
      have hresolve : ∀ parts, Path.resolve place (Path.parent :: parts) =
          Path.resolve place.dropLast parts := fun _ => rfl
      obtain ⟨up, upper, htrail, hfollow⟩ := follow_parent trail parts
      obtain ⟨up', upper', htrail', hfollow'⟩ := follow_parent trail' parts
      rw [hresolve, hfollow, hfollow']
      exact (ih htrail htrail').imp_right (And.imp_left (.cons hresolve))
    · have hresolve : ∀ parts, Path.resolve place (name :: parts) =
          Path.resolve (place ++ [name]) parts := by
        intro parts
        rw [Path.resolve, if_neg hparent]
      rw [hresolve, follow_name hparent, follow_name hparent]
      by_cases hfits : ¬Path.nameFits name = true
      · rw [if_neg hfits, if_neg hfits]
        exact .inl rfl
      have hfound := trail.find?_without ordered trail' name
      rw [if_pos (Decidable.not_not.mp hfits), if_pos (Decidable.not_not.mp hfits), hfound]
      rcases hfind : here.find? name with _ | node
      · exact .inl rfl
      rw [hfind] at hfound
      cases node with
      | file content =>
        cases hgone : gone (place ++ [name]) with
        | true =>
          -- The file is where the path ends, or stands in its way.
          refine .inr ⟨⟨[name], List.cons_prefix_cons.mpr ⟨rfl, List.nil_prefix⟩, ?_⟩, rfl, ?_⟩
          · rwa [hresolve]
          · dsimp only
            split
            · exact .inr ⟨content, rfl⟩
            · exact .inl rfl
        | false =>
          left
          simp only [Option.filter_some, Node.isFile, Bool.and_false, Bool.not_false, if_true,
            Option.map_some, Node.without]
          split
          · rfl
          · rfl
      | directory entries =>
        exact (ih (trail.enter hfind) (trail'.enter hfound)).imp_right
          (And.imp_left (.cons hresolve))

variable {fs : FileSystem}

theorem node_without (ordered : fs.root.Ordered) (gone : List Text → Bool) (p : Path) :
    (fs.without gone).node p =
        (fs.node p).map (·.without fun below => gone (fs.place p ++ below)) ∨
      Meets gone [] (fs.absolute p) ∧ (fs.without gone).node p = .error .missing ∧
        (fs.node p = .error .notDirectory ∨ ∃ content, fs.node p = .ok (.file content)) := by
  unfold node
  split
  · exact follow_without ordered .root .root
  · exact .inl rfl

/-- A directory is listed without the files that are gone. A path that meets one leads to no
directory in either tree. -/
theorem list_without (ordered : fs.root.Ordered) (gone : List Text → Bool) (p : Path) :
    (fs.without gone).list p =
        (fs.list p).map (·.without fun below => gone (fs.place p ++ below)) ∨
      Meets gone [] (fs.absolute p) ∧ (fs.without gone).list p = .error .missing ∧
        fs.list p = .error .notDirectory := by
  unfold list
  rcases node_without ordered gone p with hsame | ⟨hmeets, hmissing, hfile⟩
  · left
    rw [hsame]
    rcases fs.node p with fault | node
    · rfl
    · cases node <;> rfl
  · refine .inr ⟨hmeets, by rw [hmissing], ?_⟩
    rcases hfile with h | ⟨content, h⟩ <;> rw [h]

theorem below_without (ordered : fs.root.Ordered) (gone : List Text → Bool) (p : Path) :
    (fs.without gone).below p =
      (fs.below p).map (·.without fun parts => gone (fs.place p ++ parts)) := by
  unfold below
  rcases list_without ordered gone p with hsame | ⟨-, hmissing, hfile⟩
  · rw [hsame]
    rcases fs.list p with fault | tree
    · cases fault <;> rfl
    · rfl
  · rw [hmissing, hfile]
    rfl

end FileSystem

end DqlScan
