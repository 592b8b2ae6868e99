import DqlScan.File.FileSystem
import DqlScan.Proofs.File.Tree

/-!
# Looking paths up

The text of a path tells its components, and where it leads to a directory, the entries are what the
paths one component longer lead to.
-/

namespace DqlScan

/-! ### Texts of paths -/

theorem slash_notMem_of_mem_splitOn {t segment : Text} (h : segment ∈ t.splitOn '/') :
    '/' ∉ segment := by
  induction t generalizing segment with
  | nil => simp_all
  | cons c t ih =>
    rw [List.splitOn_cons_eq_if_modifyHead] at h
    split at h
    · rcases List.mem_cons.mp h with rfl | h
      · exact List.not_mem_nil
      · exact ih h
    · next hc =>
      rcases hsplit : t.splitOn '/' with _ | ⟨first, rest⟩
      · simp [hsplit] at h
      · rw [hsplit] at h ih
        rcases List.mem_cons.mp h with rfl | h
        · have hslash : '/' ≠ c := by
            rintro rfl
            exact hc rfl
          exact List.not_mem_cons_of_ne_of_not_mem hslash (ih List.mem_cons_self)
        · exact ih (List.mem_cons_of_mem _ h)

namespace Path

theorem joined_injective {parts other : List Text} (hne : parts ≠ []) (hother : other ≠ [])
    (named : ∀ name ∈ parts, '/' ∉ name) (namedOther : ∀ name ∈ other, '/' ∉ name)
    (h : joined parts = joined other) : parts = other := by
  have hparts := List.splitOn_intercalate '/' named hne
  have hsame := List.splitOn_intercalate '/' namedOther hother
  rw [joined, joined] at h
  rw [h] at hparts
  exact hparts.symm.trans hsame

theorem joined_cons {parts : List Text} (h : parts ≠ []) (name : Text) :
    joined (name :: parts) = name ++ '/' :: joined parts := by
  rw [joined, List.intercalate_cons_of_ne_nil h, List.append_assoc]
  rfl

theorem joined_append {above below : List Text} (habove : above ≠ []) (hbelow : below ≠ []) :
    joined (above ++ below) = joined above ++ '/' :: joined below := by
  induction above with
  | nil => exact absurd rfl habove
  | cons first above ih =>
    rw [List.cons_append]
    by_cases hnil : above = []
    · subst hnil
      rw [List.nil_append, joined_cons hbelow]
      simp [joined]
    · rw [joined_cons (List.append_ne_nil_of_left_ne_nil hnil _), joined_cons hnil, ih hnil]
      simp

theorem joined_concat (parts : List Text) (name : Text) :
    joined parts <+: joined (parts ++ [name]) := by
  by_cases hnil : parts = []
  · subst hnil
    exact List.nil_prefix
  · rw [joined_append hnil (List.cons_ne_nil _ _)]
    exact List.prefix_append _ _

theorem mem_readParts {t part : Text} (h : part ∈ readParts t) :
    part ≠ [] ∧ part ≠ ['.'] ∧ '/' ∉ part := by
  obtain ⟨hsplit, hkept⟩ := List.mem_filter.mp h
  obtain ⟨hne, hdot⟩ := of_decide_eq_true hkept
  exact ⟨hne, hdot, slash_notMem_of_mem_splitOn hsplit⟩

theorem readParts_slash (t : Text) : readParts ('/' :: t) = readParts t := by
  simp [readParts, List.splitOn_cons_eq_if_modifyHead]

theorem readParts_joined {parts : List Text}
    (h : ∀ part ∈ parts, part ≠ [] ∧ part ≠ ['.'] ∧ '/' ∉ part) :
    readParts (joined parts) = parts := by
  by_cases hnil : parts = []
  · subst hnil
    rfl
  · rw [readParts, joined, List.splitOn_intercalate '/' (fun part hpart => (h part hpart).2.2) hnil]
    exact List.filter_eq_self.mpr fun part hpart => by simp [(h part hpart).1, (h part hpart).2.1]

theorem takeWhile_slash_joined {parts : List Text}
    (h : ∀ part ∈ parts, part ≠ [] ∧ part ≠ ['.'] ∧ '/' ∉ part) :
    (joined parts).takeWhile (· = '/') = [] := by
  cases parts with
  | nil => rfl
  | cons first parts =>
    obtain ⟨hne, -, hslash⟩ := h first List.mem_cons_self
    obtain ⟨c, rest, rfl⟩ := List.exists_cons_of_ne_nil hne
    have hc : c ≠ '/' := fun heq => hslash (heq ▸ List.mem_cons_self)
    cases parts with
    | nil => simp [joined, hc]
    | cons second parts =>
      rw [joined_cons (List.cons_ne_nil _ _), List.cons_append]
      exact List.takeWhile_cons_of_neg (by simpa using hc)

/-- The text of a path that was read is read as the same path. -/
theorem read_text_read (t : Text) : read (read t).text = read t := by
  have hparts : ∀ part ∈ (read t).parts, part ≠ [] ∧ part ≠ ['.'] ∧ '/' ∉ part :=
    fun _ => mem_readParts
  generalize read t = p at hparts ⊢
  obtain ⟨anchor, parts⟩ := p
  have hjoined := readParts_joined hparts
  have hstart := takeWhile_slash_joined hparts
  cases anchor with
  | relative =>
    cases parts with
    | nil => rfl
    | cons first parts => simp only [text, read, readAnchor, hjoined, hstart, List.length_nil]
  | root => simp [text, read, readAnchor, readParts_slash, hjoined, hstart]
  | doubleRoot => simp [text, read, readAnchor, readParts_slash, hjoined, hstart]

theorem read_eq_of_text_eq {s t : Text} (h : (read s).text = (read t).text) : read s = read t := by
  rw [← read_text_read s, h, read_text_read t]

theorem fits_mono {anchor : Anchor} {parts longer : List Text} (hne : longer ≠ [])
    (hsize : (Utf8.encode (joined parts)).length ≤ (Utf8.encode (joined longer)).length)
    (h : fits ⟨anchor, longer⟩ = true) : fits ⟨anchor, parts⟩ = true := by
  obtain ⟨name, longer, rfl⟩ := List.exists_cons_of_ne_nil hne
  have hlong : (Utf8.encode (text ⟨anchor, name :: longer⟩)).length ≤ maxSize := of_decide_eq_true h
  apply decide_eq_true
  cases anchor with
  | relative =>
    cases parts with
    | nil => decide
    | cons first rest => exact Nat.le_trans hsize hlong
  | root =>
    simp only [text, Utf8.encode, List.flatMap_cons, List.length_append] at hlong hsize ⊢
    omega
  | doubleRoot =>
    simp only [text, Utf8.encode, List.flatMap_cons, List.length_append] at hlong hsize ⊢
    omega

theorem fits_of_child {p : Path} {name : Text} (h : (p.child name).fits = true) :
    p.fits = true := by
  obtain ⟨anchor, parts⟩ := p
  obtain ⟨more, hmore⟩ := joined_concat parts name
  apply fits_mono (List.append_ne_nil_of_right_ne_nil _ (List.cons_ne_nil _ _)) _ h
  rw [← hmore, Utf8.encode, Utf8.encode, List.flatMap_append, List.length_append]
  omega

end Path

namespace FileSystem

theorem follow_name {above : List Listing} {here : Listing} {name : Text} {parts : List Text}
    (proper : name ≠ Path.parent) :
    follow above here (name :: parts) =
      if Path.nameFits name then
        match here.find? name with
        | none => .error .missing
        | some (.directory entries) => follow (here :: above) entries parts
        | some (.file content) => if parts = [] then .ok (.file content) else .error .notDirectory
      else .error .nameTooLong := by
  rcases hfind : here.find? name with _ | node
  · simp [follow, proper, hfind]
  · cases node <;> simp [follow, proper, hfind]

theorem follow_name_directory {above : List Listing} {here tree : Listing} {name : Text}
    {parts : List Text} (proper : name ≠ Path.parent)
    (h : follow above here (name :: parts) = .ok (.directory tree)) :
    Path.nameFits name = true ∧ ∃ entries, here.find? name = some (.directory entries) ∧
      follow (here :: above) entries parts = .ok (.directory tree) := by
  rw [follow_name proper] at h
  split at h
  · next hfits =>
    refine ⟨hfits, ?_⟩
    split at h
    · cases h
    · next entries hfind => exact ⟨entries, hfind, h⟩
    · split at h <;> cases h
  · cases h

theorem follow_concat {above : List Listing} {here tree : Listing} {parts : List Text}
    (h : follow above here parts = .ok (.directory tree)) {name : Text}
    (proper : name ≠ Path.parent) (fits : Path.nameFits name = true) :
    follow above here (parts ++ [name]) =
      match tree.find? name with
      | none => .error .missing
      | some node => .ok node := by
  induction parts generalizing above here with
  | nil =>
    cases h
    rw [List.nil_append, follow_name proper, if_pos fits]
    rcases tree.find? name with _ | node
    · rfl
    · cases node <;> simp [follow]
  | cons n parts ih =>
    rw [List.cons_append]
    by_cases hparent : n = Path.parent
    · cases above with
      | nil =>
        simp only [follow, hparent, if_true] at h ⊢
        exact ih h
      | cons up above =>
        simp only [follow, hparent, if_true] at h ⊢
        exact ih h
    · obtain ⟨hfits, entries, hfind, hbelow⟩ := follow_name_directory hparent h
      rw [follow_name hparent, if_pos hfits, hfind]
      exact ih hbelow

theorem ordered_follow {above : List Listing} {here tree : Listing} {parts : List Text}
    (ordered : here.Ordered) (orderedAbove : ∀ l ∈ above, l.Ordered)
    (h : follow above here parts = .ok (.directory tree)) : tree.Ordered := by
  induction parts generalizing above here with
  | nil =>
    cases h
    exact ordered
  | cons n parts ih =>
    by_cases hparent : n = Path.parent
    · cases above with
      | nil =>
        simp only [follow, hparent, if_true] at h
        exact ih ordered orderedAbove h
      | cons up above =>
        simp only [follow, hparent, if_true] at h
        exact ih (orderedAbove up List.mem_cons_self)
          (fun l hl => orderedAbove l (List.mem_cons_of_mem _ hl)) h
    · obtain ⟨-, entries, hfind, hbelow⟩ := follow_name_directory hparent h
      have hentries : entries.Ordered := Listing.ordered_entries_of_mem ordered
        ((Listing.find?_eq_some_iff ordered).mp hfind)
      exact ih hentries (List.forall_mem_cons.mpr ⟨ordered, orderedAbove⟩) hbelow

theorem list_eq_ok {fs : FileSystem} {p : Path} {tree : Listing} :
    fs.list p = .ok tree ↔
      p.fits = true ∧ follow [] fs.root (fs.absolute p) = .ok (.directory tree) := by
  unfold list node
  by_cases hfits : p.fits = true
  · rw [if_pos hfits]
    rcases follow [] fs.root (fs.absolute p) with fault | node
    · simp
    · cases node <;> simp [hfits]
  · simp [hfits]

theorem ordered_list {fs : FileSystem} (ordered : fs.root.Ordered) {p : Path} {tree : Listing}
    (h : fs.list p = .ok tree) : tree.Ordered :=
  ordered_follow ordered (by simp) (list_eq_ok.mp h).2

theorem absolute_child (fs : FileSystem) (p : Path) (name : Text) :
    fs.absolute (p.child name) = fs.absolute p ++ [name] := by
  obtain ⟨anchor, parts⟩ := p
  cases anchor <;> simp [absolute, Path.child]

theorem find?_of_follow {fs : FileSystem} {p : Path} {tree : Listing}
    (h : follow [] fs.root (fs.absolute p) = .ok (.directory tree)) {name : Text}
    (proper : name ≠ Path.parent) (nameFits : Path.nameFits name = true) :
    fs.find? (p.child name) =
      if (p.child name).fits then .ok (tree.find? name) else .error .nameTooLong := by
  unfold find? node
  by_cases hfits : (p.child name).fits = true
  · rw [if_pos hfits, if_pos hfits, absolute_child, follow_concat h proper nameFits]
    rcases tree.find? name <;> rfl
  · rw [if_neg hfits, if_neg hfits]

/-- Components that lead to a node of a tree lead to it from the directory that holds the tree. -/
theorem follow_append {above : List Listing} {here tree : Listing} {parts below : List Text}
    {node : Node} (h : follow above here parts = .ok (.directory tree))
    (hat : tree.at? below = some node)
    (names : ∀ name ∈ below, name ≠ Path.parent ∧ Path.nameFits name = true) :
    follow above here (parts ++ below) = .ok node := by
  induction below generalizing parts tree with
  | nil =>
    cases hat
    rwa [List.append_nil]
  | cons name below ih =>
    obtain ⟨⟨hproper, hfits⟩, hbelow⟩ := List.forall_mem_cons.mp names
    obtain ⟨next, hfind, hnext⟩ := Option.bind_eq_some_iff.mp hat
    have hname := follow_concat h hproper hfits
    rw [show tree.find? name = some next from hfind] at hname
    cases next with
    | directory entries =>
      have hrest := ih hname hnext hbelow
      rwa [List.append_assoc] at hrest
    | file content =>
      cases below with
      | nil =>
        cases hnext
        exact hname
      | cons second below => cases hnext

theorem absolute_extend (fs : FileSystem) (p : Path) (parts : List Text) :
    fs.absolute (p.extend parts) = fs.absolute p ++ parts := by
  obtain ⟨anchor, first⟩ := p
  cases anchor <;> simp [absolute, Path.extend]

/-- The entries below a path. There are none where the path leads to a file or to nothing. -/
def below (fs : FileSystem) (p : Path) : Except AccessFault Listing :=
  match fs.list p with
  | .ok entries => .ok entries
  | .error .missing | .error .notDirectory => .ok .nil
  | .error fault => .error fault

theorem below_of_list {fs : FileSystem} {p : Path} {tree : Listing} (h : fs.list p = .ok tree) :
    fs.below p = .ok tree := by
  rw [below, h]

def LeadsNowhere : Except AccessFault Node → Prop
  | .ok (.file _) | .error .missing | .error .notDirectory => True
  | .ok (.directory _) | .error .isDirectory | .error .nameTooLong => False

theorem below_of_nowhere {fs : FileSystem} {p : Path} {fault : AccessFault}
    (h : fs.list p = .error fault) (hnowhere : LeadsNowhere (.error fault)) :
    fs.below p = .ok .nil := by
  rw [below, h]
  cases fault with
  | missing | notDirectory => rfl
  | isDirectory | nameTooLong => exact hnowhere.elim

theorem below_eq_ok {fs : FileSystem} {p : Path} {tree : Listing} (h : fs.below p = .ok tree) :
    fs.list p = .ok tree ∨ tree = .nil ∧ (∃ fault, fs.list p = .error fault) ∧
      LeadsNowhere (follow [] fs.root (fs.absolute p)) := by
  unfold below list node at h
  unfold list node
  by_cases hfits : p.fits = true
  · rw [if_pos hfits] at h ⊢
    generalize follow [] fs.root (fs.absolute p) = found at h ⊢
    rcases found with fault | node
    · cases fault <;> simp_all [LeadsNowhere]
    · cases node <;> simp_all [LeadsNowhere]
  · simp [hfits] at h

/-- One more component leads to nothing there. -/
theorem follow_concat_nowhere {above : List Listing} {here : Listing} {parts : List Text}
    (h : LeadsNowhere (follow above here parts)) (name : Text) :
    follow above here (parts ++ [name]) = .error .missing ∨
      follow above here (parts ++ [name]) = .error .notDirectory := by
  induction parts generalizing above here with
  | nil => exact h.elim
  | cons n parts ih =>
    rw [List.cons_append]
    by_cases hparent : n = Path.parent
    · cases above with
      | nil =>
        simp only [follow, hparent, if_true] at h ⊢
        exact ih h
      | cons up above =>
        simp only [follow, hparent, if_true] at h ⊢
        exact ih h
    · rw [follow_name hparent] at h ⊢
      split at h
      · next hfits =>
        rw [if_pos hfits]
        split at h
        · exact .inl rfl
        · exact ih h
        · exact .inr (by simp)
      · exact h.elim

theorem find?_below {fs : FileSystem} {p : Path} {tree : Listing} (h : fs.below p = .ok tree)
    {name : Text} (proper : name ≠ Path.parent) (nameFits : Path.nameFits name = true) :
    fs.find? (p.child name) =
      if (p.child name).fits then .ok (tree.find? name) else .error .nameTooLong := by
  rcases below_eq_ok h with hlist | ⟨rfl, -, hnowhere⟩
  · exact find?_of_follow (list_eq_ok.mp hlist).2 proper nameFits
  unfold find? node
  rw [absolute_child]
  by_cases hfits : (p.child name).fits = true
  · rw [if_pos hfits, if_pos hfits]
    rcases follow_concat_nowhere hnowhere name with hnone | hnone <;> rw [hnone] <;> rfl
  · rw [if_neg hfits, if_neg hfits]

end FileSystem

end DqlScan
