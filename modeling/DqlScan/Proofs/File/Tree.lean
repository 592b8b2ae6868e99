import DqlScan.File.Listing

/-!
# Trees

Everything below a directory, by the components that lead to it. In an ordered listing this is what
looking a path up finds (`mem_nodes`), in the order of the paths (`pairwise_nodes`); and the trees
that are built are ordered (`ordered_place`).
-/

namespace DqlScan

def Node.at? : Node → List Text → Option Node
  | node, [] => some node
  | node, name :: parts => (node.entries.find? name).bind (·.at? parts)

namespace Listing

def at? (l : Listing) (parts : List Text) : Option Node := (Node.directory l).at? parts

/-- All nodes below a directory, each before those that it holds. -/
def nodes : Listing → List (List Text × Node)
  | .nil => []
  | .file name content rest => ([name], .file content) :: rest.nodes
  | .directory name entries rest =>
    ([name], .directory entries) :: entries.nodes.map (Prod.map (name :: ·) id) ++ rest.nodes

end Listing

def Node.nodes (node : Node) : List (List Text × Node) := ([], node) :: node.entries.nodes

/-! ### The order of paths -/

theorem append_lt_append {a b : Text} (h : a < b) (parts q r : List Text) :
    parts ++ a :: q < parts ++ b :: r :=
  List.append_left_lt (List.cons_lt_cons_iff.mpr (.inl h))

theorem lt_append {q : List Text} (h : q ≠ []) (parts : List Text) : parts < parts ++ q := by
  obtain ⟨name, rest, rfl⟩ := List.exists_cons_of_ne_nil h
  have hlt : parts ++ [] < parts ++ name :: rest := List.append_left_lt (List.nil_lt_cons name rest)
  rwa [List.append_nil] at hlt

namespace Listing

/-! ### One entry at a time -/

/-- A listing is empty or starts with a node, whose entries are a listing again. -/
@[elab_as_elim]
theorem entry_induction {motive : Listing → Prop} (nil : motive .nil)
    (cons : ∀ (node : Node) (name : Text) (rest : Listing), motive node.entries → motive rest →
      motive (node.cons name rest)) (l : Listing) : motive l := by
  induction l with
  | nil => exact nil
  | file name content rest ih => exact cons (.file content) name rest nil ih
  | directory name entries rest below ih => exact cons (.directory entries) name rest below ih

theorem toList_cons (node : Node) (name : Text) (rest : Listing) :
    (node.cons name rest).toList = (name, node) :: rest.toList := by
  cases node <;> rfl

theorem nodes_cons (node : Node) (name : Text) (rest : Listing) :
    (node.cons name rest).nodes = node.nodes.map (Prod.map (name :: ·) id) ++ rest.nodes := by
  cases node <;> rfl

theorem ordered_cons {node : Node} {name : Text} {rest : Listing} :
    (node.cons name rest).Ordered ↔
      (∀ entry ∈ rest.toList, name < entry.1) ∧ node.entries.Ordered ∧ rest.Ordered := by
  cases node <;> simp [Node.cons, Node.entries, Ordered]

instance decidableOrdered : DecidablePred Ordered
  | .nil => .isTrue trivial
  | .file name _ rest =>
    have := decidableOrdered rest
    inferInstanceAs (Decidable ((∀ entry ∈ rest.toList, name < entry.1) ∧ rest.Ordered))
  | .directory name entries rest =>
    have := decidableOrdered entries
    have := decidableOrdered rest
    inferInstanceAs
      (Decidable ((∀ entry ∈ rest.toList, name < entry.1) ∧ entries.Ordered ∧ rest.Ordered))

theorem ordered_entries_of_mem {l : Listing} (ordered : l.Ordered) {name : Text} {node : Node}
    (h : (name, node) ∈ l.toList) : node.entries.Ordered := by
  induction l using entry_induction with
  | nil => cases h
  | cons head n rest _ ih =>
    rw [ordered_cons] at ordered
    rw [toList_cons] at h
    rcases List.mem_cons.mp h with heq | hrest
    · cases heq
      exact ordered.2.1
    · exact ih ordered.2.2 hrest

theorem find?_eq_some_iff {l : Listing} (ordered : l.Ordered) {name : Text} {node : Node} :
    l.find? name = some node ↔ (name, node) ∈ l.toList := by
  induction l using entry_induction with
  | nil => simp [find?, toList]
  | cons head n rest _ ih =>
    obtain ⟨above, -, below⟩ := ordered_cons.mp ordered
    rw [find?_cons, toList_cons, List.mem_cons, Prod.mk.injEq]
    by_cases hname : n = name
    · subst hname
      have habsent : (n, node) ∉ rest.toList := fun h => List.lt_irrefl n (above _ h)
      simp [habsent, eq_comm]
    · simp [hname, ih below, Ne.symm hname]

/-! ### Trees that are built keep their order -/

theorem put_cons (name : Text) (node head : Node) (n : Text) (rest : Listing) :
    (head.cons n rest).put name node =
      if name = n then node.cons name rest
      else if name < n then node.cons name (head.cons n rest)
      else head.cons n (rest.put name node) := by
  cases head <;> rfl

theorem mem_toList_put {l : Listing} {name : Text} {node : Node} {entry : Text × Node}
    (h : entry ∈ (l.put name node).toList) : entry = (name, node) ∨ entry ∈ l.toList := by
  induction l using entry_induction with
  | nil =>
    rw [put, toList_cons] at h
    exact List.mem_cons.mp h
  | cons head n rest _ ih =>
    rw [put_cons] at h
    rw [toList_cons, List.mem_cons]
    split at h
    · rw [toList_cons, List.mem_cons] at h
      rcases h with h | h
      · exact .inl h
      · exact .inr (.inr h)
    split at h
    · rw [toList_cons, List.mem_cons, toList_cons, List.mem_cons] at h
      exact h
    · rw [toList_cons, List.mem_cons] at h
      rcases h with h | h
      · exact .inr (.inl h)
      · rcases ih h with h | h
        · exact .inl h
        · exact .inr (.inr h)

theorem ordered_put {l : Listing} (ordered : l.Ordered) (name : Text) {node : Node}
    (hnode : node.entries.Ordered) : (l.put name node).Ordered := by
  induction l using entry_induction with
  | nil =>
    rw [put, ordered_cons]
    exact ⟨fun entry hentry => absurd hentry List.not_mem_nil, hnode, trivial⟩
  | cons head n rest _ ih =>
    obtain ⟨above, hhead, hrest⟩ := ordered_cons.mp ordered
    rw [put_cons]
    split
    · next heq =>
      subst heq
      exact ordered_cons.mpr ⟨above, hnode, hrest⟩
    split
    · next hlt =>
      refine ordered_cons.mpr ⟨fun entry hentry => ?_, hnode, ordered⟩
      rw [toList_cons, List.mem_cons] at hentry
      rcases hentry with rfl | hentry
      · exact hlt
      · exact List.lt_trans hlt (above entry hentry)
    · next hne hge =>
      refine ordered_cons.mpr ⟨fun entry hentry => ?_, hhead, ih hrest⟩
      rcases mem_toList_put hentry with rfl | hentry
      · exact (List.le_iff_lt_or_eq.mp (List.not_lt.mp hge)).resolve_right (Ne.symm hne)
      · exact above entry hentry

theorem ordered_entriesOf {l : Listing} (ordered : l.Ordered) (name : Text) :
    (l.entriesOf name).Ordered := by
  unfold entriesOf
  rcases hfind : l.find? name with _ | node
  · exact trivial
  · exact ordered_entries_of_mem ordered ((find?_eq_some_iff ordered).mp hfind)

theorem ordered_addDirectory {l : Listing} (ordered : l.Ordered) (parts : List Text) :
    (l.addDirectory parts).Ordered := by
  induction parts generalizing l with
  | nil => exact ordered
  | cons name parts ih => exact ordered_put ordered name (ih (ordered_entriesOf ordered name))

theorem ordered_place {l : Listing} (ordered : l.Ordered) {node : Node}
    (hnode : node.entries.Ordered) (parts : List Text) : (place node l parts).Ordered := by
  induction parts generalizing l with
  | nil => exact ordered
  | cons name parts ih =>
    cases parts with
    | nil => exact ordered_put ordered name hnode
    | cons next parts => exact ordered_put ordered name (ih (ordered_entriesOf ordered name))

/-! ### The nodes of a tree -/

theorem not_mem_nodes_nil {l : Listing} {node : Node} : ([], node) ∉ l.nodes := by
  induction l using entry_induction with
  | nil => exact List.not_mem_nil
  | cons head n rest _ ih => simp [nodes_cons, ih]

theorem mem_nodes_cons {l : Listing} {name : Text} {parts : List Text} {node : Node} :
    (name :: parts, node) ∈ l.nodes ↔
      ∃ head, (name, head) ∈ l.toList ∧ (parts, node) ∈ head.nodes := by
  induction l using entry_induction with
  | nil => simp [nodes, toList]
  | cons head n rest _ ih =>
    rw [nodes_cons, toList_cons, List.mem_append, ih, List.mem_map]
    constructor
    · rintro (⟨⟨below, inner⟩, hmem, heq⟩ | ⟨other, hmem, hnode⟩)
      · cases heq
        exact ⟨head, List.mem_cons_self, hmem⟩
      · exact ⟨other, List.mem_cons_of_mem _ hmem, hnode⟩
    · intro h
      obtain ⟨other, hmem, hnode⟩ := h
      rcases List.mem_cons.mp hmem with heq | hrest
      · cases heq
        exact .inl ⟨(parts, node), hnode, rfl⟩
      · exact .inr ⟨other, hrest, hnode⟩

theorem mem_nodes {l : Listing} (ordered : l.Ordered) {parts : List Text} {node : Node} :
    (parts, node) ∈ l.nodes ↔ parts ≠ [] ∧ l.at? parts = some node := by
  induction parts generalizing l with
  | nil => simp [not_mem_nodes_nil]
  | cons name parts ih =>
    rw [mem_nodes_cons]
    have hbelow : ∀ head, (name, head) ∈ l.toList →
        ((parts, node) ∈ head.nodes ↔ head.at? parts = some node) := by
      intro head hhead
      rw [Node.nodes, List.mem_cons, ih (ordered_entries_of_mem ordered hhead)]
      cases parts <;> simp [Node.at?, at?, Node.entries, eq_comm]
    simp only [at?, Node.at?, Node.entries, Option.bind_eq_some_iff, find?_eq_some_iff ordered]
    constructor
    · intro h
      obtain ⟨head, hhead, hnode⟩ := h
      exact ⟨List.cons_ne_nil _ _, head, hhead, (hbelow head hhead).mp hnode⟩
    · intro h
      obtain ⟨-, head, hhead, hnode⟩ := h
      exact ⟨head, hhead, (hbelow head hhead).mpr hnode⟩

/-- What holds of a directory and of all nodes below it holds wherever components lead. -/
theorem forall_at {l : Listing} (ordered : l.Ordered) {P : List Text → Node → Prop}
    (root : P [] (.directory l)) (nodes : ∀ entry ∈ l.nodes, P entry.1 entry.2) {parts : List Text}
    {node : Node} (hat : l.at? parts = some node) : P parts node := by
  by_cases hnil : parts = []
  · subst hnil
    cases hat
    exact root
  · exact nodes (parts, node) ((mem_nodes ordered).mpr ⟨hnil, hat⟩)

theorem pairwise_nodes {l : Listing} (ordered : l.Ordered) :
    l.nodes.Pairwise fun a b => a.1 < b.1 := by
  induction l using entry_induction with
  | nil => exact List.Pairwise.nil
  | cons head n rest below ih =>
    obtain ⟨above, hhead, hrest⟩ := ordered_cons.mp ordered
    rw [nodes_cons, List.pairwise_append]
    refine ⟨?_, ih hrest, ?_⟩
    · refine List.pairwise_map.mpr (List.pairwise_cons.mpr ⟨?_, ?_⟩)
      · rintro ⟨parts, node⟩ hmem
        have hne : parts ≠ [] := by
          rintro rfl
          exact not_mem_nodes_nil hmem
        exact lt_append hne [n]
      · refine (below hhead).imp fun {a b} h => ?_
        show [n] ++ a.1 < [n] ++ b.1
        exact List.append_left_lt h
    · rintro ⟨_, inner⟩ hinner ⟨parts, node⟩ hmem
      obtain ⟨⟨below, inner⟩, -, heq⟩ := List.mem_map.mp hinner
      cases heq
      cases parts with
      | nil => exact absurd hmem not_mem_nodes_nil
      | cons name parts =>
        obtain ⟨other, hother, -⟩ := mem_nodes_cons.mp hmem
        exact append_lt_append (above _ hother) [] below parts

end Listing

end DqlScan
