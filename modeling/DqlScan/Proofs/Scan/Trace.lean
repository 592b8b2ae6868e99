import DqlScan.Proofs.File.Tree
import DqlScan.Proofs.Ignore.Scopes
import DqlScan.Scan.Walk

/-!
# Traces of walks

A walk loads rules while it decides about paths. Each of its decisions is the one that the filter
at its end takes without the scopes that do not come before the path (`through_trace`).
-/

namespace DqlScan

open Ignore

def Visit.file? : Visit → Option (List Text × Bytes)
  | .notice _ => none
  | .file parts content => some (parts, content)

namespace Walk

def files (w : Walk) : List (List Text × Bytes) := w.visits.filterMap (·.file?)

/-! ### One walk after another -/

theorem andThen_of_ok {w : Walk} {f : PathFilter} (h : w.ending = .ok f)
    (next : PathFilter → Walk) :
    w.andThen next = ⟨w.visits ++ (next f).visits, (next f).ending⟩ := by
  unfold andThen
  rw [h]

theorem andThen_ending_eq_ok {w : Walk} {next : PathFilter → Walk} {g : PathFilter} :
    (w.andThen next).ending = .ok g ↔ ∃ f, w.ending = .ok f ∧ (next f).ending = .ok g := by
  unfold andThen
  rcases h : w.ending with fault | f <;> simp [h]

theorem files_andThen {w : Walk} {f : PathFilter} (h : w.ending = .ok f)
    (next : PathFilter → Walk) : (w.andThen next).files = w.files ++ (next f).files := by
  rw [andThen_of_ok h]
  exact List.filterMap_append

theorem files_notices (notices : List Notice) (ending : Except LoadFault PathFilter) :
    (Walk.mk (notices.map .notice) ending).files = [] := by
  induction notices with
  | nil => rfl
  | cons n notices ih => exact ih

theorem enter_spec {f : PathFilter} (nested : f.nested = true) {parts : List Text}
    (h : parts ≠ []) (entries : Listing) :
    (enter f parts entries).files = [] ∧
      (enter f parts entries).ending =
        match entries.rules? with
        | .error fault => .error (.rule fault)
        | .ok _ => .ok (f.adding (entries.scopes parts)) := by
  obtain ⟨notices, hload⟩ := PathFilter.load_extend nested h entries
  unfold enter
  rw [hload]
  rcases entries.rules? with fault | rules
  · exact ⟨rfl, rfl⟩
  · exact ⟨files_notices notices _, rfl⟩

theorem enter_ending {f g : PathFilter} (nested : f.nested = true) {parts : List Text}
    (hne : parts ≠ []) {entries : Listing} (h : (enter f parts entries).ending = .ok g) :
    g = f.adding (entries.scopes parts) := by
  have hspec := (enter_spec nested hne entries).2
  rw [h] at hspec
  split at hspec <;> cases hspec
  rfl

/-- A directory that is entered is walked through with its scope, and then the rest is. -/
theorem through_entered {wanted : List Text} {parts : List Text} {f g : PathFilter} {name : Text}
    {entries rest : Listing} (nested : f.nested = true) (henters : enters f parts name = true)
    (h : (through wanted parts f (.directory name entries rest)).ending = .ok g) :
    ∃ f₂, (through wanted (parts ++ [name]) (f.adding (entries.scopes (parts ++ [name])))
        entries).ending = .ok f₂ ∧
      (through wanted parts f₂ rest).ending = .ok g ∧
      (through wanted parts f (.directory name entries rest)).files =
        (through wanted (parts ++ [name]) (f.adding (entries.scopes (parts ++ [name])))
          entries).files ++ (through wanted parts f₂ rest).files := by
  have hne : parts ++ [name] ≠ [] := List.append_ne_nil_of_right_ne_nil _ (List.cons_ne_nil _ _)
  have hfiles := (enter_spec nested hne entries).1
  rw [through, if_pos henters] at h ⊢
  obtain ⟨f₂, hinner, hrest⟩ := andThen_ending_eq_ok.mp h
  obtain ⟨f₁, henter, hbelow⟩ := andThen_ending_eq_ok.mp hinner
  obtain rfl := enter_ending nested hne henter
  refine ⟨f₂, hbelow, hrest, ?_⟩
  rw [files_andThen hinner, files_andThen henter, hfiles, List.nil_append]

theorem through_passed {wanted : List Text} {parts : List Text} {f : PathFilter} {name : Text}
    {entries rest : Listing} (henters : enters f parts name = false) :
    through wanted parts f (.directory name entries rest) = through wanted parts f rest := by
  rw [through, if_neg (by simp [henters])]

/-! ### Scopes that a walk adds -/

/-- The scope is of a directory that an entry of the listing is or holds. -/
def Under (parts : List Text) (l : Listing) (s : Scope) : Prop :=
  ∃ entry ∈ l.toList, ∃ q, s.directory = parts ++ entry.1 :: q

theorem Under.rest {parts : List Text} {name : Text} {rest : Listing} {s : Scope}
    (h : Under parts rest s) (node : Node) : Under parts (node.cons name rest) s := by
  obtain ⟨entry, hentry, q, heq⟩ := h
  exact ⟨entry, by rw [Listing.toList_cons]; exact List.mem_cons_of_mem _ hentry, q, heq⟩

theorem Under.below {parts : List Text} {name : Text} {entries rest : Listing} {s : Scope}
    (h : Under (parts ++ [name]) entries s) : Under parts (.directory name entries rest) s := by
  obtain ⟨entry, -, q, heq⟩ := h
  refine ⟨(name, .directory entries), List.mem_cons_self, entry.1 :: q, ?_⟩
  rw [heq, List.append_assoc]
  rfl

theorem under_directory {parts : List Text} {name : Text} {entries : Listing}
    {inner : List Scope} (h : ∀ s ∈ inner, Under (parts ++ [name]) entries s) (rest : Listing) :
    ∀ s ∈ entries.scopes (parts ++ [name]) ++ inner,
      Under parts (.directory name entries rest) s := by
  intro s hs
  rcases List.mem_append.mp hs with hs | hs
  · obtain ⟨-, rfl⟩ := Listing.mem_scopes.mp hs
    exact ⟨(name, .directory entries), List.mem_cons_self, [], rfl⟩
  · exact (h s hs).below

theorem Under.not_lt {parts : List Text} {l : Listing} {s : Scope} (h : Under parts l s)
    {name : Text} (later : ∀ entry ∈ l.toList, name < entry.1) (q : List Text) :
    ¬s.directory < parts ++ name :: q := by
  obtain ⟨entry, hentry, below, heq⟩ := h
  rw [heq]
  exact List.lt_asymm (append_lt_append (later entry hentry) parts q below)

theorem not_append_lt (parts q : List Text) : ¬parts ++ q < parts := by
  by_cases h : q = []
  · rw [h, List.append_nil]
    exact List.lt_irrefl parts
  · exact List.lt_asymm (lt_append h parts)

theorem through_adds {wanted : List Text} {parts : List Text} {f g : PathFilter} {l : Listing}
    (nested : f.nested = true) (h : (through wanted parts f l).ending = .ok g) :
    ∃ added, g = f.adding added ∧ ∀ s ∈ added, Under parts l s := by
  induction l generalizing parts f g with
  | nil =>
    cases h
    exact ⟨[], by simp, by simp⟩
  | file name content rest ih =>
    obtain ⟨added, rfl, hunder⟩ := ih nested h
    exact ⟨added, rfl, fun s hs => (hunder s hs).rest (.file content)⟩
  | directory name entries rest below ih =>
    cases henters : enters f parts name with
    | true =>
      obtain ⟨f₂, hbelow, hrest, -⟩ := through_entered nested henters h
      obtain ⟨inner, rfl, hinner⟩ := below (f := f.adding _) nested hbelow
      obtain ⟨later, rfl, hlater⟩ := ih (f := (f.adding _).adding inner) nested hrest
      refine ⟨entries.scopes (parts ++ [name]) ++ inner ++ later, ?_, ?_⟩
      · rw [PathFilter.adding_adding, PathFilter.adding_adding, List.append_assoc]
      · intro s hs
        rcases List.mem_append.mp hs with hs | hs
        · exact under_directory hinner rest s hs
        · exact (hlater s hs).rest (.directory entries)
    | false =>
      rw [through_passed henters] at h
      obtain ⟨added, rfl, hunder⟩ := ih nested h
      exact ⟨added, rfl, fun s hs => (hunder s hs).rest (.directory entries)⟩

/-! ### Decisions of a walk -/

def entersAt (f : PathFilter) (parts : List Text) : Bool :=
  let path := f.root.extend parts
  (path.child ruleFileName).fits && !(f.before parts).ignores path true

/-- Whether a walk that ends with the filter reads a file, once it has come to its directory. -/
def selectsAt (wanted : List Text) (f : PathFilter) (parts : List Text) : Bool :=
  let path := f.root.extend parts
  path.fits && wanted.contains (Text.lower (Path.suffix (parts.getLast?.getD []))) &&
    !(f.before parts).ignores path false

/-- Whether a walk that ends with the filter enters all directories on the way from `parts` to what
stands below. -/
def opens (f : PathFilter) (parts : List Text) : List Text → Bool
  | name :: next :: below =>
    entersAt f (parts ++ [name]) && opens f (parts ++ [name]) (next :: below)
  | _ => true

def readsAt (wanted : List Text) (f : PathFilter) (parts : List Text) :
    Node → List (List Text × Bytes)
  | .file content => if selectsAt wanted f parts then [(parts, content)] else []
  | .directory _ => []

def loadsAt (f : PathFilter) (parts : List Text) : Node → List Scope
  | .file _ => []
  | .directory entries => if entersAt f parts then entries.scopes parts else []

/-- What is taken from the nodes that a walk comes to. -/
def gather {α : Type} (take : List Text → Node → List α) (f : PathFilter) (parts : List Text)
    (l : Listing) : List α :=
  l.nodes.flatMap fun entry =>
    if opens f parts entry.1 then take (parts ++ entry.1) entry.2 else []

theorem enters_eq {f g : PathFilter} {parts : List Text} {name : Text}
    (h : g.before (parts ++ [name]) = f) : enters f parts name = entersAt g (parts ++ [name]) := by
  subst h
  rfl

theorem selects_eq {wanted : List Text} {f g : PathFilter} {parts : List Text} {name : Text}
    (h : g.before (parts ++ [name]) = f) :
    selects wanted f parts name = selectsAt wanted g (parts ++ [name]) := by
  subst h
  simp only [selects, selectsAt, List.getLast?_concat, Option.getD_some]
  rfl

theorem ne_nil_of_mem_nodes {l : Listing} {entry : List Text × Node} (h : entry ∈ l.nodes) :
    entry.1 ≠ [] := by
  intro heq
  obtain ⟨parts, node⟩ := entry
  cases heq
  exact Listing.not_mem_nodes_nil h

section Gather

variable {α : Type} (take : List Text → Node → List α) (f : PathFilter) (parts : List Text)

theorem gather_file (name : Text) (content : Bytes) (rest : Listing) :
    gather take f parts (.file name content rest) =
      take (parts ++ [name]) (.file content) ++ gather take f parts rest := rfl

theorem gather_directory (name : Text) (entries rest : Listing) :
    gather take f parts (.directory name entries rest) =
      take (parts ++ [name]) (.directory entries) ++
        ((if entersAt f (parts ++ [name]) then gather take f (parts ++ [name]) entries else []) ++
          gather take f parts rest) := by
  have hbelow : ∀ entry ∈ entries.nodes,
      (if opens f parts (name :: entry.1) then take (parts ++ name :: entry.1) entry.2 else []) =
        if entersAt f (parts ++ [name]) then
          if opens f (parts ++ [name]) entry.1 then take (parts ++ [name] ++ entry.1) entry.2
          else []
        else [] := by
    intro entry hentry
    obtain ⟨next, below, hparts⟩ := List.exists_cons_of_ne_nil (ne_nil_of_mem_nodes hentry)
    rw [hparts, opens, List.append_assoc, List.singleton_append]
    cases entersAt f (parts ++ [name]) <;> simp
  have hinner : (entries.nodes.map (Prod.map (name :: ·) id)).flatMap
      (fun entry => if opens f parts entry.1 then take (parts ++ entry.1) entry.2 else []) =
        if entersAt f (parts ++ [name]) then gather take f (parts ++ [name]) entries else [] := by
    rw [List.flatMap_map]
    refine (List.flatMap_congr hbelow).trans ?_
    split
    · rfl
    · simp
  rw [gather, Listing.nodes, List.flatMap_append, List.flatMap_cons, hinner, List.append_assoc]
  rfl

theorem mem_gather {tree : Listing} (ordered : tree.Ordered) {x : α} :
    x ∈ gather take f [] tree ↔ ∃ below node, below ≠ [] ∧ tree.at? below = some node ∧
      opens f [] below = true ∧ x ∈ take below node := by
  rw [gather, List.mem_flatMap]
  constructor
  · intro h
    obtain ⟨⟨below, node⟩, hnode, hx⟩ := h
    obtain ⟨hne, hat⟩ := (Listing.mem_nodes ordered).mp hnode
    rw [List.nil_append] at hx
    split at hx
    · next hopens => exact ⟨below, node, hne, hat, hopens, hx⟩
    · cases hx
  · intro h
    obtain ⟨below, node, hne, hat, hopens, hx⟩ := h
    refine ⟨(below, node), (Listing.mem_nodes ordered).mpr ⟨hne, hat⟩, ?_⟩
    rw [if_pos hopens]
    exact hx

end Gather

/-! ### The decisions as the walk takes them -/

/-- The scopes of the filter come before all entries of the listing. -/
def Past (f : PathFilter) (parts : List Text) (l : Listing) : Prop :=
  ∀ s ∈ f.scopes, ∀ entry ∈ l.toList, s.directory < parts ++ [entry.1]

theorem Past.rest {f : PathFilter} {parts : List Text} (node : Node) {name : Text} {rest : Listing}
    (past : Past f parts (node.cons name rest)) : Past f parts rest := by
  intro s hs entry hentry
  exact past s hs entry (by rw [Listing.toList_cons]; exact List.mem_cons_of_mem _ hentry)

theorem Past.head {f : PathFilter} {parts : List Text} (node : Node) {name : Text} {rest : Listing}
    (past : Past f parts (node.cons name rest)) :
    ∀ s ∈ f.scopes, s.directory < parts ++ [name] := by
  intro s hs
  exact past s hs (name, node) (by rw [Listing.toList_cons]; exact List.mem_cons_self)

theorem before_head {f : PathFilter} {parts : List Text} (node : Node) {name : Text}
    {rest : Listing} (past : Past f parts (node.cons name rest))
    (later : ∀ entry ∈ rest.toList, name < entry.1) {added : List Scope}
    (hadded : ∀ s ∈ added, Under parts (node.cons name rest) s) :
    (f.adding added).before (parts ++ [name]) = f := by
  rw [PathFilter.before_adding, PathFilter.before_eq_self (past.head node)]
  intro s hs
  obtain ⟨entry, hentry, q, heq⟩ := hadded s hs
  rw [Listing.toList_cons] at hentry
  rcases List.mem_cons.mp hentry with rfl | hrest
  · have hdirectory : s.directory = parts ++ [name] ++ q := by simp [heq]
    rw [hdirectory]
    exact not_append_lt _ _
  · exact Under.not_lt ⟨entry, hrest, q, heq⟩ later []

theorem Past.below {f : PathFilter} {parts : List Text} {name : Text} {entries rest : Listing}
    (past : Past f parts (.directory name entries rest)) :
    Past (f.adding (entries.scopes (parts ++ [name]))) (parts ++ [name]) entries := by
  intro s hs entry _
  have hbelow : parts ++ [name] < parts ++ [name] ++ [entry.1] := lt_append (List.cons_ne_nil _ _) _
  rcases List.mem_append.mp hs with hs | hs
  · exact List.lt_trans (Past.head (.directory entries) past s hs) hbelow
  · obtain ⟨-, rfl⟩ := Listing.mem_scopes.mp hs
    exact hbelow

theorem Past.after {f : PathFilter} {parts : List Text} {name : Text} {entries rest : Listing}
    (past : Past f parts (.directory name entries rest))
    (later : ∀ entry ∈ rest.toList, name < entry.1) {inner : List Scope}
    (hinner : ∀ s ∈ inner, Under (parts ++ [name]) entries s) :
    Past ((f.adding (entries.scopes (parts ++ [name]))).adding inner) parts rest := by
  rw [PathFilter.adding_adding]
  intro s hs entry hentry
  rcases List.mem_append.mp hs with hs | hs
  · exact Past.rest (.directory entries) past s hs entry hentry
  · obtain ⟨other, hother, q, heq⟩ := under_directory hinner .nil s hs
    obtain rfl := List.mem_singleton.mp hother
    rw [heq]
    exact append_lt_append (later entry hentry) parts q []

/-- The files that a walk reads and the scopes that it adds, by the decisions of a filter that
agrees with the one at the end of the walk about all that comes before an entry. -/
theorem through_trace {wanted : List Text} {parts : List Text} {f g : PathFilter} {l : Listing}
    (final : PathFilter) (ordered : l.Ordered) (nested : f.nested = true) (past : Past f parts l)
    (h : (through wanted parts f l).ending = .ok g)
    (agrees : ∀ entry ∈ l.toList, ∀ q,
      final.before (parts ++ entry.1 :: q) = g.before (parts ++ entry.1 :: q)) :
    (through wanted parts f l).files = gather (readsAt wanted final) final parts l ∧
      g = f.adding (gather (loadsAt final) final parts l) := by
  induction l generalizing parts f g with
  | nil =>
    cases h
    exact ⟨rfl, (PathFilter.adding_nil f).symm⟩
  | file name content rest ih =>
    obtain ⟨added, rfl, hadded⟩ := through_adds nested h
    have hhead : final.before (parts ++ [name]) = f :=
      (agrees (name, .file content) List.mem_cons_self []).trans
        (before_head (.file content) past ordered.1 hadded)
    obtain ⟨hfiles, hscopes⟩ := ih ordered.2 nested (Past.rest (.file content) past) h
      fun entry hentry => agrees entry (List.mem_cons_of_mem _ hentry)
    refine ⟨?_, hscopes⟩
    have hselects : selects wanted f parts name = selectsAt wanted final (parts ++ [name]) :=
      selects_eq hhead
    have hwalk : (through wanted parts f (.file name content rest)).files =
        (if selects wanted f parts name then [(parts ++ [name], content)] else []) ++
          (through wanted parts f rest).files := by
      rw [through]
      simp only [files, List.filterMap_append]
      split <;> rfl
    rw [hwalk, hfiles, hselects, gather_file]
    rfl
  | directory name entries rest below ih =>
    obtain ⟨added, hg, hadded⟩ := through_adds nested h
    have hhead : final.before (parts ++ [name]) = f := by
      rw [agrees (name, .directory entries) List.mem_cons_self [], hg]
      exact before_head (.directory entries) past ordered.1 hadded
    have henters : enters f parts name = entersAt final (parts ++ [name]) := enters_eq hhead
    have hrestAgrees := fun entry (hentry : entry ∈ rest.toList) =>
      agrees entry (List.mem_cons_of_mem _ hentry)
    rw [gather_directory, gather_directory]
    simp only [readsAt, loadsAt, List.nil_append]
    cases hcase : enters f parts name with
    | true =>
      obtain ⟨f₂, hbelow, hrest, hwalk⟩ := through_entered nested hcase h
      obtain ⟨inner, hf₂, hinner⟩ := through_adds (f := f.adding _) nested hbelow
      obtain ⟨after, hlater, hafter⟩ := through_adds (f := f₂) (by rw [hf₂]; exact nested) hrest
      -- What the rest adds comes behind all that the directory holds, so it does not count there.
      have hinnerAgrees : ∀ entry ∈ entries.toList, ∀ q,
          final.before (parts ++ [name] ++ entry.1 :: q) =
            f₂.before (parts ++ [name] ++ entry.1 :: q) := by
        intro entry _ q
        have hparts : parts ++ [name] ++ entry.1 :: q = parts ++ name :: entry.1 :: q := by simp
        rw [hparts, agrees (name, .directory entries) List.mem_cons_self (entry.1 :: q), hlater]
        exact PathFilter.before_adding fun s hs => (hafter s hs).not_lt ordered.1 _
      obtain ⟨hinnerFiles, hinnerScopes⟩ :=
        below ordered.2.1 (f := f.adding _) nested past.below hbelow hinnerAgrees
      have hpast : Past f₂ parts rest := by
        rw [hf₂]
        exact past.after ordered.1 hinner
      obtain ⟨hrestFiles, hrestScopes⟩ :=
        ih ordered.2.2 (by rw [hf₂]; exact nested) hpast hrest hrestAgrees
      rw [hcase] at henters
      rw [← henters, if_pos rfl, if_pos rfl, if_pos rfl, hwalk, hinnerFiles, hrestFiles]
      refine ⟨rfl, ?_⟩
      conv_lhs => rw [hrestScopes, hinnerScopes]
      rw [PathFilter.adding_adding, PathFilter.adding_adding]
    | false =>
      rw [through_passed hcase] at h ⊢
      rw [hcase] at henters
      rw [← henters]
      exact ih ordered.2.2 nested (Past.rest (.directory entries) past) h hrestAgrees

/-- A walk is not broken off if the rules of all directories compile. -/
theorem through_completes {wanted : List Text} {parts : List Text} {f : PathFilter} {l : Listing}
    (nested : f.nested = true)
    (compiles : ∀ entry ∈ l.nodes, ∃ rules, entry.2.entries.rules? = .ok rules) :
    ∃ g, (through wanted parts f l).ending = .ok g := by
  induction l generalizing parts f with
  | nil => exact ⟨f, rfl⟩
  | file name content rest ih =>
    exact ih nested fun entry hentry => compiles entry (List.mem_cons_of_mem _ hentry)
  | directory name entries rest below ih =>
    have hrest : ∀ entry ∈ rest.nodes, ∃ rules, entry.2.entries.rules? = .ok rules :=
      fun entry hentry => compiles entry (List.mem_append_right _ hentry)
    cases henters : enters f parts name with
    | false =>
      rw [through_passed henters]
      exact ih nested hrest
    | true =>
      have hne : parts ++ [name] ≠ [] := List.append_ne_nil_of_right_ne_nil _ (List.cons_ne_nil _ _)
      have henter := (enter_spec nested hne entries).2
      obtain ⟨rules, hrules⟩ := compiles ([name], .directory entries) List.mem_cons_self
      have hown : entries.rules? = .ok rules := hrules
      rw [hown] at henter
      have hentries : ∀ entry ∈ entries.nodes, ∃ rules, entry.2.entries.rules? = .ok rules :=
        fun entry hentry => compiles (name :: entry.1, entry.2)
          (List.mem_append_left _ (List.mem_cons_of_mem _ (List.mem_map_of_mem hentry)))
      have hbelow : ∃ g, (through wanted (parts ++ [name])
          (f.adding (entries.scopes (parts ++ [name]))) entries).ending = .ok g :=
        below nested hentries
      obtain ⟨f₂, hinner⟩ := hbelow
      obtain ⟨inner, hf₂, -⟩ := through_adds (f := f.adding _) nested hinner
      have hafter : ∃ g, (through wanted parts f₂ rest).ending = .ok g :=
        ih (by rw [hf₂]; exact nested) hrest
      obtain ⟨g, hg⟩ := hafter
      refine ⟨g, ?_⟩
      rw [through, if_pos henters]
      exact andThen_ending_eq_ok.mpr ⟨f₂, andThen_ending_eq_ok.mpr ⟨_, henter, hinner⟩, hg⟩

theorem opens_iff {f : PathFilter} {parts below : List Text} :
    opens f parts below = true ↔
      ∀ above, above <+: below → above ≠ [] → above ≠ below →
        entersAt f (parts ++ above) = true := by
  induction below generalizing parts with
  | nil => simp [opens]
  | cons name below ih =>
    cases below with
    | nil =>
      simp only [opens, true_iff]
      intro above hinit hne hproper
      obtain ⟨head, tail, rfl⟩ := List.exists_cons_of_ne_nil hne
      obtain ⟨rfl, htail⟩ := List.cons_prefix_cons.mp hinit
      rw [List.prefix_nil.mp htail] at hproper
      exact absurd rfl hproper
    | cons next rest =>
      rw [opens, Bool.and_eq_true, ih]
      constructor
      · rintro ⟨hhere, hbelow⟩ above hinit hne hproper
        obtain ⟨head, tail, rfl⟩ := List.exists_cons_of_ne_nil hne
        obtain ⟨rfl, htail⟩ := List.cons_prefix_cons.mp hinit
        by_cases hnil : tail = []
        · rw [hnil]
          exact hhere
        · have hparts : parts ++ head :: tail = parts ++ [head] ++ tail := by simp
          rw [hparts]
          exact hbelow tail htail hnil fun heq => hproper (by rw [heq])
      · intro h
        refine ⟨h [name] (List.cons_prefix_cons.mpr ⟨rfl, List.nil_prefix⟩) (by simp) (by simp), ?_⟩
        intro above hinit hne hproper
        have hparts : parts ++ [name] ++ above = parts ++ name :: above := by simp
        rw [hparts]
        apply h (name :: above) (List.cons_prefix_cons.mpr ⟨rfl, hinit⟩) (by simp)
        exact fun heq => hproper (List.cons.inj heq).2

theorem opens_of_append {f : PathFilter} {parts above below : List Text}
    (h : opens f parts (above ++ below) = true) : opens f parts above = true := by
  apply opens_iff.mpr
  intro inner hinit hne hproper
  apply opens_iff.mp h inner (hinit.trans (List.prefix_append _ _)) hne
  rintro rfl
  exact hproper (hinit.eq_of_length_le (by simp))

theorem entersAt_of_opens {f : PathFilter} {above below : List Text}
    (h : opens f [] (above ++ below) = true) (hne : above ≠ []) (hbelow : below ≠ []) :
    entersAt f above = true := by
  apply opens_iff.mp h above (List.prefix_append _ _) hne
  intro heq
  exact hbelow (List.self_eq_append_right.mp heq)

end Walk

end DqlScan
