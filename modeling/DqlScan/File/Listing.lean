import DqlScan.Text.Basic

/-!
# Listings

The entries of a directory in the order of their names, each a file with its content or a
directory with a listing of its own. Links, devices and permissions are left out: whatever stands in
a listing can be read. So are names that are no text, of octets that are not UTF-8.
-/

namespace DqlScan

inductive Listing where
  | nil
  | file (name : Text) (content : Bytes) (rest : Listing)
  | directory (name : Text) (entries rest : Listing)

inductive Node where
  | file (content : Bytes)
  | directory (entries : Listing)

namespace Node

def isFile : Node → Bool
  | .file _ => true
  | .directory _ => false

/-- The entries below this node; a file has none. -/
def entries : Node → Listing
  | .file _ => .nil
  | .directory entries => entries

def cons (node : Node) (name : Text) (rest : Listing) : Listing :=
  match node with
  | .file content => .file name content rest
  | .directory entries => .directory name entries rest

end Node

namespace Listing

def toList : Listing → List (Text × Node)
  | .nil => []
  | .file name content rest => (name, .file content) :: rest.toList
  | .directory name entries rest => (name, .directory entries) :: rest.toList

def find? (name : Text) : Listing → Option Node
  | .nil => none
  | .file n content rest => if n = name then some (.file content) else rest.find? name
  | .directory n entries rest => if n = name then some (.directory entries) else rest.find? name

/-- Puts an entry in its place by name, instead of an entry of the same name. -/
def put (name : Text) (node : Node) : Listing → Listing
  | .nil => node.cons name .nil
  | .file n content rest =>
    if name = n then node.cons name rest
    else if name < n then node.cons name (.file n content rest)
    else .file n content (rest.put name node)
  | .directory n entries rest =>
    if name = n then node.cons name rest
    else if name < n then node.cons name (.directory n entries rest)
    else .directory n entries (rest.put name node)

/-- The entries of the directory of that name; none if there is no such directory. -/
def entriesOf (name : Text) (l : Listing) : Listing := ((l.find? name).map Node.entries).getD .nil

/-- Makes the directories that the components name, each in the one before. -/
def addDirectory (l : Listing) : List Text → Listing
  | [] => l
  | name :: parts => l.put name (.directory (addDirectory (l.entriesOf name) parts))

/-- Puts a node where the components lead, making the directories on the way. -/
def place (node : Node) (l : Listing) : List Text → Listing
  | [] => l
  | [name] => l.put name node
  | name :: parts => l.put name (.directory (place node (l.entriesOf name) parts))

/-- The names are in order and pairwise different, here and in every directory below. -/
def Ordered : Listing → Prop
  | .nil => True
  | .file name _ rest => (∀ entry ∈ rest.toList, name < entry.1) ∧ rest.Ordered
  | .directory name entries rest =>
    (∀ entry ∈ rest.toList, name < entry.1) ∧ entries.Ordered ∧ rest.Ordered

theorem find?_cons (node : Node) (name other : Text) (rest : Listing) :
    (node.cons name rest).find? other = if name = other then some node else rest.find? other := by
  cases node <;> rfl

theorem find?_put (name : Text) (node : Node) (l : Listing) (other : Text) :
    (l.put name node).find? other = if name = other then some node else l.find? other := by
  induction l with
  | nil => simp [put, find?_cons, find?]
  | file n content rest ih =>
    rw [put]
    split
    · next h => subst h; by_cases ho : name = other <;> simp [find?_cons, find?, ho]
    · split
      · simp [find?_cons]
      · next h _ =>
        by_cases hn : n = other
        · subst hn; simp [find?, h]
        · simp [find?, hn, ih]
  | directory n entries rest _ ih =>
    rw [put]
    split
    · next h => subst h; by_cases ho : name = other <;> simp [find?_cons, find?, ho]
    · split
      · simp [find?_cons]
      · next h _ =>
        by_cases hn : n = other
        · subst hn; simp [find?, h]
        · simp [find?, hn, ih]

end Listing

end DqlScan
