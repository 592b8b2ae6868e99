import DqlScan.File.Listing
import DqlScan.File.Path
import DqlScan.Text.Quoted
import DqlScan.Text.Utf8

/-!
# File systems

The tree below the root and the current directory. A path is followed one component at a time,
so every component but the last must be a directory, also one that `..` leaves again. A path or a
component that is too long is a fault of its own: whether anything stands there is left open. There
is no other fault of access, since nothing forbids it, and nothing changes while a run goes on.
-/

namespace DqlScan

inductive AccessFault where
  | missing
  | notDirectory
  | isDirectory
  | nameTooLong
  deriving DecidableEq

def AccessFault.reason : AccessFault → Text
  | .missing => "[Errno 2] No such file or directory".toList
  | .notDirectory => "[Errno 20] Not a directory".toList
  | .isDirectory => "[Errno 21] Is a directory".toList
  | .nameTooLong => "[Errno 36] File name too long".toList

def AccessFault.message (f : AccessFault) (p : Path) : Text :=
  f.reason ++ ": ".toList ++ Text.quoted p.text

structure FileSystem where
  root : Listing
  current : List Text := []

namespace FileSystem

/-- Follows components from a directory; `above` are the directories that it lies in, innermost
first. The root is its own parent. -/
def follow (above : List Listing) (here : Listing) : List Text → Except AccessFault Node
  | [] => .ok (.directory here)
  | name :: parts =>
    if name = Path.parent then
      match above with
      | [] => follow [] here parts
      | up :: above => follow above up parts
    else if Path.nameFits name then
      match here.find? name with
      | none => .error .missing
      | some (.directory entries) => follow (here :: above) entries parts
      | some (.file content) => if parts = [] then .ok (.file content) else .error .notDirectory
    else .error .nameTooLong

/-- The components that lead from the root to a path. -/
def absolute (fs : FileSystem) (p : Path) : List Text :=
  match p.anchor with
  | .relative => fs.current ++ p.parts
  | .root | .doubleRoot => p.parts

def node (fs : FileSystem) (p : Path) : Except AccessFault Node :=
  if p.fits then follow [] fs.root (fs.absolute p) else .error .nameTooLong

/-- What stands at a path, if anything does. -/
def find? (fs : FileSystem) (p : Path) : Except AccessFault (Option Node) :=
  match fs.node p with
  | .ok node => .ok (some node)
  | .error .missing | .error .notDirectory => .ok none
  | .error fault => .error fault

def list (fs : FileSystem) (p : Path) : Except AccessFault Listing :=
  match fs.node p with
  | .ok (.directory entries) => .ok entries
  | .ok (.file _) => .error .notDirectory
  | .error fault => .error fault

theorem follow_cons_file {above : List Listing} {here : Listing} {name : Text} {content : Bytes}
    (hn : name ≠ Path.parent) (hf : Path.nameFits name = true)
    (h : here.find? name = some (.file content)) :
    follow above here [name] = .ok (.file content) := by
  simp [follow, hn, hf, h]

theorem follow_cons_directory {above : List Listing} {here entries : Listing} {name : Text}
    (hn : name ≠ Path.parent) (hf : Path.nameFits name = true)
    (h : here.find? name = some (.directory entries)) (parts : List Text) :
    follow above here (name :: parts) = follow (here :: above) entries parts := by
  simp [follow, hn, hf, h]

end FileSystem

/-! ### Contents

A file is read as UTF-8, with its line ends and a leading byte order mark as they are.
-/

inductive ReadFault where
  | access (fault : AccessFault)
  | encoding (fault : Utf8.Fault)

def ReadFault.message (p : Path) : ReadFault → Text
  | .access fault => fault.message p
  | .encoding fault => fault.message

def Node.content : Node → Except ReadFault Bytes
  | .file content => .ok content
  | .directory _ => .error (.access .isDirectory)

def Node.text (node : Node) : Except ReadFault Text := do
  (Utf8.decode (← node.content)).mapError .encoding

end DqlScan
