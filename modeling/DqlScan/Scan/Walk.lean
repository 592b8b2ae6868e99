import DqlScan.Ignore.PathFilter
import DqlScan.Text.Case

/-!
# Walks

A walk visits the files below a directory in the order of their paths. It enters no directory that
the filter ignores, and the rules of a directory count from the moment that it is entered. Entries
whose paths are too long to be looked up are left out without a notice.
-/

namespace DqlScan

open Ignore

inductive Visit where
  | notice (n : Notice)
  /-- A file to be read, by its components from the root of the walk. -/
  | file (parts : List Text) (content : Bytes)

/-- What a walk has visited, and the filter at its end, or the fault that broke it off. -/
structure Walk where
  visits : List Visit
  ending : Except LoadFault PathFilter

namespace Walk

/-- Walks on with the filter, unless the walk was broken off. -/
def andThen (w : Walk) (next : PathFilter → Walk) : Walk :=
  match w.ending with
  | .error _ => w
  | .ok f =>
    let later := next f
    ⟨w.visits ++ later.visits, later.ending⟩

def enter (f : PathFilter) (parts : List Text) (entries : Listing) : Walk :=
  match f.load (f.root.extend parts) (entries.find? ruleFileName) with
  | .error fault => ⟨[], .error fault⟩
  | .ok (f, notices) => ⟨notices.map .notice, .ok f⟩

/-- Whether a walk reads a file: its path fits, its suffix is wanted, and the filter does not ignore
it. The wanted suffixes are in lower case. -/
def selects (wanted : List Text) (f : PathFilter) (parts : List Text) (name : Text) : Bool :=
  let path := f.root.extend (parts ++ [name])
  path.fits && wanted.contains (Text.lower (Path.suffix name)) && !f.ignores path false

/-- Whether a walk enters a directory: the path of a rule file in it fits, and the filter does not
ignore it. -/
def enters (f : PathFilter) (parts : List Text) (name : Text) : Bool :=
  let path := f.root.extend (parts ++ [name])
  (path.child ruleFileName).fits && !f.ignores path true

def through (wanted : List Text) (parts : List Text) (f : PathFilter) : Listing → Walk
  | .nil => ⟨[], .ok f⟩
  | .file name content rest =>
    let here := if selects wanted f parts name then [Visit.file (parts ++ [name]) content] else []
    let later := through wanted parts f rest
    { later with visits := here ++ later.visits }
  | .directory name entries rest =>
    if enters f parts name then
      let here := parts ++ [name]
      ((enter f here entries).andThen fun f => through wanted here f entries).andThen fun f =>
        through wanted parts f rest
    else through wanted parts f rest

def ofFilter (fs : FileSystem) (wanted : List Text) (f : PathFilter) : Walk :=
  match fs.list f.root with
  | .error fault => ⟨[.notice (.unlisted f.root fault)], .ok f⟩
  | .ok entries => through wanted [] f entries

def ofRoot (fs : FileSystem) (root : Path) (wanted : List Text) : Walk :=
  match PathFilter.ofDirectory fs root true with
  | .error fault => ⟨[], .error fault⟩
  | .ok (f, notices) =>
    (Walk.mk (notices.map .notice) (.ok f)).andThen fun f => ofFilter fs wanted f

end Walk

end DqlScan
