import DqlScan.Proofs.File.Lookup
import DqlScan.Proofs.Scan.Trace

/-!
# Walks from a root

The files that a walk from a root reads, and the scopes of the filter at its end, by the decisions
of this filter (`ofRoot_trace`).
-/

namespace DqlScan

open Ignore

namespace Walk

/-- The filter at the end of a walk that has gone through a tree. -/
structure Ends (root : Path) (tree : Listing) (f : PathFilter) : Prop where
  root : f.root = root
  rootRules : f.rootRules = tree.rules
  scopes : f.scopes = gather (loadsAt f) f [] tree

variable {fs : FileSystem} {root : Path} {wanted : List Text} {tree : Listing}

theorem ruleFile_of_below (htree : fs.below root = .ok tree) :
    PathFilter.ruleFile fs root =
      if (root.child ruleFileName).fits then .ok (tree.find? ruleFileName)
      else .error (.access (root.child ruleFileName) .nameTooLong) := by
  have hproper : ruleFileName ≠ Path.parent := by decide
  have hname : Path.nameFits ruleFileName = true := by decide
  rw [PathFilter.ruleFile, FileSystem.find?_below htree hproper hname]
  split <;> rfl

/-- The filter that a walk starts with. -/
theorem ofDirectory_of_fits (htree : fs.below root = .ok tree)
    (h : (root.child ruleFileName).fits = true) :
    ∃ notices, PathFilter.ofDirectory fs root true =
      match tree.rules? with
      | .error fault => .error (.rule fault)
      | .ok rules => .ok ({ root, rootRules := rules }, notices) := by
  obtain ⟨notices, hfilter⟩ := PathFilter.ofRoot_find? root tree
  refine ⟨notices, ?_⟩
  unfold PathFilter.ofDirectory
  rw [ruleFile_of_below htree, if_pos h]
  dsimp only
  rw [hfilter]
  rcases tree.rules? with fault | rules <;> rfl

theorem ofRoot_of_not_fits (htree : fs.list root = .ok tree)
    (h : (root.child ruleFileName).fits = false) :
    ofRoot fs root wanted = ⟨[], .error (.access (root.child ruleFileName) .nameTooLong)⟩ := by
  unfold ofRoot PathFilter.ofDirectory
  rw [ruleFile_of_below (FileSystem.below_of_list htree), if_neg (by simp [h])]

theorem ofRoot_of_fits (wanted : List Text) (htree : fs.list root = .ok tree)
    (h : (root.child ruleFileName).fits = true) :
    ∃ notices : List Notice, ofRoot fs root wanted =
      match tree.rules? with
      | .error fault => ⟨[], .error (.rule fault)⟩
      | .ok rules => (Walk.mk (notices.map .notice) (.ok { root, rootRules := rules })).andThen
          fun f => through wanted [] f tree := by
  obtain ⟨notices, hfilter⟩ := ofDirectory_of_fits (FileSystem.below_of_list htree) h
  refine ⟨notices, ?_⟩
  unfold ofRoot
  rw [hfilter]
  rcases tree.rules? with fault | rules
  · rfl
  · dsimp only
    rw [andThen_of_ok rfl, andThen_of_ok rfl, ofFilter, htree]

theorem ofRoot_trace (ordered : fs.root.Ordered) (htree : fs.list root = .ok tree) {f : PathFilter}
    (h : (ofRoot fs root wanted).ending = .ok f) :
    (root.child ruleFileName).fits = true ∧ Ends root tree f ∧
      (ofRoot fs root wanted).files = gather (readsAt wanted f) f [] tree := by
  cases hfits : (root.child ruleFileName).fits with
  | false =>
    rw [ofRoot_of_not_fits htree hfits] at h
    cases h
  | true =>
    obtain ⟨notices, hwalk⟩ := ofRoot_of_fits wanted htree hfits
    rw [hwalk] at h ⊢
    rcases hrules : tree.rules? with fault | rules <;> rw [hrules] at h
    · cases h
    · dsimp only at h ⊢
      have hending : (through wanted [] { root, rootRules := rules } tree).ending = .ok f := by
        rwa [andThen_of_ok rfl] at h
      obtain ⟨hfiles, hscopes⟩ := through_trace f
        (FileSystem.ordered_list ordered htree) rfl (by intro s hs; cases hs) hending
        fun _ _ _ => rfl
      refine ⟨rfl, ⟨?_, ?_, ?_⟩, ?_⟩
      · rw [hscopes]
        rfl
      · rw [hscopes]
        exact (Listing.rules?_eq_ok hrules).symm
      · conv_lhs => rw [hscopes]
        rfl
      · rw [files_andThen rfl, files_notices, hfiles]
        rfl

theorem ofRoot_completes (wanted : List Text) (htree : fs.list root = .ok tree)
    (hfits : (root.child ruleFileName).fits = true) {rules : List Rule}
    (hrules : tree.rules? = .ok rules)
    (compiles : ∀ entry ∈ tree.nodes, ∃ rules, entry.2.entries.rules? = .ok rules) :
    ∃ f, (ofRoot fs root wanted).ending = .ok f := by
  obtain ⟨notices, hwalk⟩ := ofRoot_of_fits wanted htree hfits
  have hthrough : ∃ f, (through wanted [] { root, rootRules := rules } tree).ending = .ok f :=
    through_completes rfl compiles
  obtain ⟨f, hending⟩ := hthrough
  refine ⟨f, ?_⟩
  rw [hwalk, hrules]
  dsimp only
  rw [andThen_of_ok rfl]
  exact hending

end Walk

end DqlScan
