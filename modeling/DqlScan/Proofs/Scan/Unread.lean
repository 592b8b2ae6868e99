import DqlScan.Proofs.Scan.Selection

/-!
# Warnings about rule files

A walk warns of a rule file that it cannot read, and of each at most once (`Walk.unread_ofRoot`).
-/

namespace DqlScan

open Ignore

/-- The rule file that a notice says could not be read. -/
def Notice.ruleFile? : Notice → Option Path
  | .unreadRules file _ => some file
  | .unterminated _ | .unlisted .. | .unreadFile .. => none

def Visit.ruleFile? : Visit → Option Path
  | .notice n => n.ruleFile?
  | .file .. => none

namespace Walk

def unread (w : Walk) : List Path := w.visits.filterMap (·.ruleFile?)

theorem unread_andThen (w : Walk) (next : PathFilter → Walk) :
    (w.andThen next).unread = w.unread ∨
      ∃ f, w.ending = .ok f ∧ (w.andThen next).unread = w.unread ++ (next f).unread := by
  unfold andThen
  rcases w.ending with fault | f
  · exact .inl rfl
  · exact .inr ⟨f, rfl, List.filterMap_append⟩

theorem unread_enter (f : PathFilter) (parts : List Text) (entries : Listing) :
    (enter f parts entries).unread = [] ∨
      (enter f parts entries).unread = [(f.root.extend parts).child ruleFileName] := by
  unfold enter PathFilter.load
  by_cases hload : f.nested ∧ f.root.extend parts ≠ f.root
  · rw [if_pos hload]
    rcases entries.find? ruleFileName with _ | node
    · exact .inl rfl
    cases node with
    | directory below => exact .inl rfl
    | file content =>
      dsimp only
      rcases ruleLines (.file content) with fault | lines
      · exact .inr rfl
      dsimp only
      rcases Rule.ofLines lines with fault | rules
      · exact .inl rfl
      dsimp only
      rcases (f.root.extend parts).below? f.root with _ | below
      · exact .inl rfl
      · exact .inl rfl
  · rw [if_neg hload]
    exact .inl rfl

/-- The rule file stands in a directory that an entry of the listing is or holds. -/
def RuleFileUnder (root : Path) (parts : List Text) (l : Listing) (file : Path) : Prop :=
  ∃ entry ∈ l.toList, ∃ q, file = (root.extend (parts ++ entry.1 :: q)).child ruleFileName

theorem RuleFileUnder.rest {root : Path} {parts : List Text} {name : Text} {rest : Listing}
    {file : Path} (h : RuleFileUnder root parts rest file) (node : Node) :
    RuleFileUnder root parts (node.cons name rest) file := by
  obtain ⟨entry, hentry, q, heq⟩ := h
  exact ⟨entry, by rw [Listing.toList_cons]; exact List.mem_cons_of_mem _ hentry, q, heq⟩

theorem ruleFile_inj {root : Path} {parts other : List Text}
    (h : (root.extend parts).child ruleFileName = (root.extend other).child ruleFileName) :
    parts = other := by
  have hparts : root.parts ++ parts ++ [ruleFileName] = root.parts ++ other ++ [ruleFileName] :=
    congrArg Path.parts h
  exact List.append_cancel_left (List.append_cancel_right hparts)

/-- A directory that is entered warns of its own rule file once, and then of those below it. -/
theorem unread_entered (wanted : List Text) {parts : List Text} (hne : parts ≠ [])
    {f : PathFilter} (entries : Listing) (nested : f.nested = true)
    (below : ∀ f : PathFilter, f.nested = true →
      (∀ file ∈ (through wanted parts f entries).unread,
        RuleFileUnder f.root parts entries file) ∧ (through wanted parts f entries).unread.Nodup) :
    let w := (enter f parts entries).andThen fun f => through wanted parts f entries
    (∀ file ∈ w.unread, ∃ q, file = (f.root.extend (parts ++ q)).child ruleFileName) ∧
      w.unread.Nodup := by
  intro w
  have hown : ∀ file ∈ (enter f parts entries).unread,
      file = (f.root.extend parts).child ruleFileName := by
    intro file hfile
    rcases unread_enter f parts entries with h | h <;> rw [h] at hfile
    · cases hfile
    · exact List.mem_singleton.mp hfile
  have hownNodup : (enter f parts entries).unread.Nodup := by
    rcases unread_enter f parts entries with h | h <;> rw [h]
    · exact List.nodup_nil
    · exact List.nodup_cons.mpr ⟨List.not_mem_nil, List.nodup_nil⟩
  rcases unread_andThen (enter f parts entries) fun f => through wanted parts f entries with
    hw | ⟨f₁, hending, hw⟩
  · show (∀ file ∈ w.unread, _) ∧ w.unread.Nodup
    rw [hw]
    exact ⟨fun file hfile => ⟨[], by rw [List.append_nil]; exact hown file hfile⟩, hownNodup⟩
  · have hf₁ := enter_ending nested hne hending
    obtain ⟨hunder, hnodup⟩ := below f₁ (by rw [hf₁]; exact nested)
    have hroot : f₁.root = f.root := by rw [hf₁]; rfl
    rw [hroot] at hunder
    show (∀ file ∈ w.unread, _) ∧ w.unread.Nodup
    rw [hw]
    constructor
    · intro file hfile
      rcases List.mem_append.mp hfile with h | h
      · exact ⟨[], by rw [List.append_nil]; exact hown file h⟩
      · obtain ⟨entry, -, q, heq⟩ := hunder file h
        exact ⟨entry.1 :: q, heq⟩
    · apply List.nodup_append.mpr
      refine ⟨hownNodup, hnodup, fun file hfile other hother heq => ?_⟩
      obtain ⟨entry, -, q, hunder⟩ := hunder other hother
      have hparts := ruleFile_inj ((hown file hfile).symm.trans (heq.trans hunder))
      exact List.cons_ne_nil _ _ (List.self_eq_append_right.mp hparts)

theorem entered_adds {wanted : List Text} {parts : List Text} (hne : parts ≠ [])
    {f g : PathFilter} {entries : Listing} (nested : f.nested = true)
    (h : ((enter f parts entries).andThen fun f => through wanted parts f entries).ending = .ok g) :
    ∃ added, g = f.adding added := by
  obtain ⟨f₁, henter, hbelow⟩ := andThen_ending_eq_ok.mp h
  obtain rfl := enter_ending nested hne henter
  obtain ⟨inner, rfl, -⟩ := through_adds (f := f.adding _) nested hbelow
  exact ⟨_, PathFilter.adding_adding ..⟩

theorem unread_through_file (wanted parts : List Text) (f : PathFilter) (name : Text)
    (content : Bytes) (rest : Listing) :
    (through wanted parts f (.file name content rest)).unread =
      (through wanted parts f rest).unread := by
  rw [through]
  unfold unread
  split <;> rfl

theorem unread_through (wanted parts : List Text) {f : PathFilter} {l : Listing}
    (ordered : l.Ordered) (nested : f.nested = true) :
    (∀ file ∈ (through wanted parts f l).unread, RuleFileUnder f.root parts l file) ∧
      (through wanted parts f l).unread.Nodup := by
  induction l generalizing parts f with
  | nil => exact ⟨nofun, List.nodup_nil⟩
  | file name content rest ih =>
    obtain ⟨hunder, hnodup⟩ := ih parts ordered.2 nested
    rw [unread_through_file]
    exact ⟨fun file hfile => (hunder file hfile).rest (.file content), hnodup⟩
  | directory name entries rest below ih =>
    cases henters : enters f parts name with
    | false =>
      rw [through_passed henters]
      obtain ⟨hunder, hnodup⟩ := ih parts ordered.2.2 nested
      exact ⟨fun file hfile => (hunder file hfile).rest (.directory entries), hnodup⟩
    | true =>
      have hne : parts ++ [name] ≠ [] := List.append_ne_nil_of_right_ne_nil _ (List.cons_ne_nil _ _)
      obtain ⟨hhere, hhereNodup⟩ := unread_entered wanted hne entries nested
        fun f nested => below (parts ++ [name]) ordered.2.1 nested
      have hunder : ∀ file, (∃ q, file = (f.root.extend (parts ++ [name] ++ q)).child
          ruleFileName) → RuleFileUnder f.root parts (.directory name entries rest) file := by
        intro file h
        obtain ⟨q, heq⟩ := h
        rw [List.append_assoc] at heq
        exact ⟨(name, .directory entries), List.mem_cons_self, q, heq⟩
      rw [through, if_pos henters]
      rcases unread_andThen ((enter f (parts ++ [name]) entries).andThen fun f =>
          through wanted (parts ++ [name]) f entries) fun f => through wanted parts f rest with
        hw | ⟨f₂, hending, hw⟩ <;> rw [hw]
      · exact ⟨fun file hfile => hunder file (hhere file hfile), hhereNodup⟩
      · obtain ⟨added, rfl⟩ := entered_adds hne nested hending
        obtain ⟨hafter, hafterNodup⟩ := ih parts (f := f.adding added) ordered.2.2 nested
        constructor
        · intro file hfile
          rcases List.mem_append.mp hfile with h | h
          · exact hunder file (hhere file h)
          · exact (hafter file h).rest (.directory entries)
        · apply List.nodup_append.mpr
          refine ⟨hhereNodup, hafterNodup, fun file hfile other hother heq => ?_⟩
          obtain ⟨q, hfile⟩ := hhere file hfile
          obtain ⟨entry, hentry, r, hother⟩ := hafter other hother
          have hparts := ruleFile_inj (hfile.symm.trans (heq.trans hother))
          rw [List.append_assoc] at hparts
          obtain ⟨hname, -⟩ := List.cons.inj (List.append_cancel_left hparts)
          exact List.lt_irrefl name (hname ▸ ordered.1 entry hentry)

theorem unread_notices (notices : List Notice) (ending : Except LoadFault PathFilter) :
    (Walk.mk (notices.map .notice) ending).unread = notices.filterMap (·.ruleFile?) := by
  rw [unread, List.filterMap_map]
  rfl

theorem unread_ofFilter {fs : FileSystem} (wanted : List Text) {f : PathFilter}
    (ordered : fs.root.Ordered) (nested : f.nested = true) :
    (∀ file ∈ (ofFilter fs wanted f).unread,
      ∃ parts, parts ≠ [] ∧ file = (f.root.extend parts).child ruleFileName) ∧
      (ofFilter fs wanted f).unread.Nodup := by
  unfold ofFilter
  rcases hlist : fs.list f.root with fault | tree
  · exact ⟨nofun, List.nodup_nil⟩
  · obtain ⟨hunder, hnodup⟩ := unread_through wanted []
      (FileSystem.ordered_list ordered hlist) nested
    refine ⟨fun file hfile => ?_, hnodup⟩
    obtain ⟨entry, -, q, heq⟩ := hunder file hfile
    exact ⟨entry.1 :: q, List.cons_ne_nil _ _, heq⟩

end Walk

namespace Ignore.PathFilter

theorem ruleFiles_ofRoot {root : Path} {nested : Bool} {file : Option Node} {f : PathFilter}
    {notices : List Notice} (h : ofRoot root nested file = .ok (f, notices)) :
    notices.filterMap (·.ruleFile?) = [] ∨
      notices.filterMap (·.ruleFile?) = [root.child ruleFileName] := by
  unfold ofRoot at h
  rcases file with _ | node
  · cases h
    exact .inl rfl
  dsimp only at h
  rcases hlines : ruleLines node with fault | lines <;> rw [hlines] at h
  · cases h
    exact .inr rfl
  · dsimp only at h
    rcases hrules : Rule.ofLines lines with fault | rules <;> rw [hrules] at h <;> cases h
    exact .inl rfl

end Ignore.PathFilter

/-- A walk warns of each rule file at most once. -/
theorem Walk.unread_ofRoot {fs : FileSystem} {root : Path} {wanted : List Text}
    (ordered : fs.root.Ordered) : (ofRoot fs root wanted).unread.Nodup := by
  unfold ofRoot PathFilter.ofDirectory
  rcases PathFilter.ruleFile fs root with fault | file
  · exact List.nodup_nil
  dsimp only
  rcases hload : PathFilter.ofRoot root true file with fault | ⟨f, notices⟩
  · exact List.nodup_nil
  have hroot : f.root = root := by rw [PathFilter.ofRoot_eq_ok hload]
  have nested : f.nested = true := by rw [PathFilter.ofRoot_eq_ok hload]
  obtain ⟨hbelow, hnodup⟩ := unread_ofFilter wanted ordered nested
  show Walk.unread (andThen _ _) |>.Nodup
  rw [andThen_of_ok rfl]
  have hunread : (Walk.mk (notices.map Visit.notice ++ (ofFilter fs wanted f).visits)
      (ofFilter fs wanted f).ending).unread =
        notices.filterMap (·.ruleFile?) ++ (ofFilter fs wanted f).unread := by
    rw [← unread_notices notices (.ok f)]
    exact List.filterMap_append
  rw [hunread]
  rcases PathFilter.ruleFiles_ofRoot hload with hnone | hone
  · rwa [hnone]
  · rw [hone]
    refine List.nodup_cons.mpr ⟨fun hmem => ?_, hnodup⟩
    obtain ⟨parts, hne, heq⟩ := hbelow _ hmem
    have hown : (root.extend []).child ruleFileName = (root.extend parts).child ruleFileName := by
      rw [Path.extend_nil, heq, hroot]
    exact hne (ruleFile_inj hown).symm

/-- No file that a scan reads is a reason to warn of a rule file. -/
theorem Outcome.filterMap_notices (visit : Visit) :
    (Outcome.ofVisit visit).notices.filterMap (·.ruleFile?) = visit.ruleFile?.toList := by
  cases visit with
  | notice n => rcases h : n.ruleFile? with _ | file <;> simp [ofVisit, notices, Visit.ruleFile?, h]
  | file parts content =>
    unfold ofVisit
    dsimp only
    rcases Utf8.decode content with fault | text
    · rfl
    · show ((Literal.unterminated? text).toList.map Notice.unterminated).filterMap _ = []
      rcases Literal.unterminated? text <;> rfl

theorem DirectoryScan.unread_ofWalk (w : Walk) :
    (ofWalk w).notices.filterMap (·.ruleFile?) = w.unread := by
  rw [notices, ofWalk, List.flatMap_map, List.filterMap_flatMap, Walk.unread,
    List.filterMap_eq_flatMap_toList]
  simp only [Outcome.filterMap_notices]

end DqlScan
