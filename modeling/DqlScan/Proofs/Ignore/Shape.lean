import DqlScan.Proofs.Except
import DqlScan.Ignore.Rule
import DqlScan.Proofs.File.Lookup
import DqlScan.Proofs.Ignore.Language

/-!
# Shapes of compiled rules

A compiled pattern has at most one boundary. It stands at the end, behind a piece of a name
(`Rule.ofLines_shaped`).
-/

namespace DqlScan.Ignore

def Piece.InName : Piece → Prop
  | .literal c => c ≠ '/'
  | .oneOf _ | .anyChar | .star | .name => True
  | .leadingDirectories | .innerDirectories | .boundary => False

/-- There is no boundary, or the only one is at the end, behind a name. -/
def Shaped (pieces : List Piece) : Prop :=
  .boundary ∉ pieces ∨
    ∃ body last, pieces = body ++ [last, .boundary] ∧ .boundary ∉ body ∧ last.InName

theorem Piece.InName.ne_boundary {piece : Piece} (h : piece.InName) : piece ≠ .boundary := by
  rintro rfl
  exact h

theorem Shaped.append {pieces : List Piece} (h : Shaped pieces) (before : List Piece)
    (hbefore : .boundary ∉ before) : Shaped (before ++ pieces) := by
  rcases h with h | ⟨body, last, rfl, hbody, hlast⟩
  · exact .inl (by simp [hbefore, h])
  · exact .inr ⟨before ++ body, last, by simp, by simp [hbefore, hbody], hlast⟩

/-- The next piece of a segment, and the others. -/
theorem globFrom_cons {c : Char} {rest : Text} (hslash : '/' ∉ c :: rest) {pieces : List Piece}
    (h : globFrom 0 (c :: rest) = .ok pieces) :
    ∃ taken piece later, globFrom taken rest = .ok later ∧ piece.InName ∧
      pieces = piece :: later := by
  rw [List.mem_cons, not_or] at hslash
  have hcons : ∀ (piece : Piece) {n : Nat}, piece.InName →
      (globFrom n rest).map (piece :: ·) = .ok pieces →
      ∃ taken piece later, globFrom taken rest = .ok later ∧ piece.InName ∧
        pieces = piece :: later := by
    intro piece n hpiece hmap
    obtain ⟨later, hlater, rfl⟩ := map_eq_ok.mp hmap
    exact ⟨n, piece, later, hlater, hpiece, rfl⟩
  unfold globFrom at h
  split at h
  · next heq => cases heq
  split at h
  · split at h
    · cases h
    · next x more =>
      have hx : x ≠ '/' := by
        rintro rfl
        exact hslash.2 List.mem_cons_self
      exact hcons (.literal x) hx h
  split at h
  · exact hcons .star trivial h
  split at h
  · exact hcons .anyChar trivial h
  split at h
  · split at h
    · cases h
    · next set n _ => exact hcons (.oneOf set) trivial h
  · exact hcons (.literal c) (Ne.symm hslash.1) h

theorem globFrom_inName {t : Text} (hslash : '/' ∉ t) {taken : Nat} {pieces : List Piece}
    (h : globFrom taken t = .ok pieces) : ∀ piece ∈ pieces, piece.InName := by
  induction t generalizing taken pieces with
  | nil =>
    cases h
    exact fun piece hpiece => absurd hpiece List.not_mem_nil
  | cons c rest ih =>
    have hrest : '/' ∉ rest := fun h => hslash (List.mem_cons_of_mem _ h)
    cases taken with
    | succ n => exact ih hrest h
    | zero =>
      obtain ⟨n, piece, later, hlater, hpiece, rfl⟩ := globFrom_cons hslash h
      exact List.forall_mem_cons.mpr ⟨hpiece, ih hrest hlater⟩

theorem segmentPieces_inName {segment : Text} (hslash : '/' ∉ segment) {pieces : List Piece}
    (h : segmentPieces segment = .ok pieces) : ∀ piece ∈ pieces, piece.InName := by
  unfold segmentPieces at h
  split at h
  · cases h
    exact List.forall_mem_singleton.mpr trivial
  · exact globFrom_inName hslash h

theorem segmentPieces_ne_nil {segment : Text} (hslash : '/' ∉ segment) (hne : segment ≠ [])
    {pieces : List Piece} (h : segmentPieces segment = .ok pieces) : pieces ≠ [] := by
  unfold segmentPieces at h
  split at h
  · cases h
    exact List.cons_ne_nil _ _
  · obtain ⟨c, rest, rfl⟩ := List.exists_cons_of_ne_nil hne
    obtain ⟨n, piece, later, -, -, rfl⟩ := globFrom_cons hslash h
    exact List.cons_ne_nil _ _

/-- Segments of a line as they are compiled: the last one is not empty. -/
structure Segments (segments : List Text) : Prop where
  noSlash : ∀ segment ∈ segments, '/' ∉ segment
  last : segments.getLast? ≠ some []

theorem Segments.tail {segment : Text} {rest : List Text} (h : Segments (segment :: rest)) :
    Segments rest := by
  refine ⟨fun s hs => h.noSlash s (List.mem_cons_of_mem _ hs), ?_⟩
  cases rest with
  | nil => simp
  | cons next rest => simpa using h.last

/-- A name and what is compiled from the segments behind it. -/
theorem shaped_name {segment : Text} {rest : List Text} (hsegments : Segments (segment :: rest))
    {here later : List Piece} (hhere : segmentPieces segment = .ok here)
    (hlater : rest = [] ∧ later = [.boundary] ∨ Shaped later) : Shaped (here ++ later) := by
  have hslash := hsegments.noSlash _ List.mem_cons_self
  have hnames := segmentPieces_inName hslash hhere
  have hnone : .boundary ∉ here := fun hmem => (hnames _ hmem).ne_boundary rfl
  rcases hlater with ⟨rfl, rfl⟩ | hlater
  · have hne : segment ≠ [] := by
      rintro rfl
      exact hsegments.last rfl
    obtain ⟨body, last, rfl⟩ := List.eq_nil_or_concat here |>.resolve_left
      (segmentPieces_ne_nil hslash hne hhere)
    refine .inr ⟨body, last, by simp, fun hmem => hnone (by simp [hmem]), hnames last (by simp)⟩
  · exact hlater.append here hnone

theorem followingPieces_shaped {segments : List Text} (hsegments : Segments segments)
    {pieces : List Piece} (h : followingPieces segments = .ok pieces) :
    segments = [] ∧ pieces = [.boundary] ∨ Shaped pieces := by
  induction segments generalizing pieces with
  | nil =>
    cases h
    exact .inl ⟨rfl, rfl⟩
  | cons segment rest ih =>
    refine .inr ?_
    unfold followingPieces at h
    split at h
    · split at h
      · cases h
        exact .inl (by simp)
      · next hrest =>
        obtain ⟨later, hlater, rfl⟩ := map_eq_ok.mp h
        have hshaped := (ih hsegments.tail hlater).resolve_left fun h => hrest h.1
        exact hshaped.append [.innerDirectories] (by simp)
    · obtain ⟨here, hhere, h⟩ := bind_eq_ok.mp h
      obtain ⟨later, hlater, h⟩ := bind_eq_ok.mp h
      cases h
      have hshaped := shaped_name hsegments hhere (ih hsegments.tail hlater)
      exact hshaped.append [.literal '/'] (by simp)

theorem startingPieces_shaped {segments : List Text} (hsegments : Segments segments)
    {pieces : List Piece} (h : startingPieces segments = .ok pieces) : Shaped pieces := by
  cases segments with
  | nil =>
    cases h
    exact .inl List.not_mem_nil
  | cons segment rest =>
    obtain ⟨here, hhere, h⟩ := bind_eq_ok.mp h
    obtain ⟨later, hlater, h⟩ := bind_eq_ok.mp h
    cases h
    exact shaped_name hsegments hhere (followingPieces_shaped hsegments.tail hlater)

def Pattern.Shaped : Pattern → Prop
  | .sequence pieces => Ignore.Shaped pieces
  | .everything | .insideDirectory => True

theorem Pattern.ofSegments_shaped {ofDirectory : Bool} {segments : List Text}
    (hsegments : Segments segments) {p : Pattern} (h : ofSegments ofDirectory segments = .ok p) :
    p.Shaped := by
  unfold ofSegments at h
  split at h
  · cases h
    split <;> exact trivial
  split at h
  · cases h
    exact trivial
  split at h
  · cases h
    exact trivial
  split at h
  · cases h
    exact .inl List.not_mem_nil
  split at h
  · obtain ⟨pieces, hpieces, rfl⟩ := map_eq_ok.mp h
    have hshaped := startingPieces_shaped hsegments.tail hpieces
    exact hshaped.append [.leadingDirectories] (by simp)
  · obtain ⟨pieces, hpieces, rfl⟩ := map_eq_ok.mp h
    exact startingPieces_shaped hsegments hpieces

/-! ### Shapes of compiled lines -/

theorem mem_anchored {segments : List Text} {segment : Text} (h : segment ∈ anchored segments) :
    segment ∈ segments ∨ segment = doubleStar := by
  unfold anchored at h
  split at h
  · exact .inl (List.mem_cons_of_mem _ h)
  · split at h
    · exact .inl h
    · exact (List.mem_cons.mp h).symm
  · split at h
    · exact .inl h
    · exact (List.mem_cons.mp h).symm
  · exact .inl h

theorem openEnd_concat (segments : List Text) (last : Text) :
    openEnd (segments ++ [last]) = segments ++ [if last = [] then doubleStar else last] := by
  induction segments with
  | nil =>
    rw [List.nil_append, openEnd]
    split <;> rfl
  | cons first segments ih =>
    rw [List.cons_append, openEnd, ih]
    · rfl
    · simp

theorem segments_openEnd {segments : List Text} (h : ∀ segment ∈ segments, '/' ∉ segment) :
    Segments (openEnd segments) := by
  obtain rfl | ⟨before, last, rfl⟩ := List.eq_nil_or_concat segments
  · exact ⟨h, by simp [openEnd]⟩
  rw [List.concat_eq_append, openEnd_concat]
  split
  · refine ⟨fun segment hsegment => ?_, by simp [doubleStar]⟩
    rcases List.mem_append.mp hsegment with hbefore | hlast
    · exact h segment (by simp [hbefore])
    · rw [List.mem_singleton.mp hlast]
      decide
  · next hlast =>
    exact ⟨fun segment hsegment => h segment (by simpa using hsegment), by simp [hlast]⟩

theorem Segments.collapse {segments : List Text} (h : Segments segments) :
    Segments (collapse segments) := by
  have hsame : ∀ segments : List Text, (∀ segment ∈ Ignore.collapse segments, segment ∈ segments) ∧
      (Ignore.collapse segments).getLast? = segments.getLast? := by
    intro segments
    fun_induction Ignore.collapse segments with
    | case1 a b rest hstars ih =>
      exact ⟨fun segment hsegment => List.mem_cons_of_mem _ (ih.1 segment hsegment), by simp [ih.2]⟩
    | case2 a b rest hstars ih =>
      refine ⟨fun segment hsegment => ?_, by rw [List.getLast?_cons, ih.2, ← List.getLast?_cons]⟩
      rcases List.mem_cons.mp hsegment with rfl | hsegment
      · exact List.mem_cons_self
      · exact List.mem_cons_of_mem _ (ih.1 segment hsegment)
    | case3 segments => exact ⟨fun segment hsegment => hsegment, rfl⟩
  obtain ⟨hmem, hlast⟩ := hsame segments
  exact ⟨fun segment hsegment => h.noSlash segment (hmem segment hsegment), hlast ▸ h.last⟩

theorem Pattern.ofBody_shaped {line body : Text} {p : Pattern}
    (h : ofBody line body = .ok (some p)) : p.Shaped := by
  have hsegments : Segments (collapse (openEnd (anchored (body.splitOn '/')))) := by
    refine (segments_openEnd fun segment hsegment => ?_).collapse
    rcases mem_anchored hsegment with hsplit | rfl
    · exact slash_notMem_of_mem_splitOn hsplit
    · decide
  unfold ofBody at h
  dsimp only at h
  split at h
  · cases h
  split at h
  · cases h
  · cases h
  · next hcompiled =>
    split at h
    · cases h
    · cases h
      exact ofSegments_shaped hsegments hcompiled

theorem Rule.ofLine_shaped {line : Text} {rule : Rule} (h : ofLine line = .ok (some rule)) :
    rule.pattern.Shaped := by
  have hbody : ∀ {negated : Bool} {body : Text},
      (Pattern.ofBody line body).map (·.map (Rule.mk negated)) = .ok (some rule) →
        rule.pattern.Shaped := by
    intro negated body hmap
    obtain ⟨pattern?, hpattern, hsome⟩ := map_eq_ok.mp hmap
    obtain ⟨pattern, rfl, rfl⟩ := Option.map_eq_some_iff.mp hsome
    exact Pattern.ofBody_shaped hpattern
  unfold ofLine at h
  dsimp only at h
  split at h
  · cases h
  · cases h
  · cases h
  · exact hbody h
  · exact hbody h

theorem Rule.ofLines_shaped {lines : List Text} {rules : List Rule}
    (h : ofLines lines = .ok rules) : ∀ rule ∈ rules, rule.pattern.Shaped := by
  induction lines generalizing rules with
  | nil =>
    cases h
    exact fun rule hrule => absurd hrule List.not_mem_nil
  | cons line later ih =>
    obtain ⟨here, hhere, h⟩ := bind_eq_ok.mp h
    obtain ⟨more, hmore, h⟩ := bind_eq_ok.mp h
    cases h
    intro rule hrule
    rcases List.mem_append.mp hrule with hrule | hrule
    · exact ofLine_shaped (by rwa [Option.mem_toList.mp hrule] at hhere)
    · exact ih hmore rule hrule

end DqlScan.Ignore
