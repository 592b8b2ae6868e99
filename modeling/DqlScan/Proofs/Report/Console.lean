import DqlScan.Proofs.Report.Lines
import DqlScan.Proofs.Report.Summary

/-!
# Console reports beside the others

What a console draws has a row for each entry of the report for an editor, and the counts of a JSON
report (`console_tells`). What it shows of a query is cut at a hundred characters, and after that
loses the control characters that a console acts on. The place of a query is shown as it is if the
console finds no markup in it.
-/

namespace DqlScan

/-! ### Numbers in a text -/

theorem Text.ofNat_injective : Function.Injective Text.ofNat :=
  Function.LeftInverse.injective Json.digitsValue_ofNat

theorem Text.ofInt_injective : Function.Injective Text.ofInt := by
  have hminus (a b : Nat) : ofNat a ≠ '-' :: ofNat b := by
    intro h
    have hmem : '-' ∈ ofNat a := by rw [h]; exact List.mem_cons_self
    exact absurd (Json.isDigit_of_mem_ofNat hmem) (by decide)
  intro m n h
  cases m with
  | ofNat a =>
    cases n with
    | ofNat b => exact congrArg Int.ofNat (ofNat_injective h)
    | negSucc b => exact absurd h (hminus a (b + 1))
  | negSucc a =>
    cases n with
    | ofNat b => exact absurd h.symm (hminus b (a + 1))
    | negSucc b => exact congrArg Int.negSucc (Nat.succ.inj (ofNat_injective (List.cons.inj h).2))

/-- A number is read up to a label that does not start with a digit or a minus sign. -/
theorem Text.ofInt_append_inj {m n : Int} {label s t : Text}
    (hlabel : ∃ c, label.head? = some c ∧ ¬(c = '-' ∨ c.isDigit = true))
    (h : ofInt m ++ (label ++ s) = ofInt n ++ (label ++ t)) : m = n ∧ s = t := by
  obtain ⟨c, hhead, hc⟩ := hlabel
  have hstop (t : Text) : ∀ x, (label ++ t).head? = some x → ¬(x = '-' ∨ x.isDigit = true) := by
    intro x hx
    rw [List.head?_append, hhead, Option.some_or] at hx
    exact Option.some.inj hx ▸ hc
  obtain ⟨hnumber, hrest⟩ := append_inj_of_boundary (fun _ => mem_ofInt) (fun _ => mem_ofInt)
    (hstop s) (hstop t) h
  exact ⟨ofInt_injective hnumber, List.append_cancel_left hrest⟩

theorem Text.ofNat_append_inj {m n : Nat} {label s t : Text}
    (hlabel : ∃ c, label.head? = some c ∧ ¬(c = '-' ∨ c.isDigit = true))
    (h : ofNat m ++ (label ++ s) = ofNat n ++ (label ++ t)) : m = n ∧ s = t := by
  obtain ⟨hnumber, hrest⟩ := ofInt_append_inj (m := m) (n := n) hlabel h
  exact ⟨Int.ofNat.inj hnumber, hrest⟩

namespace Report

/-! ### Partial maps over a list -/

section PartialMaps

variable {α β : Type} {f : α → Option β}

theorem isSome_mapM_iff {as : List α} :
    (as.mapM f).isSome = true ↔ ∀ a ∈ as, (f a).isSome = true := by
  induction as with
  | nil => simp
  | cons a as ih =>
    rw [List.mapM_cons, List.forall_mem_cons, ← ih]
    cases f a <;> cases as.mapM f <;> simp

theorem forall₂_of_mapM {as : List α} {bs : List β} (h : as.mapM f = some bs) :
    List.Forall₂ (fun a b => f a = some b) as bs := by
  induction as generalizing bs with
  | nil =>
    cases h
    exact .nil
  | cons a as ih =>
    rw [List.mapM_cons] at h
    obtain ⟨b, hb, h⟩ := Option.bind_eq_some_iff.mp h
    obtain ⟨later, hlater, h⟩ := Option.bind_eq_some_iff.mp h
    cases h
    exact .cons hb (ih hlater)

end PartialMaps

/-! ### Texts without markup -/

theorem isTagged_of_notMem {t : Text} (h : '[' ∉ t) : isTagged t = false := by
  induction t with
  | nil => rfl
  | cons c rest ih =>
    have hc : '[' ≠ c := List.ne_of_not_mem_cons h
    have hrest : '[' ∉ rest := List.not_mem_of_not_mem_cons h
    have htag : startsTag (c :: rest) = false := by
      unfold startsTag
      split
      · next heq => exact absurd (List.cons.inj heq).1.symm hc
      · rfl
    have hescape : ['\\', '['].isPrefixOf (c :: rest) = false := by
      rw [← Bool.not_eq_true, List.isPrefixOf_iff_prefix]
      rintro ⟨later, heq⟩
      cases heq
      exact hrest List.mem_cons_self
    rw [isTagged, htag, hescape, ih hrest]
    rfl

theorem isMarked_of_notMem (isEmoji : Text → Bool) {t : Text} (hbracket : '[' ∉ t)
    (hcolon : ':' ∉ t) : isMarked isEmoji t = false := by
  rw [isMarked, isTagged_of_notMem hbracket, List.splitOn_eq_singleton hcolon]
  rfl

theorem shownText_eq_self {t : Text} (h : ∀ c ∈ consoleControls, c ∉ t) : shownText t = t := by
  refine List.filter_eq_self.mpr fun c hc => ?_
  simpa using fun hcontrol => h c hcontrol hc

namespace Console

variable (c : Console)

theorem read_ofNat (n : Nat) : c.read (Text.ofNat n) = some (Text.ofNat n) := by
  have hdigit {x : Char} (hx : x ∈ Text.ofNat n) : x.isDigit = true := Json.isDigit_of_mem_ofNat hx
  have hunmarked : isMarked c.isEmoji (Text.ofNat n) = false :=
    isMarked_of_notMem _ (fun h => absurd (hdigit h) (by decide))
      fun h => absurd (hdigit h) (by decide)
  have hcontrols : ∀ x ∈ consoleControls, x.isDigit = false := by simp [consoleControls]
  rw [c.read_unmarked _ hunmarked, shownText_eq_self]
  intro x hx hmem
  exact absurd (hdigit hmem) (by simp [hcontrols x hx])

/-! ### Rows -/

theorem mapM_row (number : Nat) (q : Query) :
    (row number q).mapM c.cell =
      (c.read q.place).map fun place =>
        [Text.ofNat number, place, shownText (shortened q.text)] := by
  have hnumber : c.cell (.markup (Text.ofNat number)) = some (Text.ofNat number) :=
    c.read_ofNat number
  have hplace : c.cell (.markup q.place) = c.read q.place := rfl
  rw [row, List.mapM_cons, List.mapM_cons, List.mapM_cons, hnumber, hplace]
  cases c.read q.place <;> rfl

end Console

theorem length_rowsFrom (number : Nat) (queries : List Query) :
    (rowsFrom number queries).length = queries.length := by
  induction queries generalizing number with
  | nil => rfl
  | cons q queries ih => rw [rowsFrom, List.length_cons, ih, List.length_cons]

theorem getElem?_rowsFrom (number k : Nat) (queries : List Query) :
    (rowsFrom number queries)[k]? = queries[k]?.map (row (number + k)) := by
  induction queries generalizing number k with
  | nil => rfl
  | cons q queries ih =>
    cases k with
    | zero => rfl
    | succ k =>
      rw [rowsFrom, List.getElem?_cons_succ, List.getElem?_cons_succ, ih, Nat.add_right_comm]
      rfl

theorem mem_rowsFrom {number : Nat} {queries : List Query} {cells : List Cell}
    (h : cells ∈ rowsFrom number queries) : ∃ n, ∃ q ∈ queries, cells = row n q := by
  obtain ⟨k, hk⟩ := List.mem_iff_getElem?.mp h
  rw [getElem?_rowsFrom] at hk
  obtain ⟨q, hq, rfl⟩ := Option.map_eq_some_iff.mp hk
  exact ⟨number + k, q, List.mem_of_getElem? hq, rfl⟩

/-- A text as it is if it has a hundred characters at most, else a hundred of which the first 99 are
its own and the last is an ellipsis. -/
def Shortens (text cell : Text) : Prop :=
  (text.length ≤ 100 → cell = text) ∧
    (100 < text.length → cell.length = 100 ∧ cell.take 99 = text.take 99 ∧ cell[99]? = some '…')

instance (text cell : Text) : Decidable (Shortens text cell) :=
  inferInstanceAs (Decidable (_ ∧ _))

theorem shortens_shortened (text : Text) : Shortens text (shortened text) := by
  unfold shortened maxQueryWidth
  constructor
  · intro h
    rw [if_neg (Nat.not_lt.mpr h)]
  · intro h
    have htake : (text.take 99).length = 99 := by
      rw [List.length_take]
      omega
    rw [if_pos h]
    refine ⟨by simp [htake], ?_, ?_⟩
    · exact List.take_left' htake
    · rw [List.getElem?_append_right (Nat.le_of_eq htake), htake]
      rfl

/-! ### Counts -/

namespace Counts

/-- The counts of a JSON report. The unreadable files are counted by the length of their list. -/
def ToldBy (report : Json) (c : Counts) : Prop :=
  ∃ members summary files, report = .obj members ∧
    Json.member? "summary".toList members = some (.obj summary) ∧
    Json.member? "total_commands".toList summary = some (.int c.queries) ∧
    Json.member? "files_scanned".toList summary = some (.int c.filesScanned) ∧
    Json.member? "files_with_commands".toList summary = some (.int c.filesWithQueries) ∧
    Json.member? "unreadable_files".toList summary = some (.arr files) ∧
    c.unreadable = if files.length = 0 then none else some files.length

theorem unreadable_inj {c d : Counts} {s t : Text}
    (h : c.unreadableLine ++ ("目标: ".toList ++ s) = d.unreadableLine ++ ("目标: ".toList ++ t)) :
    c.unreadable = d.unreadable := by
  unfold unreadableLine at h
  cases hc : c.unreadable with
  | none =>
    cases hd : d.unreadable with
    | none => rfl
    | some n => simp [hc, hd] at h
  | some m =>
    cases hd : d.unreadable with
    | none => simp [hc, hd] at h
    | some n =>
      simp only [hc, hd, List.append_assoc] at h
      obtain ⟨hcount, -⟩ :=
        Text.ofNat_append_inj ⟨'\n', rfl, by decide⟩ (List.append_cancel_left h)
      exact congrArg some hcount

/-- A panel tells its counts, whatever the target is. -/
theorem panel_inj {c d : Counts} {s t : Text} (h : c.panel s = d.panel t) : c = d := by
  unfold panel at h
  simp only [List.append_assoc] at h
  obtain ⟨hqueries, h⟩ :=
    Text.ofNat_append_inj ⟨'\n', by simp, by decide⟩ (List.append_cancel_left h)
  obtain ⟨hscanned, h⟩ := Text.ofInt_append_inj ⟨' ', by simp, by decide⟩ h
  obtain ⟨hfiles, h⟩ := Text.ofNat_append_inj ⟨'\n', rfl, by decide⟩ h
  exact Counts.ext hqueries hscanned hfiles (unreadable_inj h)

end Counts

theorem toldBy_json (r : ScanResult) (target : Text) : (counts r).ToldBy (json r target) := by
  refine ⟨_, _, r.unreadable.map .str, rfl, rfl, rfl, rfl, rfl, rfl, ?_⟩
  simp only [counts, List.length_map, List.length_eq_zero_iff]

/-! ### Drawn reports -/

def tables (blocks : List Block) : List (List (List Text)) :=
  blocks.filterMap fun
    | .table _ rows => some rows
    | _ => none

def panels (blocks : List Block) : List Text :=
  blocks.filterMap fun
    | .panel content _ _ => some content
    | _ => none

/-- What a console shows of a report in which it draws these rows. -/
def drawn (r : ScanResult) (target : Text) (rows : List (List Text)) : List Block :=
  let table := if r.queries = [] then []
    else [.table ["#".toList, "位置".toList, "DQL 命令".toList] rows, .blank]
  .blank :: table ++ [.panel ((counts r).panel (shownText target)) "📋 dql-format".toList
    (if r.queries = [] then "yellow" else "green").toList, .blank]

theorem tables_drawn (r : ScanResult) (target : Text) (rows : List (List Text)) :
    tables (drawn r target rows) = if r.queries = [] then [] else [rows] := by
  unfold drawn
  split <;> rfl

theorem panels_drawn (r : ScanResult) (target : Text) (rows : List (List Text)) :
    panels (drawn r target rows) = [(counts r).panel (shownText target)] := by
  unfold drawn
  split <;> rfl

namespace Console

variable (c : Console)

theorem mapM_summaryPanel (r : ScanResult) (target : Text) :
    (summaryPanel r target).mapM c.cell =
      some (.panel ((counts r).panel (shownText target)) "📋 dql-format".toList
        (if r.queries = [] then "yellow" else "green").toList) := by
  have htitle : c.cell (.markup (bold "📋 dql-format".toList)) = some "📋 dql-format".toList :=
    c.read_bold _ (by decide) (by decide) (by decide)
  rw [summaryPanel, Block.mapM, htitle]
  rfl

theorem mapM_queryTable (r : ScanResult) :
    (queryTable r).mapM c.cell = ((rowsFrom 1 r.queries).mapM (List.mapM c.cell)).map
      (.table ["#".toList, "位置".toList, "DQL 命令".toList]) := by
  have hheader {t : Text} (hbracket : '[' ∉ t) (hcolon : ':' ∉ t) (hshown : shownText t = t) :
      c.cell (.markup t) = some t :=
    (c.read_unmarked t (isMarked_of_notMem _ hbracket hcolon)).trans (congrArg some hshown)
  have hheaders : [Cell.markup "#".toList, .markup "位置".toList, .markup "DQL 命令".toList].mapM
      c.cell = some ["#".toList, "位置".toList, "DQL 命令".toList] := by
    rw [List.mapM_cons, List.mapM_cons, List.mapM_cons,
      hheader (t := "#".toList) (by decide) (by decide) (by decide),
      hheader (t := "位置".toList) (by decide) (by decide) (by decide),
      hheader (t := "DQL 命令".toList) (by decide) (by decide) (by decide)]
    rfl
  rw [queryTable, Block.mapM, hheaders]
  cases (rowsFrom 1 r.queries).mapM (List.mapM c.cell) <;> rfl

theorem draw_blocks (r : ScanResult) (target : Text) :
    c.draw (blocks r target) =
      ((rowsFrom 1 r.queries).mapM (List.mapM c.cell)).map (drawn r target) := by
  have hblank : Block.mapM c.cell .blank = some .blank := rfl
  unfold draw blocks drawn
  by_cases hnone : r.queries = []
  · rw [if_pos hnone, if_pos hnone, hnone]
    simp only [List.cons_append, List.nil_append, List.mapM_cons, hblank, mapM_summaryPanel, hnone]
    rfl
  · rw [if_neg hnone, if_neg hnone]
    simp only [List.cons_append, List.nil_append, List.mapM_cons, hblank, mapM_summaryPanel,
      mapM_queryTable, hnone]
    cases (rowsFrom 1 r.queries).mapM (List.mapM c.cell) <;> rfl

theorem isSome_draw_iff (r : ScanResult) (target : Text) :
    (c.draw (blocks r target)).isSome = true ↔
      ∀ q ∈ r.queries, (c.read q.place).isSome = true := by
  rw [draw_blocks, Option.isSome_map, isSome_mapM_iff]
  constructor
  · intro h q hq
    obtain ⟨k, hk⟩ := List.mem_iff_getElem?.mp hq
    have hrow : (rowsFrom 1 r.queries)[k]? = some (row (1 + k) q) := by
      rw [getElem?_rowsFrom, hk, Option.map_some]
    have hdrawn := h _ (List.mem_of_getElem? hrow)
    rwa [mapM_row, Option.isSome_map] at hdrawn
  · intro h cells hcells
    obtain ⟨number, q, hq, rfl⟩ := mem_rowsFrom hcells
    rw [mapM_row, Option.isSome_map]
    exact h q hq

theorem length_rows {queries : List Query} {rows : List (List Text)}
    (hrows : (rowsFrom 1 queries).mapM (List.mapM c.cell) = some rows) :
    rows.length = queries.length :=
  (forall₂_of_mapM hrows).length_eq.symm.trans (length_rowsFrom 1 queries)

theorem getElem?_rows {queries : List Query} {rows : List (List Text)}
    (hrows : (rowsFrom 1 queries).mapM (List.mapM c.cell) = some rows) {k : Nat} {q : Query}
    (hq : queries[k]? = some q) :
    ∃ place, c.read q.place = some place ∧
      rows[k]? = some [Text.ofNat (k + 1), place, shownText (shortened q.text)] := by
  have hgiven : (rowsFrom 1 queries)[k]? = some (row (k + 1) q) := by
    rw [getElem?_rowsFrom, hq, Nat.add_comm]
    rfl
  have hlt : k < rows.length := by
    rw [c.length_rows hrows]
    exact (List.getElem?_eq_some_iff.mp hq).1
  obtain ⟨hltGiven, hrow⟩ := List.getElem?_eq_some_iff.mp hgiven
  have hcells : (row (k + 1) q).mapM c.cell = some rows[k] :=
    hrow ▸ (forall₂_of_mapM hrows).get hltGiven hlt
  rw [mapM_row] at hcells
  obtain ⟨place, hplace, hdrawn⟩ := Option.map_eq_some_iff.mp hcells
  exact ⟨place, hplace, by rw [List.getElem?_eq_getElem hlt, hdrawn]⟩

end Console

/-! ### Reports side by side -/

/-- A console can draw a report in which no place has markup. What it draws has a table exactly if there
is a query. Each row has the number of its query, the place that the line for an editor starts with if
there is no markup in it, and the text of the query, shortened; both without the control characters
that a console acts on. Whatever counts can be read from the panel are those of the JSON report, and
the files with queries are counted once each. -/
theorem console_tells (c : Console) (r : ScanResult) (target : Text) :
    ((∀ q ∈ r.queries, isMarked c.isEmoji q.place = false) →
      (c.draw (blocks r target)).isSome = true) ∧
    ∀ drawn, c.draw (blocks r target) = some drawn →
      ∃ rows records content,
        tables drawn = (if r.queries = [] then [] else [rows]) ∧
        lines true r = Text.unlines records ∧
        rows.length = r.queries.length ∧ records.length = r.queries.length ∧
        (∀ k q, r.queries[k]? = some q → ∃ place shown full cell,
          rows[k]? = some [Text.ofNat (k + 1), shown, cell] ∧
          records[k]? = some (place ++ ": ".toList ++ q.text) ∧
          place = q.file ++ ':' :: Text.ofInt q.line ++ ':' :: Text.ofInt q.column ∧
          (isMarked c.isEmoji place = false →
            shown = place.filter (· ∉ ['\x07', '\x08', '\x0b', '\x0c', '\r'])) ∧
          Shortens q.text full ∧
          cell = full.filter (· ∉ ['\x07', '\x08', '\x0b', '\x0c', '\r'])) ∧
        panels drawn = [content] ∧
        (∃ counts shown, content = Counts.panel counts shown) ∧
        ∀ counts shown, content = Counts.panel counts shown →
          counts.ToldBy (json r target) ∧
            counts.filesWithQueries = (r.queries.map (·.file)).toFinset.card := by
  constructor
  · intro hunmarked
    refine (c.isSome_draw_iff r target).mpr fun q hq => ?_
    rw [c.read_unmarked _ (hunmarked q hq)]
    rfl
  intro blocks hdrawn
  rw [c.draw_blocks] at hdrawn
  obtain ⟨rows, hrows, rfl⟩ := Option.map_eq_some_iff.mp hdrawn
  refine ⟨rows, r.queries.map (Query.record true), (counts r).panel (shownText target),
    tables_drawn r target rows, lines_eq true r,
    c.length_rows hrows, List.length_map _, ?_,
    panels_drawn r target rows, ⟨_, _, rfl⟩, ?_⟩
  · intro k q hq
    obtain ⟨shown, hread, hrow⟩ := c.getElem?_rows hrows hq
    refine ⟨q.place, shown, shortened q.text, shownText (shortened q.text), hrow, ?_, rfl, ?_,
      shortens_shortened q.text, rfl⟩
    · rw [List.getElem?_map, hq]
      rfl
    · intro hunmarked
      rw [c.read_unmarked _ hunmarked] at hread
      exact (Option.some.inj hread).symm
  · intro told shown h
    obtain rfl := Counts.panel_inj h
    exact ⟨toldBy_json r target, length_eraseDups _⟩

/-- A query with brackets and one that is cut, in files of which one has a bracket in its name, and two
files that could not be read. -/
theorem console_tells_sample :
    let c : Console := .bare
    let q : Query := ⟨"fetch [logs]".toList, "a[1].js".toList, 1, 4⟩
    let long : Query := ⟨List.replicate 101 'x', "b.js".toList, 2, 0⟩
    let r : ScanResult := ⟨[q, long], 3, ["c.js".toList, "d.js".toList]⟩
    let told : Counts := ⟨2, 3, 2, some 2⟩
    (∀ q ∈ r.queries, isMarked c.isEmoji q.place = false) ∧
    ∃ drawn rows content, c.draw (blocks r []) = some drawn ∧
      tables drawn = [rows] ∧
      rows[0]? = some ["1".toList, "a[1].js:1:4".toList, "fetch [logs]".toList] ∧
      (∃ full cell : Text, rows[1]? = some ["2".toList, "b.js:2:0".toList, cell] ∧
        full.length = 100 ∧ cell = full.filter (· ∉ ['\x07', '\x08', '\x0b', '\x0c', '\r'])) ∧
      panels drawn = [content] ∧ content = told.panel [] ∧ told.ToldBy (json r []) := by
  intro c q long r told
  have hunmarked : ∀ q ∈ r.queries, isMarked c.isEmoji q.place = false := by decide
  obtain ⟨hdrawn, htells⟩ := console_tells c r []
  obtain ⟨drawn, hdraw⟩ := Option.isSome_iff_exists.mp (hdrawn hunmarked)
  obtain ⟨rows, records, content, htables, -, -, -, hrows, hpanels, -, htold⟩ := htells drawn hdraw
  obtain ⟨_, _, _, _, hrow, -, rfl, hplace, hfull, rfl⟩ := hrows 0 q rfl
  obtain ⟨_, _, full, cell, hrow', -, rfl, hplace', hfull', hcell⟩ := hrows 1 long rfl
  have hcounts : counts r = told := by decide
  have hpanel : panels drawn = [told.panel []] := by
    rw [Console.draw_blocks] at hdraw
    obtain ⟨_, -, rfl⟩ := Option.map_eq_some_iff.mp hdraw
    rw [panels_drawn, hcounts]
    rfl
  have hcontent : content = told.panel [] := List.singleton_inj.mp (hpanels.symm.trans hpanel)
  rw [hfull.1 (by decide), hplace (by decide)] at hrow
  rw [hplace' (by decide)] at hrow'
  exact ⟨hunmarked, drawn, rows, content, hdraw, htables, hrow,
    ⟨full, cell, hrow', (hfull'.2 (by decide)).1, hcell⟩, hpanels, hcontent,
    (htold told [] hcontent).1⟩

/-- The carriage return of a text with both line ends is not shown, and what comes before the
ellipsis is no longer 99 characters then. -/
theorem console_drops_returns :
    let q : Query := ⟨"fetch logs\r\n| limit 5".toList, "q.ts".toList, 1, 4⟩
    let long : Query := ⟨"data\r\n".toList ++ List.replicate 95 'x', "q.ts".toList, 3, 4⟩
    let r : ScanResult := ⟨[q, long], 1, []⟩
    ∃ drawn cell cell', Console.bare.draw (blocks r "q.ts".toList) = some drawn ∧
      tables drawn =
        [[["1".toList, "q.ts:1:4".toList, cell], ["2".toList, "q.ts:3:4".toList, cell']]] ∧
      cell = "fetch logs\n| limit 5".toList ∧ ¬Shortens q.text cell ∧
      cell'.length = 99 ∧ ¬Shortens long.text cell' := by
  intro q long r
  exact ⟨_, _, _, rfl, rfl, by decide, by decide, by decide, by decide⟩

end Report

end DqlScan
