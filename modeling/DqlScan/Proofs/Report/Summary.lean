import DqlScan.Proofs.Result.Stored
import DqlScan.Report
import Mathlib.Data.Finset.Card
import Mathlib.Data.Set.Card

/-!
# JSON reports read back

A JSON report holds what a stored result does, with counts that are right, so that the result can be
made of it again (`Report.read_jsonText`). A reader may limit the digits of a number; whatever it takes
at most, the numbers of the result must not have more.
-/

namespace DqlScan

/-! ### Names without repetitions -/

theorem nodup_eraseDups (names : List Text) : names.eraseDups.Nodup := by
  cases names with
  | nil => exact List.nodup_nil
  | cons name names =>
    rw [List.eraseDups_cons, List.nodup_cons]
    refine ⟨fun hmem => ?_, nodup_eraseDups _⟩
    rw [List.mem_eraseDups, List.mem_filter] at hmem
    simp at hmem
termination_by names.length
decreasing_by exact Nat.lt_succ_of_le (List.length_filter_le _ _)

theorem length_eraseDups (names : List Text) : names.eraseDups.length = names.toFinset.card := by
  rw [← List.toFinset_card_of_nodup (nodup_eraseDups names)]
  congr 1
  ext name
  simp

theorem ScanResult.filesWithQueries_le (r : ScanResult) : r.filesWithQueries ≤ r.queries.length := by
  rw [filesWithQueries, length_eraseDups, ← List.length_map (·.file)]
  exact List.toFinset_card_le _

/-- The values that the objects of a list have under a name. -/
def Json.valuesOf (name : Text) (items : List Json) : Set Json :=
  {value | ∃ members, .obj members ∈ items ∧ member? name members = some value}

theorem Query.valuesOf_file (queries : List Query) :
    Json.valuesOf "file_path".toList (queries.map Query.json) =
      Json.str '' {file | file ∈ queries.map (·.file)} := by
  ext value
  constructor
  · rintro ⟨members, hmem, hvalue⟩
    obtain ⟨q, hq, heq⟩ := List.mem_map.mp hmem
    cases heq
    exact ⟨q.file, List.mem_map_of_mem hq, Option.some.inj hvalue⟩
  · rintro ⟨file, hfile, rfl⟩
    obtain ⟨q, hq, rfl⟩ := List.mem_map.mp hfile
    exact ⟨_, List.mem_map_of_mem hq, rfl⟩

theorem ScanResult.ncard_files (r : ScanResult) :
    (Json.valuesOf "file_path".toList (r.queries.map Query.json)).ncard = r.filesWithQueries := by
  have hfiles : {file | file ∈ r.queries.map (·.file)} =
      ((r.queries.map (·.file)).toFinset : Set Text) := by
    ext file
    simp
  have hstr : Function.Injective Json.str := fun _ _ h => Json.str.inj h
  rw [Query.valuesOf_file, Set.ncard_image_of_injective _ hstr, hfiles, Set.ncard_coe_finset,
    filesWithQueries, length_eraseDups]

/-! ### Limits for reports -/

/-- The numbers of a result, and how many queries it has. No report of it has a number with more
digits. -/
def ScanResult.numbers (r : ScanResult) : List Int :=
  r.filesScanned :: r.queries.length :: r.queries.flatMap fun q => [q.line, q.column]

theorem Text.length_ofNat_mono {m n digits : Nat} (h : m ≤ n) (hn : (ofNat n).length ≤ digits) :
    (ofNat m).length ≤ digits := by
  have hpos : 0 < digits := by
    obtain ⟨c, ds, hds⟩ := Json.exists_cons_ofNat n
    rw [hds, List.length_cons] at hn
    omega
  rw [ofNat, Nat.length_toDigits_le_iff (by decide) hpos] at hn ⊢
  exact Nat.lt_of_le_of_lt h hn

section Limits

variable {r : ScanResult} {digits depth : Nat}

theorem ScanResult.placesWithin (h : ∀ n ∈ r.numbers, (Text.ofNat n.natAbs).length ≤ digits) :
    PlacesWithin r.queries digits := by
  intro q hq
  have hnumbers : ∀ n ∈ [q.line, q.column], n ∈ r.numbers := fun n hn =>
    List.mem_cons_of_mem _ (List.mem_cons_of_mem _ (List.mem_flatMap.mpr ⟨q, hq, hn⟩))
  exact ⟨h _ (hnumbers _ (by simp)), h _ (hnumbers _ (by simp))⟩

theorem Report.within_summary (h : ∀ n ∈ r.numbers, (Text.ofNat n.natAbs).length ≤ digits) :
    (summary r).Within ⟨digits, depth + 2⟩ := by
  have hqueries : (Text.ofNat r.queries.length).length ≤ digits :=
    h r.queries.length (List.mem_cons_of_mem _ List.mem_cons_self)
  refine Json.within_record rfl (by simp) ?_
  simp only [List.forall_mem_cons, List.not_mem_nil, false_imp_iff, implies_true, and_true]
  exact ⟨hqueries, h _ List.mem_cons_self, Text.length_ofNat_mono r.filesWithQueries_le hqueries,
    Json.within_texts r.unreadable⟩

theorem Report.within_json (h : ∀ n ∈ r.numbers, (Text.ofNat n.natAbs).length ≤ digits)
    (target : Text) : (json r target).Within ⟨digits, depth + 3⟩ := by
  refine Json.within_record rfl (by simp) ?_
  simp only [List.forall_mem_cons, List.not_mem_nil, false_imp_iff, implies_true, and_true]
  exact ⟨trivial, r.placesWithin h |>.json, within_summary h⟩

end Limits

/-! ### Reports read back -/

def StoredResult.readWithin (limits : Json.Limits) (t : Text) : Except StoredFault StoredResult :=
  match Json.read limits t with
  | .error fault => .error (.json fault)
  | .ok value => ofJson value

theorem StoredResult.read_eq : read = readWithin limits := rfl

theorem ScanResult.readWithin_json {r : ScanResult} {limits : Json.Limits}
    (hread : Json.read limits r.json.write = .ok r.json) (s : ScanResult) :
    StoredResult.readWithin limits r.json.write = .ok s.stored ↔ s = r := by
  have hstored : StoredResult.readWithin limits r.json.write = .ok r.stored := by
    rw [StoredResult.readWithin, hread, ← r.json_stored]
    exact r.stored.ofJson_json
  rw [hstored, Except.ok.injEq, stored_injective.eq_iff, eq_comm]

open Json in
/-- A report is read as an object with the target that was given, the queries that the stored result
has, how many they are and how many files they name. The result made of these queries, the number of
files and the unreadable files is the one that was reported, and no other. -/
theorem Report.read_jsonText (r : ScanResult) (target : Text) {limits : Limits}
    (hdepth : 3 ≤ limits.depth)
    (hdigits : ∀ n ∈ r.numbers, (Text.ofNat n.natAbs).length ≤ limits.digits) :
    ∃ text stored report commands summary scanned unreadable,
      r.stored.write = .ok text ∧ read limits text = .ok (.obj stored) ∧
      read limits (jsonText r target) = .ok (.obj report) ∧
      member? "target".toList report = some (.str target) ∧
      member? "commands".toList stored = some (.arr commands) ∧
      member? "commands".toList report = some (.arr commands) ∧
      member? "summary".toList report = some (.obj summary) ∧
      member? "total_commands".toList summary = some (.int commands.length) ∧
      member? "files_with_commands".toList summary =
        some (.int (valuesOf "file_path".toList commands).ncard) ∧
      member? "files_scanned".toList summary = some scanned ∧
      member? "unreadable_files".toList summary = some unreadable ∧
      ∀ s : ScanResult,
        StoredResult.readWithin limits (record [("commands", .arr commands),
          ("files_scanned", scanned), ("unreadable_files", unreadable)]).write = .ok s.stored ↔
          s = r := by
  obtain ⟨depth, hlimits⟩ : ∃ depth, limits = ⟨limits.digits, depth + 3⟩ :=
    ⟨limits.depth - 3, by rw [Nat.sub_add_cancel hdepth]⟩
  have hstored : read limits r.json.write = .ok r.json := by
    refine read_write ?_
    rw [hlimits]
    exact ScanResult.within_json (hdigits _ List.mem_cons_self) (r.placesWithin hdigits)
  have hreport : read limits (jsonText r target) = .ok (json r target) := by
    rw [jsonText, Text.unlines, List.flatMap_singleton]
    refine read_write_append ?_ (endsNumber_cons (by decide) []) rfl
    rw [hlimits]
    exact within_json hdigits target
  refine ⟨r.json.write, _, _, r.queries.map Query.json, _, .int r.filesScanned,
    .texts r.unreadable, r.write_stored, hstored, hreport, rfl, rfl, rfl, rfl, ?_, ?_, rfl, rfl,
    r.readWithin_json hstored⟩
  · rw [List.length_map]
    rfl
  · rw [r.ncard_files]
    rfl

theorem Report.read_jsonText_sample :
    let r : ScanResult :=
      ⟨[⟨"fetch \"a\"".toList, "a.js".toList, 1, 0⟩, ⟨"| sort b".toList, "a.js".toList, -2, 7⟩], 3,
        ["\x00\n\u2028".toList]⟩
    let target : Text := "a.js, \\".toList
    (∀ n ∈ r.numbers, (Text.ofNat n.natAbs).length ≤ StoredResult.limits.digits) ∧
      ∃ report summary,
        Json.read StoredResult.limits (jsonText r target) = .ok (.obj report) ∧
        Json.member? "target".toList report = some (.str target) ∧
        Json.member? "summary".toList report = some (.obj summary) ∧
        ∃ scanned unreadable commands,
          Json.member? "commands".toList report = some (.arr commands) ∧
          Json.member? "files_scanned".toList summary = some scanned ∧
          Json.member? "unreadable_files".toList summary = some unreadable ∧
          ∀ s : ScanResult, StoredResult.read (Json.record [("commands", .arr commands),
            ("files_scanned", scanned), ("unreadable_files", unreadable)]).write = .ok s.stored ↔
              s = r := by
  intro r target
  have hdigits : ∀ n ∈ r.numbers, (Text.ofNat n.natAbs).length ≤ StoredResult.limits.digits := by
    decide
  obtain ⟨_, _, report, commands, summary, scanned, unreadable, -, -, hreport, htarget, -, hcommands,
    hsummary, -, -, hscanned, hunreadable, hrebuilt⟩ :=
    Report.read_jsonText r target (by decide : 3 ≤ StoredResult.limits.depth) hdigits
  rw [← StoredResult.read_eq] at hrebuilt
  exact ⟨hdigits, report, summary, hreport, htarget, hsummary, scanned, unreadable, commands,
    hcommands, hscanned, hunreadable, hrebuilt⟩

end DqlScan
