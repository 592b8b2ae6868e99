import DqlScan.Proofs.Json.Written
import DqlScan.Result.Stored
import Mathlib.Data.List.Basic

/-!
# Written results read back

A result is read as itself from the text that it is written as (`ScanResult.read_written`), if its
integers have no more digits than the reader takes.
-/

namespace DqlScan

/-! ### Stored results -/

theorem StoredQuery.ofJson_json (q : StoredQuery) : StoredQuery.ofJson q.json = .ok q := rfl

theorem StoredQuery.ofItems_json (queries : List StoredQuery) :
    StoredQuery.ofItems (queries.map StoredQuery.json) = .ok queries := by
  induction queries with
  | nil => rfl
  | cons q queries ih =>
    rw [List.map_cons, ofItems, ofJson_json, ih]
    rfl

theorem StoredResult.ofJson_json (r : StoredResult) : StoredResult.ofJson r.json = .ok r := by
  have hqueries := StoredQuery.ofItems_json r.queries
  show (do
    let queries ← StoredQuery.ofItems (r.queries.map StoredQuery.json)
    return (⟨queries, r.filesScanned, r.unreadable⟩ : StoredResult)) = Except.ok r
  rw [hqueries]
  rfl

theorem StoredResult.read_json {r : StoredResult} (hr : r.json.Within limits) :
    StoredResult.read r.json.write = .ok r := by
  rw [StoredResult.read, Json.read_write hr]
  exact r.ofJson_json

/-! ### Results -/

def ReadableInt (n : Int) : Prop := (Json.int n).Within StoredResult.limits

instance (n : Int) : Decidable (ReadableInt n) :=
  inferInstanceAs (Decidable ((Text.ofNat n.natAbs).length ≤ StoredResult.limits.digits))

structure ScanResult.Readable (r : ScanResult) : Prop where
  filesScanned : ReadableInt r.filesScanned
  places : ∀ q ∈ r.queries, ReadableInt q.line ∧ ReadableInt q.column

theorem Query.stored_injective : Function.Injective Query.stored := by
  rintro ⟨text, file, line, column⟩ ⟨text', file', line', column'⟩ heq
  simp_all [stored]

theorem ScanResult.stored_injective : Function.Injective ScanResult.stored := by
  rintro ⟨queries, filesScanned, unreadable⟩ ⟨queries', filesScanned', unreadable'⟩ heq
  simp only [stored, StoredResult.mk.injEq, Json.int.injEq] at heq
  obtain ⟨hqueries, rfl, hunreadable⟩ := heq
  have htexts : Function.Injective Json.str := fun _ _ h => Json.str.inj h
  rw [List.map_injective_iff.mpr Query.stored_injective hqueries,
    List.map_injective_iff.mpr htexts hunreadable]

/-! ### Limits for results -/

section Limits

variable {digits depth : Nat}

theorem Json.within_texts (ts : List Text) : (Json.texts ts).Within ⟨digits, depth + 1⟩ := by
  refine ⟨⟨digits, depth⟩, rfl, ?_⟩
  rw [Json.itemsWithin_iff, List.forall_mem_map]
  exact fun t _ => trivial

theorem Query.within_json {q : Query} (hline : (Text.ofNat q.line.natAbs).length ≤ digits)
    (hcolumn : (Text.ofNat q.column.natAbs).length ≤ digits) :
    q.json.Within ⟨digits, depth + 1⟩ := by
  refine Json.within_record rfl (by simp) ?_
  simp only [List.forall_mem_cons, List.not_mem_nil, false_imp_iff, implies_true, and_true]
  exact ⟨trivial, trivial, hline, hcolumn⟩

/-- The numbers in the places of queries have no more digits than that. -/
def PlacesWithin (queries : List Query) (digits : Nat) : Prop :=
  ∀ q ∈ queries, (Text.ofNat q.line.natAbs).length ≤ digits ∧
    (Text.ofNat q.column.natAbs).length ≤ digits

theorem PlacesWithin.json {queries : List Query} (h : PlacesWithin queries digits) :
    (Json.arr (queries.map Query.json)).Within ⟨digits, depth + 2⟩ := by
  refine ⟨⟨digits, depth + 1⟩, rfl, ?_⟩
  rw [Json.itemsWithin_iff, List.forall_mem_map]
  exact fun q hq => Query.within_json (h q hq).1 (h q hq).2

theorem ScanResult.within_json {r : ScanResult}
    (hfiles : (Text.ofNat r.filesScanned.natAbs).length ≤ digits)
    (hplaces : PlacesWithin r.queries digits) : r.json.Within ⟨digits, depth + 3⟩ := by
  refine Json.within_record rfl (by simp) ?_
  simp only [List.forall_mem_cons, List.not_mem_nil, false_imp_iff, implies_true, and_true]
  exact ⟨hplaces.json, hfiles, Json.within_texts r.unreadable⟩

end Limits

theorem ScanResult.Readable.within {r : ScanResult} (hr : r.Readable) :
    r.json.Within StoredResult.limits := ScanResult.within_json hr.filesScanned hr.places

theorem ScanResult.write_stored (r : ScanResult) : r.stored.write = .ok r.json.write := by
  have hflat : (r.stored.queries.all fun q => q.fields.all fun field =>
      field.depth ≤ StoredQuery.maxDepth) = true := by
    rw [stored, List.all_map, List.all_eq_true]
    exact fun q _ => rfl
  rw [StoredResult.write, if_pos hflat, json_stored]

/-- A result is written, and what is read from its text is that result and no other. -/
theorem ScanResult.read_written {r : ScanResult} (hr : r.Readable) :
    ∃ t, r.stored.write = .ok t ∧
      ∀ s : ScanResult, StoredResult.read t = .ok s.stored ↔ s = r := by
  have hread : StoredResult.read r.json.write = .ok r.stored := by
    rw [← r.json_stored]
    exact StoredResult.read_json (by rw [r.json_stored]; exact hr.within)
  refine ⟨r.json.write, r.write_stored, fun s => ⟨fun hs => ?_, ?_⟩⟩
  · rw [hread, Except.ok.injEq] at hs
    exact stored_injective hs.symm
  · rintro rfl
    exact hread

theorem ScanResult.read_written_sample :
    let r : ScanResult :=
      ⟨[⟨"fetch \"a\" | c:\\\x0b\u2028\n😀".toList, "a/é.js".toList, -3, 12⟩], 2,
        ["\x00\t\x7f".toList, []]⟩
    r.Readable ∧ ∃ t, r.stored.write = .ok t ∧
      ∀ s : ScanResult, StoredResult.read t = .ok s.stored ↔ s = r := by
  intro r
  have hr : r.Readable := ⟨by decide, by decide⟩
  exact ⟨hr, ScanResult.read_written hr⟩

end DqlScan
