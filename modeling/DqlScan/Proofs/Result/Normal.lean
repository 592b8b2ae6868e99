import DqlScan.Proofs.Result.Shape
import DqlScan.Proofs.Result.Stored

/-!
# Normal texts of stored results

Reading a result and writing it again gives a text that this leaves as it is, whatever the fields of
the result hold, if all numbers are integers (`StoredResult.normalize?_normal`).
-/

namespace DqlScan

/-- The text of the result that a text holds, if it can be read and written. -/
def StoredResult.normalize? (t : Text) : Option Text :=
  (read t).toOption.bind fun r => r.write.toOption

/-! ### What a read result holds -/

namespace Json

variable {limits inner : Limits}

theorem Gives.within {members : List (Text × Json)} {name : Text} {other value : Json}
    (h : Gives members name other value) (hmembers : MembersWithin members limits)
    (hother : other.Within limits) : value.Within limits := by
  rcases h with h | ⟨-, rfl⟩
  · exact membersWithin_iff.mp hmembers _ h
  · exact hother

/-- The items that a value is gone through by keep within the limits of those of a list. -/
theorem Iterates.within {v : Json} {items : List Json} (h : v.Iterates items)
    (hv : v.Within limits) (hinner : limits.inner? = some inner) : ItemsWithin items inner := by
  cases h with
  | list items =>
    obtain ⟨other, hother, hitems⟩ := hv
    rw [hinner] at hother
    cases hother
    exact hitems
  | text t =>
    rw [itemsWithin_iff, List.forall_mem_map]
    exact fun _ _ => trivial
  | object members =>
    rw [itemsWithin_iff, List.forall_mem_map]
    exact fun _ _ => trivial

end Json

/-- Of two lists with related items, an item of the second is related to one of the first. -/
theorem exists_mem_of_forall₂ {α β : Type} {R : α → β → Prop} {as : List α} {bs : List β}
    (h : List.Forall₂ R as bs) : ∀ b ∈ bs, ∃ a ∈ as, R a b := by
  induction h with
  | nil => exact nofun
  | cons hab _ ih =>
    rw [List.forall_mem_cons]
    refine ⟨⟨_, List.mem_cons_self, hab⟩, fun b hb => ?_⟩
    obtain ⟨a, ha, hab⟩ := ih b hb
    exact ⟨a, List.mem_cons_of_mem _ ha, hab⟩

def StoredResult.limitsInside (levels : Nat) : Json.Limits :=
  { limits with depth := limits.depth - levels }

theorem StoredResult.zero_within (levels : Nat) : (Json.int 0).Within (limitsInside levels) := by
  show (Text.ofNat 0).length ≤ 4300
  decide

open StoredResult in
theorem StoredQuery.GivenBy.within {q : StoredQuery} {members : List (Text × Json)}
    (h : q.GivenBy members) (hmembers : (Json.obj members).Within (limitsInside 2)) :
    q.json.Within (limitsInside 2) := by
  obtain ⟨inner, hinner, -, hvalues⟩ := hmembers
  obtain rfl : limitsInside 3 = inner := Option.some.inj hinner
  rw [Json.membersWithin_iff] at hvalues
  refine Json.within_record rfl (by simp) ?_
  simp only [List.forall_mem_cons, List.not_mem_nil, false_imp_iff, implies_true, and_true]
  exact ⟨hvalues _ h.text, hvalues _ h.file, hvalues _ h.line,
    h.column.within (Json.membersWithin_iff.mpr hvalues) (zero_within 3)⟩

theorem StoredResult.GivenBy.within {r : StoredResult} {members : List (Text × Json)}
    (h : r.GivenBy members) (hmembers : (Json.obj members).Within limits) :
    r.json.Within limits := by
  obtain ⟨inner, hinner, -, hvalues⟩ := hmembers
  obtain rfl : limitsInside 1 = inner := Option.some.inj hinner
  -- The lists of a result stand inside it, its queries inside one of them.
  have hempty : (Json.arr []).Within (limitsInside 1) := ⟨limitsInside 2, rfl, trivial⟩
  obtain ⟨commands, items, hcommands, hitems, hqueries⟩ := h.queries
  obtain ⟨files, hfiles, hunreadable⟩ := h.unreadable
  have hitemsWithin := hitems.within (hcommands.within hvalues hempty) rfl
  have hqueriesWithin : ∀ q ∈ r.queries, q.json.Within (limitsInside 2) := by
    intro q hq
    obtain ⟨item, hitem, members, rfl, hgiven⟩ := exists_mem_of_forall₂ hqueries q hq
    exact hgiven.within (Json.itemsWithin_iff.mp hitemsWithin _ hitem)
  refine Json.within_record rfl (by simp) ?_
  simp only [List.forall_mem_cons, List.not_mem_nil, false_imp_iff, implies_true, and_true]
  refine ⟨⟨limitsInside 2, rfl, ?_⟩, h.filesScanned.within hvalues (zero_within 1),
    ⟨limitsInside 2, rfl, hunreadable.within (hfiles.within hvalues hempty) rfl⟩⟩
  rw [Json.itemsWithin_iff, List.forall_mem_map]
  exact hqueriesWithin

/-- A result that was read from integers and texts is read again as it was. -/
theorem StoredResult.read_write_of_read {t : Text} {r : StoredResult}
    (integral : ∀ v, Json.read limits t = .ok v → v.Integral) (h : read t = .ok r) :
    read r.json.write = .ok r := by
  obtain ⟨v, hv⟩ : ∃ v, Json.read limits t = .ok v := by
    rcases hv : Json.read limits t with fault | v
    · rw [read, hv] at h
      cases h
    · exact ⟨v, rfl⟩
  obtain ⟨-, hgiven, -⟩ := read_shaped hv
  obtain ⟨members, rfl, hmembers⟩ := hgiven r h
  exact read_json (hmembers.within ((Json.read_fits hv).within (integral _ hv)))

theorem StoredResult.eq_of_write {r : StoredResult} {s : Text} (h : r.write = .ok s) :
    r.json.write = s := by
  rw [write] at h
  split at h
  · exact Except.ok.inj h
  · cases h

/-- What is written of a result that was read is left as it is when it is read and written again. -/
theorem StoredResult.normalize?_normal {t s : Text}
    (integral : ∀ v, Json.read limits t = .ok v → v.Integral) (h : normalize? t = some s) :
    normalize? s = some s := by
  obtain ⟨r, hread, hwrite⟩ := Option.bind_eq_some_iff.mp h
  rw [toOption_eq_some] at hread hwrite
  obtain rfl : r.json.write = s := r.eq_of_write hwrite
  have hagain : read r.json.write = .ok r := read_write_of_read integral hread
  rw [normalize?, hagain]
  exact toOption_eq_some.mpr hwrite

theorem StoredResult.normalize?_normal_sample :
    let v : Json := .record [("version", .int (-1)), ("unreadable_files", .str "ab".toList),
      ("commands", .arr [.record [("line_number", .null), ("file_path", .record [("a", .bool true)]),
        ("command", .arr [.arr []])]])]
    let r : StoredResult := ⟨[⟨.arr [.arr []], .record [("a", .bool true)], .null, .int 0⟩], .int 0,
      [.str ['a'], .str ['b']]⟩
    (∀ w, Json.read limits v.write = .ok w → w.Integral) ∧
      normalize? v.write = some r.json.write ∧ normalize? r.json.write = some r.json.write := by
  intro v r
  have hv : Json.read limits v.write = .ok v :=
    Json.read_write ⟨_, rfl, by decide, (by decide : (Text.ofNat 1).length ≤ limits.digits), trivial,
      ⟨_, rfl, ⟨_, rfl, by decide, trivial, ⟨_, rfl, by decide, trivial, trivial⟩,
        ⟨_, rfl, ⟨_, rfl, trivial⟩, trivial⟩, trivial⟩, trivial⟩, trivial⟩
  have integral : ∀ w, Json.read limits v.write = .ok w → w.Integral := by
    intro w hw
    obtain rfl : v = w := Except.ok.inj (hv.symm.trans hw)
    simp [v, Json.Integral, Json.MembersIntegral, Json.ItemsIntegral, Json.record]
  have hread : read v.write = .ok r := by
    rw [read_of_read hv]
    rfl
  have hwrite : normalize? v.write = some r.json.write := by
    rw [normalize?, hread]
    rfl
  exact ⟨integral, hwrite, normalize?_normal integral hwrite⟩

end DqlScan
