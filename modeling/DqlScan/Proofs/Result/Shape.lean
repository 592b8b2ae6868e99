import DqlScan.Proofs.Json.Limits
import DqlScan.Result.Stored
import Mathlib.Data.List.Forall2

/-!
# Shapes of stored results

Which values hold a stored result, and what is wrong with the others: of the items that should be
queries the first that is none decides, and only if there is no such item the unreadable files do
(`StoredResult.read_shaped`).
-/

namespace DqlScan

/-! ### Members and items -/

namespace Json

/-- The value of the member of that name, or `other` if there is no such member. -/
def Gives (members : List (Text × Json)) (name : Text) (other value : Json) : Prop :=
  (name, value) ∈ members ∨ name ∉ members.map Prod.fst ∧ value = other

/-- What a value is gone through by: a list by its items, a text by its characters, an object by its
names. Other values cannot be gone through. -/
inductive Iterates : Json → List Json → Prop
  | list (items : List Json) : Iterates (.arr items) items
  | text (t : Text) : Iterates (.str t) (t.map fun c => .str [c])
  | object (members : List (Text × Json)) : Iterates (.obj members) (members.map fun m => .str m.1)

variable {members : List (Text × Json)} {name : Text} {other value : Json}

theorem member?_eq_none : member? name members = none ↔ name ∉ members.map Prod.fst := by
  induction members with
  | nil => simp [member?]
  | cons m members ih => by_cases h : m.1 = name <;> simp_all [member?, eq_comm]

theorem mem_of_member?_eq_some (h : member? name members = some value) :
    (name, value) ∈ members := by
  induction members with
  | nil => cases h
  | cons m members ih =>
    rw [member?] at h
    split at h
    · next heq =>
      cases h
      exact heq ▸ List.mem_cons_self
    · exact List.mem_cons_of_mem _ (ih h)

theorem member?_eq_some (nodup : (members.map Prod.fst).Nodup) :
    member? name members = some value ↔ (name, value) ∈ members := by
  refine ⟨mem_of_member?_eq_some, fun h => ?_⟩
  rcases hmember : member? name members with _ | found
  · exact absurd (List.mem_map_of_mem h) (member?_eq_none.mp hmember)
  · have hfound := mem_of_member?_eq_some hmember
    have hsame := List.inj_on_of_nodup_map nodup hfound h rfl
    exact congrArg some (Prod.ext_iff.mp hsame).2

theorem gives_getD_member? (members : List (Text × Json)) (name : Text) (other : Json) :
    Gives members name other ((member? name members).getD other) := by
  rcases h : member? name members with _ | value
  · exact .inr ⟨member?_eq_none.mp h, rfl⟩
  · exact .inl (mem_of_member?_eq_some h)

/-- What is not gone through like an empty list was not put in for a missing member. -/
theorem Gives.mem (h : Gives members name (.arr []) value) (hvalue : ¬value.Iterates []) :
    (name, value) ∈ members := by
  rcases h with h | ⟨-, rfl⟩
  · exact h
  · exact absurd (.list []) hvalue

theorem getD_member?_of_mem (nodup : (members.map Prod.fst).Nodup) (h : (name, value) ∈ members)
    (other : Json) : (member? name members).getD other = value := by
  rw [(member?_eq_some nodup).mpr h, Option.getD_some]

theorem items_eq_ok {v : Json} {items : List Json} : v.items = .ok items ↔ v.Iterates items := by
  constructor
  · intro h
    cases v <;> cases h
    · exact .text _
    · exact .list _
    · exact .object _
  · rintro (_ | _ | _) <;> rfl

theorem items_eq_error {v : Json} {fault : StoredFault} :
    v.items = .error fault ↔ (∀ items, ¬v.Iterates items) ∧ fault = .notIterable v := by
  constructor
  · intro h
    refine ⟨fun items hitems => ?_, ?_⟩
    · rw [items_eq_ok.mpr hitems] at h
      cases h
    · cases v <;> cases h <;> rfl
  · rintro ⟨h, rfl⟩
    cases v with
    | str t => exact absurd (.text t) (h _)
    | arr items => exact absurd (.list items) (h _)
    | obj members => exact absurd (.object members) (h _)
    | null | bool | int | double => rfl

end Json

/-! ### Queries -/

namespace StoredQuery

def Known (members : List (Text × Json)) : Prop := ∀ m ∈ members, m.1 ∈ optional :: required

/-- The item is an object with all fields that a query must have, and no names but those of
fields. -/
def Shaped (item : Json) : Prop :=
  ∃ members, item = .obj members ∧ Known members ∧ ∀ name ∈ required, name ∈ members.map Prod.fst

/-- The members are the fields of the query. A column that is missing is zero. -/
structure GivenBy (q : StoredQuery) (members : List (Text × Json)) : Prop where
  text : ("command".toList, q.text) ∈ members
  file : ("file_path".toList, q.file) ∈ members
  line : ("line_number".toList, q.line) ∈ members
  column : Json.Gives members optional (.int 0) q.column

/-- What is wrong with an item that is no query. Of the names that are none of fields the first
decides, and only if there is no such name the missing fields do. -/
inductive Faulty : Json → StoredFault → Prop
  | notObject {item : Json} (h : ∀ members, item ≠ .obj members) : Faulty item (.queryNotObject item)
  | unexpected {before after : List (Text × Json)} {name : Text} {value : Json}
      (known : Known before) (h : name ∉ optional :: required) (other : name ≠ reserved) :
      Faulty (.obj (before ++ (name, value) :: after)) (.unexpectedField name)
  | reserved {before after : List (Text × Json)} {value : Json} (known : Known before) :
      Faulty (.obj (before ++ (reserved, value) :: after)) .reservedField
  | missing {members : List (Text × Json)} (known : Known members)
      (h : ∃ name ∈ required, name ∉ members.map Prod.fst) :
      Faulty (.obj members) (.missingFields (required.filter (· ∉ members.map Prod.fst)))

theorem Faulty.not_shaped {item : Json} {fault : StoredFault} (h : Faulty item fault) :
    ¬Shaped item := by
  rintro ⟨members, rfl, known, hrequired⟩
  cases h with
  | notObject h => exact h members rfl
  | unexpected _ hname _ => exact hname (known _ (List.mem_append_right _ List.mem_cons_self))
  | reserved _ =>
    have hreserved : StoredQuery.reserved ∈ optional :: required :=
      known _ (List.mem_append_right _ List.mem_cons_self)
    exact absurd hreserved (by decide)
  | missing _ hmissing =>
    obtain ⟨name, hname, habsent⟩ := hmissing
    exact habsent (hrequired name hname)

/-- The first name that is none of a field, with what stands before it. -/
theorem find?_unknown {members : List (Text × Json)} {name : Text} {value : Json} :
    members.find? (fun m => !(optional :: required).contains m.1) = some (name, value) ↔
      name ∉ optional :: required ∧
        ∃ before after, members = before ++ (name, value) :: after ∧ Known before := by
  rw [List.find?_eq_some_iff_append]
  simp [Known]

theorem find?_unknown_eq_none {members : List (Text × Json)} :
    members.find? (fun m => !(optional :: required).contains m.1) = none ↔ Known members := by
  simp only [List.find?_eq_none, Bool.not_eq_true', Bool.not_eq_false, List.contains_iff_mem, Known]

theorem ofJson_of_unknown {members : List (Text × Json)} {name : Text} {value : Json}
    (h : members.find? (fun m => !(optional :: required).contains m.1) = some (name, value)) :
    ofJson (.obj members) =
      .error (if name = reserved then .reservedField else .unexpectedField name) := by
  rw [ofJson, h]

theorem ofJson_of_known {members : List (Text × Json)} (known : Known members) :
    ofJson (.obj members) =
      match Json.member? "command".toList members, Json.member? "file_path".toList members,
        Json.member? "line_number".toList members with
      | some text, some file, some line =>
        .ok ⟨text, file, line, (Json.member? optional members).getD (.int 0)⟩
      | _, _, _ => .error
        (.missingFields (required.filter fun name => (Json.member? name members).isNone)) := by
  have hnone := find?_unknown_eq_none.mpr known
  rw [ofJson]
  split
  · next hfind =>
    rw [hnone] at hfind
    cases hfind
  · rfl

theorem isNone_member? (members : List (Text × Json)) (name : Text) :
    (Json.member? name members).isNone = decide (name ∉ members.map Prod.fst) := by
  rw [Bool.eq_iff_iff, Option.isNone_iff_eq_none, Json.member?_eq_none, decide_eq_true_eq]

theorem Faulty.ofJson {item : Json} {fault : StoredFault} (h : Faulty item fault) :
    StoredQuery.ofJson item = .error fault := by
  cases h with
  | notObject h =>
    cases item with
    | obj members => exact absurd rfl (h members)
    | null | bool | int | double | str | arr => rfl
  | unexpected known hname other =>
    rw [ofJson_of_unknown (find?_unknown.mpr ⟨hname, _, _, rfl, known⟩), if_neg other]
  | reserved known =>
    rw [ofJson_of_unknown (find?_unknown.mpr ⟨by decide, _, _, rfl, known⟩), if_pos rfl]
  | @missing members known hmissing =>
    rw [ofJson_of_known known]
    split
    · next text file line htext hfile hline =>
      obtain ⟨name, hname, habsent⟩ := hmissing
      have hnone := Json.member?_eq_none.mpr habsent
      simp only [required, List.mem_cons, List.not_mem_nil, or_false] at hname
      rcases hname with rfl | rfl | rfl <;> simp_all
    · simp only [isNone_member?]

/-- An item is a query or has a fault. -/
theorem ofJson_cases (item : Json) :
    (∃ members q, item = .obj members ∧ StoredQuery.ofJson item = .ok q ∧ Shaped item ∧
        q.GivenBy members) ∨
      ∃ fault, Faulty item fault := by
  by_cases hobj : ∃ members, item = .obj members
  swap
  · exact .inr ⟨_, .notObject fun members h => hobj ⟨members, h⟩⟩
  obtain ⟨members, rfl⟩ := hobj
  rcases hfind : members.find? (fun m => !(optional :: required).contains m.1) with _ | ⟨name, value⟩
  · have known : Known members := find?_unknown_eq_none.mp hfind
    by_cases hrequired : ∀ name ∈ required, name ∈ members.map Prod.fst
    · -- The reader finds all three fields, so the branch for missing ones is not taken.
      have hsome : ∀ name ∈ required, ∃ value, Json.member? name members = some value := by
        intro name hname
        rw [← Option.ne_none_iff_exists', ne_eq, Json.member?_eq_none, not_not]
        exact hrequired name hname
      obtain ⟨text, htext⟩ := hsome "command".toList (by decide)
      obtain ⟨file, hfile⟩ := hsome "file_path".toList (by decide)
      obtain ⟨line, hline⟩ := hsome "line_number".toList (by decide)
      refine .inl ⟨members, ⟨text, file, line, (Json.member? optional members).getD (.int 0)⟩, rfl,
        ?_, ⟨members, rfl, known, hrequired⟩,
        Json.mem_of_member?_eq_some htext, Json.mem_of_member?_eq_some hfile,
        Json.mem_of_member?_eq_some hline, Json.gives_getD_member? members optional (.int 0)⟩
      rw [ofJson_of_known known, htext, hfile, hline]
    · push Not at hrequired
      exact .inr ⟨_, .missing known hrequired⟩
  · obtain ⟨hname, before, after, rfl, known⟩ := find?_unknown.mp hfind
    by_cases hreserved : name = reserved
    · subst hreserved
      exact .inr ⟨_, .reserved known⟩
    · exact .inr ⟨_, .unexpected known hname hreserved⟩

theorem ofJson_eq_error {item : Json} {fault : StoredFault} :
    StoredQuery.ofJson item = .error fault ↔ Faulty item fault := by
  refine ⟨fun h => ?_, Faulty.ofJson⟩
  rcases ofJson_cases item with ⟨_, q, -, hok, -⟩ | ⟨other, hfaulty⟩
  · rw [hok] at h
    cases h
  · rw [hfaulty.ofJson] at h
    cases h
    exact hfaulty

theorem exists_ofJson_iff {item : Json} : (∃ q, StoredQuery.ofJson item = .ok q) ↔ Shaped item := by
  constructor
  · rintro ⟨q, h⟩
    rcases ofJson_cases item with ⟨-, -, -, -, hshaped, -⟩ | ⟨fault, hfaulty⟩
    · exact hshaped
    · rw [hfaulty.ofJson] at h
      cases h
  · intro hshaped
    rcases ofJson_cases item with ⟨-, q, -, hok, -⟩ | ⟨fault, hfaulty⟩
    · exact ⟨q, hok⟩
    · exact absurd hshaped hfaulty.not_shaped

theorem givenBy_of_ofJson {item : Json} {q : StoredQuery} (h : StoredQuery.ofJson item = .ok q) :
    ∃ members, item = .obj members ∧ q.GivenBy members := by
  rcases ofJson_cases item with ⟨members, other, hitem, hok, -, hgiven⟩ | ⟨fault, hfaulty⟩
  · rw [hok] at h
    cases h
    exact ⟨members, hitem, hgiven⟩
  · rw [hfaulty.ofJson] at h
    cases h

/-! ### Lists of queries -/

theorem ofItems_eq_ok {items : List Json} {queries : List StoredQuery} :
    ofItems items = .ok queries ↔
      List.Forall₂ (fun item q => StoredQuery.ofJson item = .ok q) items queries := by
  induction items generalizing queries with
  | nil => cases queries <;> simp [ofItems]
  | cons item items ih =>
    simp only [ofItems, bind_eq_ok, ih, List.forall₂_cons_left_iff]
    constructor
    · rintro ⟨q, hq, later, hlater, heq⟩
      cases heq
      exact ⟨q, later, hq, hlater, rfl⟩
    · rintro ⟨q, later, hq, hlater, rfl⟩
      exact ⟨q, hq, later, hlater, rfl⟩

theorem exists_ofItems_iff {items : List Json} :
    (∃ queries, ofItems items = .ok queries) ↔ ∀ item ∈ items, Shaped item := by
  induction items with
  | nil => simp [ofItems]
  | cons item items ih =>
    rw [List.forall_mem_cons, ← ih, ← exists_ofJson_iff]
    simp only [ofItems, bind_eq_ok]
    constructor
    · rintro ⟨_, q, hq, later, hlater, -⟩
      exact ⟨⟨q, hq⟩, later, hlater⟩
    · rintro ⟨⟨q, hq⟩, later, hlater⟩
      exact ⟨_, q, hq, later, hlater, rfl⟩

/-- The first item that is no query decides. -/
theorem ofItems_eq_error {items : List Json} {fault : StoredFault} :
    ofItems items = .error fault ↔ ∃ before item after, items = before ++ item :: after ∧
      (∀ i ∈ before, Shaped i) ∧ Faulty item fault := by
  induction items with
  | nil => simp [ofItems]
  | cons item items ih =>
    simp only [ofItems, bind_eq_error, ofJson_eq_error]
    constructor
    · rintro (hfaulty | ⟨q, hq, hlater | ⟨_, -, hnone⟩⟩)
      · exact ⟨[], item, items, rfl, by simp, hfaulty⟩
      · obtain ⟨before, i, after, rfl, hbefore, hfaulty⟩ := ih.mp hlater
        exact ⟨item :: before, i, after, rfl,
          List.forall_mem_cons.mpr ⟨exists_ofJson_iff.mp ⟨q, hq⟩, hbefore⟩, hfaulty⟩
      · cases hnone
    · rintro ⟨before, i, after, heq, hbefore, hfaulty⟩
      cases before with
      | nil =>
        cases heq
        exact .inl hfaulty
      | cons first before =>
        cases heq
        obtain ⟨hfirst, hbefore⟩ := List.forall_mem_cons.mp hbefore
        obtain ⟨q, hq⟩ := exists_ofJson_iff.mpr hfirst
        exact .inr ⟨q, hq, .inl (ih.mpr ⟨before, i, after, rfl, hbefore, hfaulty⟩)⟩

end StoredQuery

/-! ### Results -/

namespace StoredResult

/-- Whatever the commands of an object are, they can be gone through, and each item is a query. -/
def HoldsQueries (members : List (Text × Json)) : Prop :=
  ∀ value, ("commands".toList, value) ∈ members →
    ∃ items, value.Iterates items ∧ ∀ item ∈ items, StoredQuery.Shaped item

/-- The value is an object whose commands are queries, if it has any, and whose unreadable files can
be gone through, if it has any. -/
def Shaped (v : Json) : Prop :=
  ∃ members, v = .obj members ∧ HoldsQueries members ∧
    ∀ value, ("unreadable_files".toList, value) ∈ members → ∃ items, value.Iterates items

/-- The members are the fields of the result. Its queries are those of the commands in order. -/
structure GivenBy (r : StoredResult) (members : List (Text × Json)) : Prop where
  queries : ∃ value items, Json.Gives members "commands".toList (.arr []) value ∧
    value.Iterates items ∧ List.Forall₂
      (fun item (q : StoredQuery) => ∃ fields, item = .obj fields ∧ q.GivenBy fields) items r.queries
  filesScanned : Json.Gives members "files_scanned".toList (.int 0) r.filesScanned
  unreadable : ∃ value, Json.Gives members "unreadable_files".toList (.arr []) value ∧
    value.Iterates r.unreadable

/-- What is wrong with a value that holds no result. What is wrong with the commands comes first. -/
inductive Faulty : Json → StoredFault → Prop
  | notObject {v : Json} (h : ∀ members, v ≠ .obj members) : Faulty v (.notObject v)
  | queries {members : List (Text × Json)} {value : Json}
      (hvalue : ("commands".toList, value) ∈ members) (h : ∀ items, ¬value.Iterates items) :
      Faulty (.obj members) (.notIterable value)
  | query {members : List (Text × Json)} {value item : Json} {before after : List Json}
      {fault : StoredFault} (hvalue : ("commands".toList, value) ∈ members)
      (items : value.Iterates (before ++ item :: after))
      (shaped : ∀ i ∈ before, StoredQuery.Shaped i) (h : StoredQuery.Faulty item fault) :
      Faulty (.obj members) fault
  | unreadable {members : List (Text × Json)} {value : Json} (queries : HoldsQueries members)
      (hvalue : ("unreadable_files".toList, value) ∈ members) (h : ∀ items, ¬value.Iterates items) :
      Faulty (.obj members) (.notIterable value)

variable {members : List (Text × Json)}

def Distinct (v : Json) : Prop :=
  ∀ members, v = .obj members → (members.map Prod.fst).Nodup

theorem distinct_of_fits {v : Json} {limits : Json.Limits} (h : v.Fits limits) : Distinct v := by
  rintro members rfl
  obtain ⟨inner, -, nodup, -⟩ := h
  exact nodup

theorem ofJson_obj (members : List (Text × Json)) :
    ofJson (.obj members) = (do
      let items ← ((Json.member? "commands".toList members).getD (.arr [])).items
      let queries ← StoredQuery.ofItems items
      let unreadable ← ((Json.member? "unreadable_files".toList members).getD (.arr [])).items
      return ⟨queries, (Json.member? "files_scanned".toList members).getD (.int 0), unreadable⟩) :=
  rfl

/-- What holds of an empty list holds of a member if it holds of what is read for it. -/
theorem forall_value_iff (nodup : (members.map Prod.fst).Nodup) {name : Text} {P : Json → Prop}
    (empty : P (.arr [])) :
    (∀ value, (name, value) ∈ members → P value) ↔
      P ((Json.member? name members).getD (.arr [])) := by
  constructor
  · intro h
    rcases Json.gives_getD_member? members name (.arr []) with hvalue | ⟨-, hvalue⟩
    · exact h _ hvalue
    · rwa [hvalue]
  · intro h value hvalue
    rwa [Json.getD_member?_of_mem nodup hvalue] at h

theorem holdsQueries_iff (nodup : (members.map Prod.fst).Nodup) :
    HoldsQueries members ↔
      ∃ items, ((Json.member? "commands".toList members).getD (.arr [])).Iterates items ∧
        ∀ item ∈ items, StoredQuery.Shaped item :=
  forall_value_iff nodup ⟨[], .list [], by simp⟩

theorem exists_ofJson_of_shaped {v : Json} (distinct : Distinct v) (h : Shaped v) :
    ∃ r, ofJson v = .ok r := by
  obtain ⟨members, rfl, hqueries, hunreadable⟩ := h
  have nodup : (members.map Prod.fst).Nodup := distinct members rfl
  obtain ⟨items, hitems, hshaped⟩ := (holdsQueries_iff nodup).mp hqueries
  obtain ⟨files, hfiles⟩ := (forall_value_iff nodup ⟨[], .list []⟩).mp hunreadable
  obtain ⟨queries, hofItems⟩ := StoredQuery.exists_ofItems_iff.mpr hshaped
  simp only [ofJson_obj, bind_eq_ok]
  exact ⟨_, items, Json.items_eq_ok.mpr hitems, queries, hofItems, files,
    Json.items_eq_ok.mpr hfiles, rfl⟩

theorem Faulty.ofJson {v : Json} {fault : StoredFault} (distinct : Distinct v)
    (h : Faulty v fault) : StoredResult.ofJson v = .error fault := by
  cases h with
  | notObject h =>
    cases v with
    | obj members => exact absurd rfl (h members)
    | null | bool | int | double | str | arr => rfl
  | queries hvalue hnone =>
    simp only [ofJson_obj, bind_eq_error]
    rw [Json.getD_member?_of_mem (distinct _ rfl) hvalue]
    exact .inl (Json.items_eq_error.mpr ⟨hnone, rfl⟩)
  | query hvalue hitems hshaped hfaulty =>
    simp only [ofJson_obj, bind_eq_error]
    rw [Json.getD_member?_of_mem (distinct _ rfl) hvalue]
    exact .inr ⟨_, Json.items_eq_ok.mpr hitems, .inl
      (StoredQuery.ofItems_eq_error.mpr ⟨_, _, _, rfl, hshaped, hfaulty⟩)⟩
  | unreadable hqueries hvalue hnone =>
    obtain ⟨items, hitems, hshaped⟩ := (holdsQueries_iff (distinct _ rfl)).mp hqueries
    obtain ⟨queries, hofItems⟩ := StoredQuery.exists_ofItems_iff.mpr hshaped
    simp only [ofJson_obj, bind_eq_error]
    rw [Json.getD_member?_of_mem (distinct _ rfl) hvalue]
    exact .inr ⟨items, Json.items_eq_ok.mpr hitems, .inr ⟨queries, hofItems, .inl
      (Json.items_eq_error.mpr ⟨hnone, rfl⟩)⟩⟩

/-- A value gives a result its fields or has a fault. -/
theorem ofJson_cases {v : Json} (distinct : Distinct v) :
    (∃ r members, v = .obj members ∧ ofJson v = .ok r ∧ Shaped v ∧ r.GivenBy members) ∨
      ∃ fault, Faulty v fault := by
  by_cases hobj : ∃ members, v = .obj members
  swap
  · exact .inr ⟨_, .notObject fun members h => hobj ⟨members, h⟩⟩
  obtain ⟨members, rfl⟩ := hobj
  have nodup : (members.map Prod.fst).Nodup := distinct members rfl
  have hcommands := Json.gives_getD_member? members "commands".toList (.arr [])
  have hfiles := Json.gives_getD_member? members "unreadable_files".toList (.arr [])
  -- The reader goes through the commands, then the queries, then the unreadable files.
  rcases hitems : ((Json.member? "commands".toList members).getD (.arr [])).items with fault | items
  · obtain ⟨hnone, -⟩ := Json.items_eq_error.mp hitems
    exact .inr ⟨_, .queries (hcommands.mem (hnone [])) hnone⟩
  have hiterates := Json.items_eq_ok.mp hitems
  rcases hqueries : StoredQuery.ofItems items with fault | queries
  · obtain ⟨before, item, after, rfl, hbefore, hfaulty⟩ := StoredQuery.ofItems_eq_error.mp hqueries
    refine .inr ⟨_, .query (hcommands.mem fun hempty => ?_) hiterates hbefore hfaulty⟩
    have hnil := Json.items_eq_ok.mpr hempty
    rw [hitems] at hnil
    simp at hnil
  have hholds : HoldsQueries members :=
    (holdsQueries_iff nodup).mpr ⟨items, hiterates, StoredQuery.exists_ofItems_iff.mp ⟨_, hqueries⟩⟩
  rcases hunreadable : ((Json.member? "unreadable_files".toList members).getD (.arr [])).items with
    fault | unreadable
  · obtain ⟨hnone, -⟩ := Json.items_eq_error.mp hunreadable
    exact .inr ⟨_, .unreadable hholds (hfiles.mem (hnone [])) hnone⟩
  have hread := Json.items_eq_ok.mp hunreadable
  let r : StoredResult :=
    ⟨queries, (Json.member? "files_scanned".toList members).getD (.int 0), unreadable⟩
  have hgiven : r.GivenBy members := by
    refine ⟨⟨_, items, hcommands, hiterates, ?_⟩, Json.gives_getD_member? .., _, hfiles, hread⟩
    exact (StoredQuery.ofItems_eq_ok.mp hqueries).imp fun _ _ => StoredQuery.givenBy_of_ofJson
  refine .inl ⟨r, members, rfl, ?_, ⟨members, rfl, hholds, ?_⟩, hgiven⟩
  · rw [ofJson_obj, hitems]
    simp only [bind_eq_ok]
    exact ⟨items, rfl, queries, hqueries, unreadable, hunreadable, rfl⟩
  · exact (forall_value_iff nodup ⟨[], .list []⟩).mpr ⟨unreadable, hread⟩

theorem read_of_read {t : Text} {v : Json} (h : Json.read limits t = .ok v) : read t = ofJson v := by
  rw [read, h]

/-- Of the values that texts write, those of the right shape are read, with the queries in order; of
the others the first fault is told. -/
theorem read_shaped {t : Text} {v : Json} (h : Json.read limits t = .ok v) :
    ((∃ r, read t = .ok r) ↔ Shaped v) ∧
      (∀ r, read t = .ok r → ∃ members, v = .obj members ∧ r.GivenBy members) ∧
      ∀ fault, read t = .error fault ↔ Faulty v fault := by
  have distinct : Distinct v := distinct_of_fits (Json.read_fits h)
  rw [read_of_read h]
  rcases ofJson_cases distinct with ⟨r, members, rfl, hok, hshaped, hgiven⟩ | ⟨fault, hfaulty⟩
  · refine ⟨⟨fun _ => hshaped, fun _ => ⟨r, hok⟩⟩, ?_, fun fault => ⟨?_, Faulty.ofJson distinct⟩⟩
    · intro other hother
      rw [hok] at hother
      cases hother
      exact ⟨members, rfl, hgiven⟩
    · rw [hok]
      exact nofun
  · have herror := hfaulty.ofJson distinct
    refine ⟨⟨?_, exists_ofJson_of_shaped distinct⟩, ?_,
      fun other => ⟨?_, Faulty.ofJson distinct⟩⟩
    · rw [herror]
      exact nofun
    · rw [herror]
      exact nofun
    · rw [herror]
      rintro ⟨⟩
      exact hfaulty

theorem read_shaped_sample :
    let v : Json := .record [("unreadable_files", .int 1),
      ("commands", .arr [.record [("line_number", .null), ("file_path", .int 0)], .int 7])]
    let fault := StoredFault.missingFields ["command".toList]
    Json.read limits v.write = .ok v ∧ ¬Shaped v ∧ read v.write = .error fault ∧ Faulty v fault := by
  intro v fault
  have hdigits : ∀ n : Fin 10, (Text.ofNat n).length ≤ limits.digits := by decide
  have hv : Json.read limits v.write = .ok v :=
    Json.read_write ⟨_, rfl, by decide, hdigits 1, ⟨_, rfl, ⟨_, rfl, by decide, trivial, hdigits 0,
      trivial⟩, hdigits 7, trivial⟩, trivial⟩
  have hread : read v.write = .error fault := by
    rw [read_of_read hv]
    rfl
  obtain ⟨hshaped, -, hfaulty⟩ := read_shaped hv
  refine ⟨hv, ?_, hread, (hfaulty fault).mp hread⟩
  rw [← hshaped, hread]
  exact nofun

end StoredResult

end DqlScan
