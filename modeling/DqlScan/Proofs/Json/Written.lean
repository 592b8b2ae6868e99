import DqlScan.Proofs.Json.Scalar
import Mathlib.Data.List.Nodup

/-!
# Written values read back

A value without doubles, in which the names in an object differ, is read from its text if it keeps
within the limits of the reader (`read_write`).
-/

namespace DqlScan.Json

mutual

/-- The value has no doubles, the names in its objects differ, and it exceeds no limit. -/
def Within : Json → Limits → Prop
  | .null, _ | .bool _, _ | .str _, _ => True
  | .int n, limits => (Text.ofNat n.natAbs).length ≤ limits.digits
  | .double _, _ => False
  | .arr items, limits => ∃ inner, limits.inner? = some inner ∧ ItemsWithin items inner
  | .obj members, limits =>
    ∃ inner, limits.inner? = some inner ∧ (members.map Prod.fst).Nodup ∧
      MembersWithin members inner

def ItemsWithin : List Json → Limits → Prop
  | [], _ => True
  | item :: items, limits => item.Within limits ∧ ItemsWithin items limits

def MembersWithin : List (Text × Json) → Limits → Prop
  | [], _ => True
  | (_, value) :: members, limits => value.Within limits ∧ MembersWithin members limits

end

theorem itemsWithin_iff {items : List Json} {limits : Limits} :
    ItemsWithin items limits ↔ ∀ item ∈ items, item.Within limits := by
  induction items with
  | nil => simp [ItemsWithin]
  | cons item items ih => simp [ItemsWithin, ih]

theorem membersWithin_iff {members : List (Text × Json)} {limits : Limits} :
    MembersWithin members limits ↔ ∀ m ∈ members, m.2.Within limits := by
  induction members with
  | nil => simp [MembersWithin]
  | cons m members ih => simp [MembersWithin, ih]

theorem within_record {limits inner : Limits} (hinner : limits.inner? = some inner)
    {members : List (String × Json)} (hnames : (members.map Prod.fst).Nodup)
    (hmembers : ∀ m ∈ members, m.2.Within inner) : (record members).Within limits := by
  refine ⟨inner, hinner, ?_, membersWithin_iff.mpr ?_⟩
  · have hlists : ((members.map Prod.fst).map String.toList).Nodup :=
      List.Nodup.map (fun _ _ => String.toList_inj.mp) hnames
    rwa [List.map_map] at hlists ⊢
  · rw [List.forall_mem_map]
    exact hmembers

/-! ### White space -/

theorem skip_cons {c : Char} (h : c ∉ [' ', '\t', '\n', '\r']) (t : Text) :
    skip (c :: t) = c :: t := by
  simp only [List.mem_cons, List.not_mem_nil, or_false, not_or] at h
  simp [skip, h]

theorem skip_newLine (level : Nat) (t : Text) : skip (newLine level ++ t) = skip t :=
  List.dropWhile_append_of_pos (by simp [newLine])

/-- The text starts with a character of a value, which is neither white space nor the end of an
array. -/
def StartsValue (t : Text) : Prop :=
  ∃ c more, t = c :: more ∧ c ∉ [' ', '\t', '\n', '\r', ']', '\ufeff']

theorem StartsValue.skip {t : Text} (h : StartsValue t) : Json.skip t = t := by
  obtain ⟨c, more, rfl, hc⟩ := h
  exact skip_cons (by simp_all) more

theorem exists_cons_ofInt (n : Int) :
    (∃ c ds, Text.ofInt n = c :: ds ∧ c.isDigit = true) ∨
      ∃ c ds, Text.ofInt n = '-' :: c :: ds ∧ c.isDigit = true := by
  cases n with
  | ofNat n =>
    obtain ⟨c, ds, hds⟩ := exists_cons_ofNat n
    exact .inl ⟨c, ds, hds, isDigit_of_mem_ofNat (n := n) (by simp [hds])⟩
  | negSucc n =>
    obtain ⟨c, ds, hds⟩ := exists_cons_ofNat (n + 1)
    exact .inr ⟨c, ds, congrArg ('-' :: ·) hds, isDigit_of_mem_ofNat (n := n + 1) (by simp [hds])⟩

theorem ne_of_isDigit {c d : Char} (hc : c.isDigit = true) (hd : d.isDigit = false) : c ≠ d := by
  rintro rfl
  simp [hc] at hd

/-- The first character of an integer is one of no other value, and none that stands between
values. -/
theorem exists_cons_ofInt_append (n : Int) (rest : Text) :
    ∃ c more, Text.ofInt n ++ rest = c :: more ∧
      c ∉ [' ', '\t', '\n', '\r', ']', '\ufeff', '"', '\x7b', '['] := by
  obtain ⟨c, ds, hds, hc⟩ | ⟨c, ds, hds, -⟩ := exists_cons_ofInt n
  · refine ⟨c, ds ++ rest, by rw [hds, List.cons_append], fun hmem => ?_⟩
    have hnone : ([' ', '\t', '\n', '\r', ']', '\ufeff', '"', '\x7b', '['].all
        fun d => !d.isDigit) = true := by decide
    have hdigit := List.all_eq_true.mp hnone c hmem
    rw [hc] at hdigit
    cases hdigit
  · exact ⟨'-', c :: ds ++ rest, by rw [hds, List.cons_append], by decide⟩

theorem startsValue_writeAt {limits : Limits} {v : Json} (hv : v.Within limits) (level : Nat)
    (rest : Text) : StartsValue (writeAt level v rest) := by
  cases v with
  | null => exact ⟨'n', _, rfl, by decide⟩
  | bool b => cases b <;> exact ⟨_, _, rfl, by decide⟩
  | int n =>
    obtain ⟨c, more, hcons, hc⟩ := exists_cons_ofInt_append n rest
    exact ⟨c, more, hcons, by simp_all⟩
  | double x => exact hv.elim
  | str t => exact ⟨'"', _, rfl, by decide⟩
  | arr items => cases items <;> exact ⟨'[', _, rfl, by decide⟩
  | obj members => cases members <;> exact ⟨'\x7b', _, rfl, by decide⟩

/-! ### Lengths -/

theorem length_lt_append {t : Text} (h : t ≠ []) (rest : Text) :
    rest.length < (t ++ rest).length := by
  have hpos := List.length_pos_iff.mpr h
  rw [List.length_append]
  omega

mutual

theorem length_lt_writeAt {limits : Limits} : ∀ {v : Json}, v.Within limits →
    ∀ (level : Nat) (rest : Text), rest.length < (writeAt level v rest).length
  | .null, _, level, rest => length_lt_append (t := "null".toList) (by decide) rest
  | .bool b, _, level, rest => length_lt_append (by cases b <;> decide) rest
  | .int n, _, level, rest => by
    have hne : Text.ofInt n ≠ [] := by
      obtain ⟨c, ds, hds, -⟩ | ⟨c, ds, hds, -⟩ := exists_cons_ofInt n <;> simp [hds]
    exact length_lt_append hne rest
  | .str t, _, level, rest => length_lt_append (List.cons_ne_nil _ _) rest
  | .arr [], _, level, rest => length_lt_append (t := "[]".toList) (by decide) rest
  | .arr (item :: items), ⟨inner, _, hitem, hitems⟩, level, rest => by
    have hlast := length_le_writeItems hitems (level + 1) (newLine level ++ ']' :: rest)
    have hfirst := length_lt_writeAt hitem (level + 1)
      (writeItems (level + 1) items (newLine level ++ ']' :: rest))
    simp only [List.length_append, List.length_cons] at hlast
    simp only [writeAt, List.length_append, List.length_cons]
    omega
  | .obj [], _, level, rest => length_lt_append (t := ['\x7b', '\x7d']) (by decide) rest
  | .obj ((name, value) :: members), ⟨inner, _, _, hvalue, hmembers⟩, level, rest => by
    have hlast := length_le_writeMembers hmembers (level + 1) (newLine level ++ '\x7d' :: rest)
    have hfirst := length_lt_writeAt hvalue (level + 1)
      (writeMembers (level + 1) members (newLine level ++ '\x7d' :: rest))
    simp only [List.length_append, List.length_cons] at hlast
    simp only [writeAt, List.length_append, List.length_cons]
    omega

theorem length_le_writeItems {limits : Limits} : ∀ {items : List Json}, ItemsWithin items limits →
    ∀ (level : Nat) (rest : Text), rest.length ≤ (writeItems level items rest).length
  | [], _, level, rest => by simp [writeItems]
  | item :: items, ⟨hitem, hitems⟩, level, rest => by
    have hlast := length_le_writeItems hitems level rest
    have hfirst := length_lt_writeAt hitem level (writeItems level items rest)
    simp only [writeItems, List.length_append, List.length_cons]
    omega

theorem length_le_writeMembers {limits : Limits} : ∀ {members : List (Text × Json)},
    MembersWithin members limits →
    ∀ (level : Nat) (rest : Text), rest.length ≤ (writeMembers level members rest).length
  | [], _, level, rest => by simp [writeMembers]
  | (name, value) :: members, ⟨hvalue, hmembers⟩, level, rest => by
    have hlast := length_le_writeMembers hmembers level rest
    have hfirst := length_lt_writeAt hvalue level (writeMembers level members rest)
    simp only [writeMembers, List.length_append, List.length_cons]
    omega

end

/-! ### Values -/

theorem endsNumber_cons {c : Char} (h : c ∈ ['\n', ',']) (t : Text) : EndsNumber (c :: t) := by
  intro d hd
  obtain rfl : c = d := by simpa using hd
  simp only [List.mem_cons, List.not_mem_nil, or_false] at h
  rcases h with rfl | rfl <;> decide

theorem setMember_of_notMem {name : Text} {members : List (Text × Json)}
    (h : name ∉ members.map Prod.fst) (value : Json) :
    setMember name value members = members ++ [(name, value)] := by
  induction members with
  | nil => rfl
  | cons m members ih =>
    simp only [List.map_cons, List.mem_cons, not_or] at h
    rw [setMember, if_neg (Ne.symm h.1), ih h.2, List.cons_append]

theorem notMem_of_nodup {name : Text} {value : Json} {before members : List (Text × Json)}
    (h : ((before ++ (name, value) :: members).map Prod.fst).Nodup) :
    name ∉ before.map Prod.fst := by
  rw [List.map_append, List.nodup_append] at h
  exact fun hmem => h.2.2 name hmem name (by simp) rfl

/-- No word starts as an integer does. -/
theorem readWord?_ofInt (n : Int) (rest : Text) : readWord? (Text.ofInt n ++ rest) = none := by
  obtain ⟨c, ds, hds, hc⟩ | ⟨c, ds, hds, hc⟩ := exists_cons_ofInt n
  · have hne : ∀ d, d.isDigit = false → d ≠ c := fun d hd => (ne_of_isDigit hc hd).symm
    simp [hds, readWord?, words, List.isPrefixOf?, hne]
  · have hne : 'I' ≠ c := (ne_of_isDigit hc (by decide)).symm
    simp [hds, readWord?, words, List.isPrefixOf?, hne]

theorem readValue_ofInt {limits : Limits} {n : Int}
    (hn : (Text.ofNat n.natAbs).length ≤ limits.digits) (steps : Nat) {rest : Text}
    (hrest : EndsNumber rest) :
    readValue limits (steps + 1) (Text.ofInt n ++ rest) = .ok (.int n, rest) := by
  have hword := readWord?_ofInt n rest
  have hnumber := readNumber_ofInt hn hrest
  obtain ⟨c, more, hcons, hc⟩ := exists_cons_ofInt_append n rest
  rw [hcons] at hword hnumber ⊢
  simp only [List.mem_cons, List.not_mem_nil, or_false, not_or] at hc
  obtain ⟨-, -, -, -, -, -, hquote, hbrace, hbracket⟩ := hc
  unfold readValue
  split
  · next heq => exact absurd (List.cons.inj heq).1 hquote
  · next heq => exact absurd (List.cons.inj heq).1 hbrace
  · next heq => exact absurd (List.cons.inj heq).1 hbracket
  · rw [hword, hnumber]

theorem readValue_array {limits inner : Limits} (hinner : limits.inner? = some inner)
    (steps level : Nat) {t : Text} (ht : StartsValue t) :
    readValue limits (steps + 1) ('[' :: (newLine level ++ t)) =
      (readItems inner steps t).map fun r => (.arr r.1, r.2) := by
  obtain ⟨c, more, rfl, hc⟩ := ht
  have hclose : c ≠ ']' := by
    rintro rfl
    exact hc (by decide)
  rw [readValue, hinner]
  simp only [skip_newLine, skip_cons (c := c) (by simp_all)]
  split
  · next heq => exact absurd (List.cons.inj heq).1 hclose
  · rfl

theorem readValue_object {limits inner : Limits} (hinner : limits.inner? = some inner)
    (steps level : Nat) (t : Text) :
    readValue limits (steps + 1) ('\x7b' :: (newLine level ++ '"' :: t)) =
      (readMembers inner steps [] ('"' :: t)).map fun r => (.obj r.1, r.2) := by
  rw [readValue, hinner]
  simp only [skip_newLine, skip_cons (c := '"') (by decide)]
  rfl

/-- A member is read, and what stands behind its value decides how it goes on. -/
theorem readMembers_member {limits : Limits} {steps : Nat} {value : Json} {t rest : Text}
    (ht : StartsValue t) (hread : readValue limits steps t = .ok (value, rest)) (name : Text)
    (before : List (Text × Json)) {result : Read (List (Text × Json))}
    (hresult : (match skip rest with
      | '\x7d' :: after => .ok (setMember name value before, after)
      | ',' :: more => readMembers limits steps (setMember name value before) (skip more)
      | other => .error (.problem .expectedComma other)) = result) :
    readMembers limits (steps + 1) before (writeString name ++ ':' :: ' ' :: t) = result := by
  have hblank : skip (' ' :: t) = t := ht.skip
  have hstring := readString_write (writeString name ++ ':' :: ' ' :: t) name (':' :: ' ' :: t)
  simp only [writeString, List.cons_append, List.append_assoc, List.nil_append] at hstring ⊢
  rw [readMembers, hstring]
  simp only [skip_cons (c := ':') (by decide), hblank, hread]
  exact hresult

-- The recursion is on the steps of the reader. There are enough of them, because what is left to be
-- read gets shorter by a character at least with each.
mutual

/-- A written value is read back, and the text that follows it is left. -/
theorem readValue_writeAt {limits : Limits} : ∀ {v : Json}, v.Within limits →
    ∀ (level steps : Nat) (rest : Text), EndsNumber rest →
      (writeAt level v rest).length ≤ steps + rest.length →
      readValue limits steps (writeAt level v rest) = .ok (v, rest)
  | v, hv, level, 0, rest, _, hsteps => by
    have hlength := length_lt_writeAt hv level rest
    omega
  | .null, _, level, steps + 1, rest, _, _ => rfl
  | .bool b, _, level, steps + 1, rest, _, _ => by cases b <;> rfl
  | .int n, hn, level, steps + 1, rest, hrest, _ => readValue_ofInt hn steps hrest
  | .str t, _, level, steps + 1, rest, _, _ => by
    have hstring := readString_write (writeString t ++ rest) t rest
    simp only [writeAt, writeString, List.cons_append, List.append_assoc, List.nil_append]
      at hstring ⊢
    rw [readValue, hstring]
    rfl
  | .arr [], ⟨inner, hinner, _⟩, level, steps + 1, rest, _, _ => by
    show readValue limits (steps + 1) ('[' :: ']' :: rest) = .ok (.arr [], rest)
    rw [readValue, hinner]
    rfl
  | .arr (item :: items), ⟨inner, hinner, hitems⟩, level, steps + 1, rest, hrest, hsteps => by
    have hstart := startsValue_writeAt hitems.1 (level + 1)
      (writeItems (level + 1) items (newLine level ++ ']' :: rest))
    have hread := readItems_writeItems hitems (level + 1) level steps rest (by
      simp only [writeAt, List.length_append, List.length_cons] at hsteps ⊢
      omega)
    rw [writeAt, readValue_array hinner steps _ hstart, hread]
    rfl
  | .obj [], ⟨inner, hinner, _⟩, level, steps + 1, rest, _, _ => by
    show readValue limits (steps + 1) ('\x7b' :: '\x7d' :: rest) = .ok (.obj [], rest)
    rw [readValue, hinner]
    rfl
  | .obj ((name, value) :: members), ⟨inner, hinner, hnames, hmembers⟩, level, steps + 1, rest,
      hrest, hsteps => by
    have hread := readMembers_writeMembers hmembers [] hnames (level + 1) level steps rest (by
      simp only [writeAt, List.length_append, List.length_cons] at hsteps ⊢
      omega)
    rw [writeAt]
    exact (readValue_object hinner steps (level + 1) _).trans (congrArg _ hread)
termination_by structural _ _ _ steps => steps

theorem readItems_writeItems {limits : Limits} : ∀ {item : Json} {items : List Json},
    ItemsWithin (item :: items) limits → ∀ (level closing steps : Nat) (rest : Text),
      (writeAt level item (writeItems level items (newLine closing ++ ']' :: rest))).length ≤
        steps + rest.length →
      readItems limits steps
          (writeAt level item (writeItems level items (newLine closing ++ ']' :: rest))) =
        .ok (item :: items, rest)
  | item, items, ⟨hitem, hitems⟩, level, closing, 0, rest, hsteps => by
    have hlast := length_le_writeItems hitems level (newLine closing ++ ']' :: rest)
    have hfirst := length_lt_writeAt hitem level
      (writeItems level items (newLine closing ++ ']' :: rest))
    simp only [List.length_append, List.length_cons] at hlast
    omega
  | item, [], ⟨hitem, _⟩, level, closing, steps + 1, rest, hsteps => by
    have hread := readValue_writeAt hitem level steps
      (writeItems level [] (newLine closing ++ ']' :: rest))
      (endsNumber_cons (by decide) _) (by
        simp only [writeItems, newLine, List.length_append, List.length_cons] at hsteps ⊢
        omega)
    rw [readItems, hread]
    simp only [writeItems, skip_newLine, skip_cons (c := ']') (by decide)]
  | item, next :: items, ⟨hitem, hitems⟩, level, closing, steps + 1, rest, hsteps => by
    have hlast := length_le_writeItems hitems level (newLine closing ++ ']' :: rest)
    have hread := readValue_writeAt hitem level steps
      (writeItems level (next :: items) (newLine closing ++ ']' :: rest))
      (endsNumber_cons (by decide) _) (by
        simp only [List.length_append, List.length_cons] at hsteps hlast ⊢
        omega)
    have hfirst := length_lt_writeAt hitem level
      (writeItems level (next :: items) (newLine closing ++ ']' :: rest))
    have hstart := startsValue_writeAt hitems.1 level
      (writeItems level items (newLine closing ++ ']' :: rest))
    have hmore := readItems_writeItems hitems level closing steps rest (by
      simp only [writeItems, List.length_append, List.length_cons] at hsteps hfirst ⊢
      omega)
    rw [readItems, hread]
    simp only [writeItems, skip_cons (c := ',') (by decide), skip_newLine, hstart.skip, hmore]
    rfl
termination_by structural _ _ _ _ _ steps => steps

theorem readMembers_writeMembers {limits : Limits} : ∀ {name : Text} {value : Json}
    {members : List (Text × Json)}, MembersWithin ((name, value) :: members) limits →
    ∀ (before : List (Text × Json)),
      ((before ++ (name, value) :: members).map Prod.fst).Nodup →
    ∀ (level closing steps : Nat) (rest : Text),
      (writeString name ++ ':' :: ' ' :: writeAt level value
          (writeMembers level members (newLine closing ++ '\x7d' :: rest))).length ≤
        steps + rest.length →
      readMembers limits steps before (writeString name ++ ':' :: ' ' ::
          writeAt level value (writeMembers level members (newLine closing ++ '\x7d' :: rest))) =
        .ok (before ++ (name, value) :: members, rest)
  | name, value, members, ⟨hvalue, hmembers⟩, before, hnames, level, closing, 0, rest, hsteps => by
    have hlast := length_le_writeMembers hmembers level (newLine closing ++ '\x7d' :: rest)
    have hfirst := length_lt_writeAt hvalue level
      (writeMembers level members (newLine closing ++ '\x7d' :: rest))
    simp only [List.length_append, List.length_cons] at hsteps hlast
    omega
  | name, value, [], ⟨hvalue, _⟩, before, hnames, level, closing, steps + 1, rest, hsteps => by
    have hread := readValue_writeAt hvalue level steps
      (writeMembers level [] (newLine closing ++ '\x7d' :: rest))
      (endsNumber_cons (by decide) _) (by
        simp only [writeMembers, newLine, List.length_append, List.length_cons] at hsteps ⊢
        omega)
    have hnew := notMem_of_nodup hnames
    apply readMembers_member (startsValue_writeAt hvalue _ _) hread
    rw [setMember_of_notMem hnew]
    simp only [writeMembers, skip_newLine, skip_cons (c := '\x7d') (by decide)]
  | name, value, (next, nextValue) :: members, ⟨hvalue, hmembers⟩, before, hnames, level, closing,
      steps + 1, rest, hsteps => by
    have hlast := length_le_writeMembers hmembers level (newLine closing ++ '\x7d' :: rest)
    have hread := readValue_writeAt hvalue level steps
      (writeMembers level ((next, nextValue) :: members)
        (newLine closing ++ '\x7d' :: rest))
      (endsNumber_cons (by decide) _) (by
        simp only [List.length_append, List.length_cons] at hsteps hlast ⊢
        omega)
    have hfirst := length_lt_writeAt hvalue level
      (writeMembers level ((next, nextValue) :: members) (newLine closing ++ '\x7d' :: rest))
    have hnew := notMem_of_nodup hnames
    have hmore := readMembers_writeMembers hmembers (before ++ [(name, value)])
      (by simpa using hnames) level closing steps rest (by
        simp only [writeMembers, List.length_append, List.length_cons] at hsteps hfirst ⊢
        omega)
    apply readMembers_member (startsValue_writeAt hvalue _ _) hread
    rw [setMember_of_notMem hnew]
    simp only [writeMembers, skip_cons (c := ',') (by decide), skip_newLine]
    exact hmore.trans (by simp)
termination_by structural _ _ _ _ _ _ _ _ steps => steps

end

/-! ### Texts with something behind them -/

mutual

theorem writeAt_append : ∀ (v : Json) (level : Nat) (s t : Text),
    writeAt level v (s ++ t) = writeAt level v s ++ t
  | .null, _, _, _ | .bool _, _, _, _ | .int _, _, _, _ | .double _, _, _, _ | .str _, _, _, _
  | .arr [], _, _, _ | .obj [], _, _, _ => by simp only [writeAt, List.append_assoc, List.cons_append]
  | .arr (item :: items), level, s, t => by
    have hitems := writeItems_append items (level + 1) (newLine level ++ ']' :: s) t
    simp only [List.append_assoc, List.cons_append] at hitems
    simp only [writeAt, hitems, writeAt_append item, List.append_assoc, List.cons_append]
  | .obj ((name, value) :: members), level, s, t => by
    have hmembers := writeMembers_append members (level + 1) (newLine level ++ '\x7d' :: s) t
    simp only [List.append_assoc, List.cons_append] at hmembers
    simp only [writeAt, hmembers, writeAt_append value, List.append_assoc, List.cons_append]

theorem writeItems_append : ∀ (items : List Json) (level : Nat) (s t : Text),
    writeItems level items (s ++ t) = writeItems level items s ++ t
  | [], _, _, _ => by simp only [writeItems]
  | item :: items, level, s, t => by
    simp only [writeItems, writeItems_append items, writeAt_append item, List.append_assoc,
      List.cons_append]

theorem writeMembers_append : ∀ (members : List (Text × Json)) (level : Nat) (s t : Text),
    writeMembers level members (s ++ t) = writeMembers level members s ++ t
  | [], _, _, _ => by simp only [writeMembers]
  | (name, value) :: members, level, s, t => by
    simp only [writeMembers, writeMembers_append members, writeAt_append value, List.append_assoc,
      List.cons_append]

end

/-- A written value is read from a text that has only white space behind it. -/
theorem read_write_append {limits : Limits} {v : Json} (hv : v.Within limits) {rest : Text}
    (hrest : EndsNumber rest) (hskip : skip rest = []) : read limits (write v ++ rest) = .ok v := by
  have htext : write v ++ rest = writeAt 0 v rest := (writeAt_append v 0 [] rest).symm
  have hstart : StartsValue (write v ++ rest) := htext ▸ startsValue_writeAt hv 0 rest
  have hmark : (write v ++ rest).head? ≠ some '\ufeff' := by
    obtain ⟨c, more, hcons, hc⟩ := hstart
    rw [hcons, List.head?_cons, ne_eq, Option.some.injEq]
    rintro rfl
    exact hc (by decide)
  have hread : readValue limits (2 * (write v ++ rest).length + 2) (write v ++ rest) = .ok (v, rest) := by
    rw [htext]
    exact readValue_writeAt hv 0 _ rest hrest (by omega)
  rw [read, readDocument, if_neg hmark, hstart.skip, hread]
  simp only [hskip]
  rfl

theorem read_write {limits : Limits} {v : Json} (hv : v.Within limits) :
    read limits (write v) = .ok v := by
  have hends : EndsNumber [] := fun c hc => nomatch hc
  have hread := read_write_append hv hends rfl
  rwa [List.append_nil] at hread

end DqlScan.Json
